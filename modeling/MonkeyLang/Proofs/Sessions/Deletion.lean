import MonkeyLang.Proofs.Sessions.Numbered

/-!
# Lines without effect

A line that is blank or has errors in it is not evaluated. So it can be deleted from the input of a
session: its own prompt and the list of its errors are missing then, and all else that appears stays
as it is, also when the line has given numbers to texts that come up again later.

An input is cut into lines behind its line feeds. A conversation is put together from what appears
while the session gets through the lines before the one in question and from the rest, which depends
on the session then and not on what has appeared.

## Main definitions

* `Session.readThrough` : what appears while a session gets through lines.
* `Session.trace` : what appears when a line is rejected.

## Main statements

* `Session.converse_append`, `Session.converse_append_of_not_through` : a conversation in two parts.
* `Session.converse_without_line` : a session with a rejected line and without it.
-/

namespace MonkeyLang.Session

/-! ### The lines of an input -/

/-- The bytes are no bytes or end with a line feed. -/
def WholeLines (bs : List UInt8) : Prop := bs = [] ∨ ∃ cs, bs = cs ++ [10]

/-- `IsLine line after`: the bytes `line` are one line of an input, and `after` is what follows. -/
inductive IsLine : List UInt8 → List UInt8 → Prop where
  /-- A line with its line feed. -/
  | closed {bs after : List UInt8} : 10 ∉ bs → IsLine (bs ++ [10]) after
  /-- The last line of an input, without a line feed. -/
  | last {bs : List UInt8} : 10 ∉ bs → bs ≠ [] → IsLine bs []

theorem splitLine_closed {bs : List UInt8} (h : 10 ∉ bs) (after : List UInt8) :
    splitLine (bs ++ [10] ++ after) = (bs ++ [10], after) := by
  induction bs with
  | nil => rfl
  | cons b bs ih =>
    obtain ⟨hb, hbs⟩ := not_or.1 (mt List.mem_cons.2 h)
    rw [List.cons_append, List.cons_append, splitLine, if_neg (Ne.symm hb), ih hbs]

theorem splitLine_last {bs : List UInt8} (h : 10 ∉ bs) : splitLine bs = (bs, []) := by
  induction bs with
  | nil => rfl
  | cons b bs ih =>
    obtain ⟨hb, hbs⟩ := not_or.1 (mt List.mem_cons.2 h)
    rw [splitLine, if_neg (Ne.symm hb), ih hbs]

/-- The first of several whole lines is split off, and whole lines are left. -/
theorem splitLine_whole (bs cs : List UInt8) :
    splitLine (bs ++ [10] ++ cs) =
        ((splitLine (bs ++ [10])).1, (splitLine (bs ++ [10])).2 ++ cs) ∧
      WholeLines (splitLine (bs ++ [10])).2 := by
  induction bs with
  | nil => exact ⟨rfl, .inl rfl⟩
  | cons b bs ih =>
    simp only [List.cons_append, splitLine]
    split
    · exact ⟨rfl, .inr ⟨bs, rfl⟩⟩
    · rw [ih.1]
      exact ⟨rfl, ih.2⟩

theorem inputLines_of_ne_nil {bs : List UInt8} (h : bs ≠ []) :
    inputLines bs =
      String.fromUTF8? (splitLine bs).1.toByteArray :: inputLines (splitLine bs).2 := by
  obtain ⟨b, bs, rfl⟩ := List.exists_cons_of_ne_nil h
  rw [inputLines]

/-- The lines of an input whose first part is made of whole lines. -/
theorem inputLines_append {bs : List UInt8} (h : WholeLines bs) (cs : List UInt8) :
    inputLines (bs ++ cs) = inputLines bs ++ inputLines cs := by
  induction hn : bs.length using Nat.strongRecOn generalizing bs with
  | ind n ih =>
    obtain rfl | ⟨ds, rfl⟩ := h
    · rw [inputLines, List.nil_append, List.nil_append]
    · have hne : ds ++ [10] ≠ [] := by simp
      obtain ⟨hsplit, hwhole⟩ := splitLine_whole ds cs
      have hshorter : (splitLine (ds ++ [10])).2.length < n := by
        obtain ⟨b, bs, hb⟩ := List.exists_cons_of_ne_nil hne
        rw [← hn, hb]
        exact length_splitLine_cons_lt b bs
      rw [inputLines_of_ne_nil hne, inputLines_of_ne_nil (List.append_ne_nil_of_left_ne_nil hne cs),
        hsplit, ih _ hshorter hwhole rfl, List.cons_append]

theorem IsLine.inputLines {line after : List UInt8} (h : IsLine line after) :
    inputLines (line ++ after) = String.fromUTF8? line.toByteArray :: Session.inputLines after := by
  cases h with
  | closed hbs =>
    rw [inputLines_of_ne_nil (by simp), splitLine_closed hbs]
  | last hbs hne =>
    rw [List.append_nil, inputLines_of_ne_nil hne, splitLine_last hbs]

/-! ### Conversations in parts -/

namespace Conversation

/-- What is put together from the chunks of a conversation is put together part by part. -/
theorem foldl_append {f : String → Chunk → String} (hf : ∀ s c, f s c = s ++ f "" c)
    (cs ds : List Chunk) : (cs ++ ds).foldl f "" = cs.foldl f "" ++ ds.foldl f "" := by
  have hstart (s : String) (cs : List Chunk) : cs.foldl f s = s ++ cs.foldl f "" := by
    induction cs generalizing s with
    | nil => exact String.append_empty.symm
    | cons c cs ih =>
      rw [List.foldl_cons, List.foldl_cons, ih, ih (f "" c), hf, String.append_assoc]
  rw [List.foldl_append, hstart]

theorem all_append (cs ds : List Chunk) (closing : Closing) :
    all ⟨cs ++ ds, closing⟩ = all ⟨cs, closing⟩ ++ all ⟨ds, closing⟩ :=
  foldl_append (fun s c => by cases c <;> simp) cs ds

theorem printed_append (cs ds : List Chunk) (closing : Closing) :
    printed ⟨cs ++ ds, closing⟩ = printed ⟨cs, closing⟩ ++ printed ⟨ds, closing⟩ :=
  foldl_append (fun s c => by cases c <;> simp) cs ds

end Conversation

/-- What appears while a session gets through the given lines, and the session then. A session that
ends before or at the last one of them does not get through. -/
def readThrough (fuel : Nat) : Session → List (Option String) → Option (List Chunk × Session)
  | s, [] => some ([], s)
  | _, none :: _ => none
  | s, some text :: lines =>
    if Blank.isBlankText text then
      (readThrough fuel s lines).map fun (chunks, s') => (.shown prompt :: chunks, s')
    else
      match s.line fuel text with
      | none => none
      | some (report, s') =>
        match report.exit with
        | some _ => none
        | none =>
          (readThrough fuel s' lines).map fun (chunks, s'') =>
            ([.shown prompt, .printed report.printed, .shown report.shown] ++ chunks, s'')

/-- What appears after lines that a session gets through comes from the session then. -/
theorem converse_append {fuel : Nat} {s s' : Session} {lines : List (Option String)}
    {chunks : List Chunk} (h : s.readThrough fuel lines = some (chunks, s'))
    (lines' : List (Option String)) :
    s.converse fuel (lines ++ lines') = (s'.converse fuel lines').map (·.after chunks) := by
  induction lines generalizing s chunks with
  | nil =>
    obtain ⟨rfl, rfl⟩ := Prod.mk.inj (Option.some.inj h)
    exact (congrFun Option.map_id _).symm
  | cons line lines ih =>
    cases line with
    | none => cases h
    | some text =>
      rw [readThrough] at h
      rw [List.cons_append, converse]
      split at h
      next hblank =>
        obtain ⟨⟨ds, s₁⟩, hds, heq⟩ := Option.map_eq_some_iff.1 h
        obtain ⟨rfl, rfl⟩ := Prod.mk.inj heq
        rw [if_pos hblank, ih hds, Option.map_map]
        rfl
      next hblank =>
        rw [if_neg hblank]
        cases hline : s.line fuel text with
        | none => simp [hline] at h
        | some r =>
          obtain ⟨report, s₁⟩ := r
          cases hexit : report.exit with
          | some code => simp [hline, hexit] at h
          | none =>
            simp only [hline, hexit] at h ⊢
            obtain ⟨⟨ds, s₂⟩, hds, heq⟩ := Option.map_eq_some_iff.1 h
            obtain ⟨rfl, rfl⟩ := Prod.mk.inj heq
            rw [ih hds, Option.map_map]
            rfl

/-- Lines that a session does not get through are the last ones that it reads. -/
theorem converse_append_of_not_through {fuel : Nat} {s : Session} {lines : List (Option String)}
    (h : s.readThrough fuel lines = none) (lines' : List (Option String)) :
    s.converse fuel (lines ++ lines') = s.converse fuel lines := by
  induction lines generalizing s with
  | nil => cases h
  | cons line lines ih =>
    cases line with
    | none => rfl
    | some text =>
      rw [readThrough] at h
      rw [List.cons_append, converse, converse]
      split at h
      next hblank => rw [if_pos hblank, if_pos hblank, ih (Option.map_eq_none_iff.1 h)]
      next hblank =>
        rw [if_neg hblank, if_neg hblank]
        cases hline : s.line fuel text with
        | none => rfl
        | some r =>
          cases hexit : r.1.exit with
          | some code => simp only [hexit]
          | none =>
            simp only [hline, hexit] at h ⊢
            rw [ih (Option.map_eq_none_iff.1 h)]

/-! ### Rejected lines -/

/-- The line is blank or has errors in it. -/
def Rejected (text : String) : Prop :=
  Blank.isBlankText text = true ∨ (Program.ofSource text).hasErrors = true

/-- What a rejected line is answered with: the list of its errors, and nothing if it is blank. -/
def answer (text : String) : String :=
  if Blank.isBlankText text then ""
  else "parser errors:\n" ++ errorLines text (Program.ofSource text).errors

/-- What appears when a rejected line is read. -/
def trace (text : String) : List Chunk :=
  .shown prompt :: if Blank.isBlankText text then [] else [.printed "", .shown (answer text)]

/-- A rejected line leaves the session as it is. -/
theorem converse_rejected {text : String} (h : Rejected text) (s : Session) (fuel : Nat)
    (lines : List (Option String)) :
    s.converse fuel (some text :: lines) = (s.converse fuel lines).map (·.after (trace text)) := by
  rw [converse, trace, answer]
  split
  next => rfl
  next hblank =>
    have herrors := h.resolve_left hblank
    simp only [line, herrors, if_true]

theorem all_trace (text : String) (closing : Closing) :
    Conversation.all ⟨trace text, closing⟩ = prompt ++ answer text := by
  rw [trace]
  split
  next hblank => simp [Conversation.all, answer, hblank]
  next => simp [Conversation.all]

theorem printed_trace (text : String) (closing : Closing) :
    Conversation.printed ⟨trace text, closing⟩ = "" := by
  rw [trace]
  split <;> rfl

/-- A line that is blank or has errors in it can be deleted from the input of a session that reads
it and ends. Its prompt and the list of its errors are missing then where they have been; everything
else that appears stays as it is, and so do what is printed and the exit code. This holds of sessions
that number names, too, although the line changes the numbers of names that come up later. -/
theorem converse_without_line {o : Options} {n : Nat} {before line after : List UInt8}
    {text : String} {earlier : List Chunk} {s : Session} {c : Conversation}
    (hbefore : WholeLines before) (hline : IsLine line after)
    (htext : String.fromUTF8? line.toByteArray = some text) (hrejected : Rejected text)
    (hread : (start o).readThrough n (inputLines before) = some (earlier, s))
    (hends : (start o).converse n (inputLines (before ++ (line ++ after))) = some c) :
    ∃ later c', (start o).converse n (inputLines (before ++ after)) = some c' ∧
      c.chunks = earlier ++ (trace text ++ later) ∧ c'.chunks = earlier ++ later ∧
      (∃ front back, c.all = front ++ (prompt ++ answer text) ++ back ∧ c'.all = front ++ back) ∧
      c'.printed = c.printed ∧ c'.closing = c.closing ∧
      (Numbered.Session.start o).converse n (inputLines (before ++ (line ++ after))) = some c ∧
      (Numbered.Session.start o).converse n (inputLines (before ++ after)) = some c' := by
  rw [Session.converse_start_numbered, Session.converse_start_numbered]
  have hwith := hends
  rw [inputLines_append hbefore, hline.inputLines, htext, converse_append hread,
    converse_rejected hrejected, Option.map_map] at hwith
  obtain ⟨⟨later, closing⟩, hlater, hc⟩ := Option.map_eq_some_iff.1 hwith
  obtain rfl : ⟨earlier ++ (trace text ++ later), closing⟩ = c := hc
  have hwithout : (start o).converse n (inputLines (before ++ after)) =
      some ⟨earlier ++ later, closing⟩ := by
    rw [inputLines_append hbefore, converse_append hread, hlater]
    rfl
  refine ⟨later, _, hwithout, rfl, rfl, ⟨_, _, ?_, Conversation.all_append ..⟩, ?_, rfl, hends,
    hwithout⟩
  · rw [Conversation.all_append, Conversation.all_append, all_trace, ← String.append_assoc]
  · rw [Conversation.printed_append, Conversation.printed_append, Conversation.printed_append,
      printed_trace, String.empty_append]

/-- Lines that bind names. -/
def binding : String := "let n = 40;\nlet add = fn(x) \x7b print(\"n\", x); x + n \x7d;\n"

/-- A line with an error, behind a string literal that is a name later. -/
def broken : String := "let zeta = \"omega\" 1 +;\n"

/-- Lines that use names. -/
def calling : String := "add(2)\nomega\n"

/-- The line with the error changes the number of a name behind it, and nothing else but what is its
own in the session. -/
theorem converse_without_broken_line :
    (∃ t, t = NameTable.initial.internAll (lex binding).names ∧ t.number "omega" = 8 ∧
      (t.internAll (lex broken).names).number "omega" = 9) ∧
    ∃ earlier s c later c', (start {}).readThrough 30 (inputLines binding.toUTF8.toList) =
        some (earlier, s) ∧
      (start {}).converse 30 (inputLines (binding.toUTF8.toList ++
        (broken.toUTF8.toList ++ calling.toUTF8.toList))) = some c ∧
      c.all = ">> >> >> parser errors:\n\t23: expected expression, found ; while parsing an " ++
        "expression\n>> n\n2\n42\n>> ERROR: identifier not found: omega\n>> \n" ∧
      (start {}).converse 30 (inputLines (binding.toUTF8.toList ++ calling.toUTF8.toList)) =
        some c' ∧
      c.chunks = earlier ++ (trace broken ++ later) ∧ c'.chunks = earlier ++ later ∧
      (∃ front back, c.all = front ++ (prompt ++ answer broken) ++ back ∧
        c'.all = front ++ back) ∧
      c'.printed = c.printed ∧ c'.closing = c.closing ∧
      (Numbered.Session.start {}).converse 30 (inputLines (binding.toUTF8.toList ++
        (broken.toUTF8.toList ++ calling.toUTF8.toList))) = some c ∧
      (Numbered.Session.start {}).converse 30 (inputLines (binding.toUTF8.toList ++
        calling.toUTF8.toList)) = some c' := by
  have hwhole : WholeLines binding.toUTF8.toList :=
    .inr ⟨binding.toUTF8.toList.dropLast, by decide +kernel⟩
  have hline : IsLine broken.toUTF8.toList calling.toUTF8.toList := by
    rw [show broken.toUTF8.toList = broken.toUTF8.toList.dropLast ++ [10] by decide +kernel]
    exact .closed (by decide +kernel)
  have hread : ((start {}).readThrough 30 (inputLines binding.toUTF8.toList)).isSome := by
    decide +kernel
  have hends : ((start {}).converse 30 (inputLines (binding.toUTF8.toList ++
      (broken.toUTF8.toList ++ calling.toUTF8.toList)))).map (·.all) =
        some (">> >> >> parser errors:\n\t23: expected expression, found ; while parsing an " ++
          "expression\n>> n\n2\n42\n>> ERROR: identifier not found: omega\n>> \n") := by
    decide +kernel
  have htext : String.fromUTF8? broken.toUTF8.toList.toByteArray = some broken := by
    decide +kernel
  obtain ⟨⟨earlier, s⟩, hread⟩ := Option.isSome_iff_exists.1 hread
  obtain ⟨c, hc, hall⟩ := Option.map_eq_some_iff.1 hends
  obtain ⟨later, c', h⟩ :=
    converse_without_line hwhole hline htext (.inr (by decide +kernel)) hread hc
  exact ⟨⟨_, rfl, by decide +kernel, by decide +kernel⟩,
    earlier, s, c, later, c', hread, hc, hall, h⟩

end MonkeyLang.Session
