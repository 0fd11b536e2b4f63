import MonkeyLang.Proofs.Parsing.Inline

/-!
# Recovery

Where no braces and no loops are, semicolons cut a program into segments. Each segment is read as if
it stood alone, whatever is broken in it and in the others, with one exception. In an empty segment
the semicolon itself is the mistake: it is skipped, and so is everything behind it up to the next
semicolon or the next keyword that starts a statement. So of the segment behind an empty one only
the part from that keyword on is read, or nothing at all.

## Main definitions

* `Segment` : a part of a program with the semicolon behind it.
* `Segment.surviving` : the parts of the segments that are read.

## Main statements

* `Program.ofTokens_segments` : what is read of a program.
* `Program.segments_not_independent` : an empty segment can hide the one behind it.
-/

namespace MonkeyLang

/-- The keywords that start a statement. -/
def TokenKind.opensStatement : TokenKind → Bool
  | .letKw | .returnKw | .forKw => true
  | _ => false

/-- The tokens are in the order of their places, and no two of them are at the same place. -/
def Apart (tokens : List Token) : Prop :=
  tokens.Pairwise fun t u => t.span.start ≤ u.span.start ∧ t.span ≠ u.span

/-- The tokens from the first keyword on that starts a statement. -/
def fromKeyword (ts : List Token) : List Token := ts.dropWhile fun t => !t.kind.opensStatement

theorem fromKeyword_cons (t : Token) (ts : List Token) :
    fromKeyword (t :: ts) = if t.kind.opensStatement then t :: ts else fromKeyword ts := by
  cases ht : t.kind.opensStatement <;> simp [fromKeyword, ht]

theorem fromKeyword_suffix (ts : List Token) : fromKeyword ts <:+ ts := List.dropWhile_suffix _

/-- The part of a program up to a semicolon. It contains no other semicolon, no brace, no `for` and
no end of the input. -/
structure Segment where
  /-- The tokens in front of the semicolon. -/
  tokens : List Token
  /-- The semicolon. -/
  stop : Token
  quiet : ∀ t ∈ tokens, t.kind.isQuiet = true
  stops : stop.kind = .semicolon

namespace Segment

/-- The tokens with the semicolon. -/
def all (g : Segment) : List Token := g.tokens ++ [g.stop]

/-- The part of a segment from the first keyword on that starts a statement, if there is one. -/
def cut (g : Segment) : List Segment :=
  if fromKeyword g.tokens = [] then []
  else
    [{ g with
      tokens := fromKeyword g.tokens
      quiet := fun t ht => g.quiet t ((fromKeyword_suffix g.tokens).subset ht) }]

/-- What is left of the segments when the first of them is skipped, up to the keyword. -/
def skip : List Segment → List Segment
  | [] => []
  | g :: gs => g.cut ++ gs

/-- What comes next behind a segment, when `gs` stand behind it. -/
def next (g : Segment) (gs : List Segment) : List Segment := if g.tokens = [] then skip gs else gs

theorem length_cut_le (g : Segment) : g.cut.length ≤ 1 := by
  unfold cut
  split <;> simp

theorem length_skip_le (gs : List Segment) : (skip gs).length ≤ gs.length := by
  cases gs with
  | nil => exact Nat.le_refl 0
  | cons g gs =>
    have := g.length_cut_le
    simp only [skip, List.length_append, List.length_cons]
    omega

theorem length_next_le (g : Segment) (gs : List Segment) : (g.next gs).length ≤ gs.length := by
  unfold next
  split
  · exact length_skip_le gs
  · exact Nat.le_refl _

/-- The parts of the segments that are read. -/
def surviving : List Segment → List Segment
  | [] => []
  | g :: gs =>
    have := g.length_next_le gs
    g :: surviving (g.next gs)
termination_by gs => gs.length
decreasing_by simp only [List.length_cons]; omega

/-- The segment begins with a keyword that starts a statement. -/
def Opens (g : Segment) : Prop := ∃ t ts, g.tokens = t :: ts ∧ t.kind.opensStatement = true

theorem cut_eq_singleton_iff (g : Segment) : g.cut = [g] ↔ g.Opens := by
  obtain ⟨tokens, stop, quiet, stops⟩ := g
  cases tokens with
  | nil => simp [cut, Opens, fromKeyword]
  | cons t ts =>
    cases ht : t.kind.opensStatement with
    | true => simp [cut, Opens, fromKeyword_cons, ht]
    | false =>
      refine iff_of_false (fun heq => ?_) (by simp [Opens, ht])
      unfold cut at heq
      split at heq
      · cases heq
      · have htokens : fromKeyword (t :: ts) = t :: ts := congrArg tokens (List.cons.inj heq).1
        have hlen := (fromKeyword_suffix ts).length_le
        rw [fromKeyword_cons, ht, if_neg Bool.false_ne_true] at htokens
        rw [htokens, List.length_cons] at hlen
        omega

theorem length_surviving_le (gs : List Segment) : (surviving gs).length ≤ gs.length := by
  induction gs using surviving.induct with
  | case1 => simp [surviving]
  | case2 g gs _ ih =>
    rw [surviving, List.length_cons, List.length_cons]
    exact Nat.succ_le_succ (Nat.le_trans ih (g.length_next_le gs))

/-- Nothing is lost exactly when behind every empty segment comes one that begins with a keyword
that starts a statement, or none. -/
theorem surviving_eq_self_iff (gs : List Segment) :
    surviving gs = gs ↔ gs.IsChain fun g g' => g.tokens = [] → g'.Opens := by
  induction gs with
  | nil => simp [surviving]
  | cons g gs ih =>
    rw [surviving, List.cons.injEq, and_iff_right rfl]
    cases gs with
    | nil =>
      have hnext : g.next [] = [] := List.eq_nil_of_length_eq_zero (by
        simpa using g.length_next_le [])
      simp [hnext, surviving]
    | cons h gs =>
      rw [List.isChain_cons_cons, ← ih]
      by_cases hg : g.tokens = []
      · rw [next, if_pos hg, skip]
        by_cases hh : h.Opens
        · rw [h.cut_eq_singleton_iff.2 hh]
          simp [hh]
        · -- The segment `h` is not read, or not all of it.
          refine iff_of_false (fun heq => ?_) fun hboth => hh (hboth.1 hg)
          rcases hc : h.cut with _ | ⟨h', _ | _⟩
          · have := length_surviving_le gs
            rw [hc, List.nil_append] at heq
            rw [heq, List.length_cons] at this
            omega
          · rw [hc, List.singleton_append, surviving] at heq
            rw [(List.cons.inj heq).1] at hc
            exact hh (h.cut_eq_singleton_iff.1 hc)
          · have := h.length_cut_le
            simp [hc] at this
      · rw [next, if_neg hg]
        simp [hg]

end Segment

namespace Parser

/-! ### Reports -/

/-- The errors after the error `e` has been reported. -/
def reported (es : List ParseError) (e : ParseError) : List ParseError :=
  if es.any (·.span == e.span) then es else es ++ [e]

theorem State.errors_report (s : State) (e : ParseError) :
    (s.report e).errors = reported s.errors e := by
  unfold State.report reported
  split <;> rfl

/-- Errors at other places do not keep an error from being reported. -/
theorem foldl_reported_append {es : List ParseError} {fs : List ParseError} (ds : List ParseError)
    (h : ∀ e ∈ es, ∀ f ∈ fs, e.span ≠ f.span) :
    fs.foldl reported (es ++ ds) = es ++ fs.foldl reported ds := by
  induction fs generalizing ds with
  | nil => rfl
  | cons f fs ih =>
    have hf : reported (es ++ ds) f = es ++ reported ds f := by
      have hes : (es.any (·.span == f.span)) = false := by
        simpa using fun e he => h e he f (by simp)
      unfold reported
      rw [List.any_append, hes, Bool.false_or]
      split <;> simp
    rw [List.foldl_cons, List.foldl_cons, hf]
    exact ih _ fun e he f hf => h e he f (List.mem_cons_of_mem _ hf)

theorem mem_of_mem_foldl_reported {e : ParseError} {es fs : List ParseError}
    (h : e ∈ fs.foldl reported es) : e ∈ es ∨ e ∈ fs := by
  induction fs generalizing es with
  | nil => exact .inl h
  | cons f fs ih =>
    rcases ih h with he | he
    · unfold reported at he
      split at he
      · exact .inl he
      · exact (List.mem_append.1 he).imp_right fun he => by simp_all
    · exact .inr (List.mem_cons_of_mem f he)

/-! ### Whole programs -/

/-- From the state `s` on the statements `ss` are read, up to the end in the state `t`. -/
def Yields (s : State) (ss : List Stmt) (t : State) : Prop :=
  ∃ n, statements n .program s = .done ss t

namespace Yields

variable {s s' t t' : State} {ss ss' : List Stmt} {st : Stmt} {e : ParseError} {n : Nat}

theorem more_steps {k : Nat} (hnk : n ≤ k) (h : statements n .program s = .done ss t) :
    statements k .program s = .done ss t :=
  (Production.read_mono (p := .statements .program) hnk (h.trans_ne (by simp))).trans h

theorem unique (h : Yields s ss t) (h' : Yields s ss' t') : ss = ss' ∧ t = t' := by
  obtain ⟨n, h⟩ := h
  obtain ⟨k, h'⟩ := h'
  have hn := more_steps (Nat.le_max_left n k) h
  rw [more_steps (Nat.le_max_right n k) h'] at hn
  cases hn
  exact ⟨rfl, rfl⟩

theorem stop (h : s.kind = .eof) : Yields s [] s :=
  ⟨1, by simp [statements, State.stops, h]⟩

/-- A statement that is read is the first one. -/
theorem cons (hs : s.kind ≠ .eof) (hst : statement n s = .done st s') (h : Yields s' ss t) :
    Yields s (st :: ss) t := by
  obtain ⟨k, h⟩ := h
  refine ⟨max n k + 1, ?_⟩
  have hstops : s.stops .program = false := by simp [State.stops, hs]
  have hst' : statement (max n k) s = .done st s' :=
    (Production.read_mono (p := .statement) (Nat.le_max_left n k)
      (hst.trans_ne (by simp))).trans hst
  rw [statements, hstops, hst', if_neg Bool.false_ne_true]
  dsimp only
  rw [more_steps (Nat.le_max_right n k) h]
  rfl

/-- A statement that cannot be read is skipped. -/
theorem skip (hs : s.kind ≠ .eof) (hst : statement n s = .failed e s')
    (h : Yields ((s'.report e).recover .program s.cursor.position) ss t) : Yields s ss t := by
  obtain ⟨k, h⟩ := h
  refine ⟨max n k + 1, ?_⟩
  have hstops : s.stops .program = false := by simp [State.stops, hs]
  have hst' : statement (max n k) s = .failed e s' :=
    (Production.read_mono (p := .statement) (Nat.le_max_left n k)
      (hst.trans_ne (by simp))).trans hst
  rw [statements, hstops, hst', if_neg Bool.false_ne_true]
  exact more_steps (Nat.le_max_right n k) h

end Yields

/-! ### Skipping in front of a semicolon -/

variable {x : Token} {as ts us : List Token}

/-- Skipping goes to the next keyword that starts a statement, or behind the semicolon. -/
theorem resume_quiet (hx : x.kind = .semicolon) (hus : ∀ t ∈ us, t.kind.isQuiet = true)
    (position : Nat) (previous : Span) :
    (resume .program 0 position previous (us ++ x :: as)).rest =
      beyond x as (fromKeyword us) := by
  induction us generalizing position previous with
  | nil => simp [resume, hx, fromKeyword, beyond]
  | cons u us ih =>
    have hu := hus u (by simp)
    have ih := ih fun t ht => hus t (List.mem_cons_of_mem u ht)
    rw [List.cons_append]
    unfold resume
    cases hk : u.kind <;>
      simp_all [TokenKind.isQuiet, fromKeyword, TokenKind.opensStatement, beyond]

/-- Skipping from where the tokens `us` are left of the statement `ts`. If none of them has been
consumed, the first one is skipped in any case. -/
theorem State.rest_recover {s s' : State} {e : ParseError} (hx : x.kind = .semicolon)
    (hts : ∀ t ∈ ts, t.kind.isQuiet = true) (hne : ts ≠ []) (h : s.After s')
    (hs : s.cursor.rest = ts ++ x :: as) (hs' : s'.cursor.rest = us ++ x :: as) :
    ((s'.report e).recover .program s.cursor.position).cursor.rest =
      beyond x as (fromKeyword (if us = ts then ts.tail else us)) := by
  obtain ⟨ds, hr, hp, -⟩ := h.past
  obtain rfl : ts = ds ++ us := by
    rw [hs, hs', ← List.append_assoc] at hr
    exact List.append_cancel_right hr
  unfold State.recover
  rw [State.cursor_report]
  cases ds with
  | nil =>
    obtain ⟨u, us, rfl⟩ := List.exists_cons_of_ne_nil hne
    have hu : (u.kind == .eof) = false := by
      have := hts u (by simp)
      cases hk : u.kind <;> simp_all [TokenKind.isQuiet]
    have hadvance : s'.cursor.advance.rest = us ++ x :: as := by
      simp [Cursor.advance, hs', hu]
    rw [if_pos (by simpa using hp), List.nil_append, if_pos rfl]
    dsimp only
    rw [hadvance]
    exact resume_quiet hx (fun t ht => hts t (List.mem_cons_of_mem u ht)) _ _
  | cons d ds =>
    have hlen : us ≠ d :: ds ++ us := by
      intro heq
      have := congrArg List.length heq
      simp only [List.length_append, List.length_cons] at this
      omega
    rw [if_neg (by simp only [List.length_cons] at hp; omega), if_neg hlen]
    dsimp only
    rw [hs']
    exact resume_quiet hx (fun t ht => hts t (by simp [ht])) _ _

/-! ### Segments -/

/-- From every state at which the tokens `ts` and the semicolon `x` come next, the statements `ss`
are read, and then `us` and `x` are left, or nothing of them; the errors `es` are reported on the
way. -/
structure Leads (x : Token) (ts us : List Token) (ss : List Stmt) (es : List ParseError) :
    Prop where
  spans : ∀ e ∈ es, e.span ∈ (ts ++ [x]).map (·.span)
  run : ∀ as (s : State), s.cursor.rest = ts ++ x :: as → ∃ s', s'.cursor.rest = beyond x as us ∧
    s'.errors = es.foldl reported s.errors ∧ ∀ ss' t, Yields s' ss' t → Yields s (ss ++ ss') t

namespace Leads

variable {vs : List Token} {ss ss' : List Stmt} {es es' : List ParseError}

theorem trans (h : Leads x ts us ss es) (hus : us <:+ ts) (hne : us ≠ [])
    (h' : Leads x us vs ss' es') : Leads x ts vs (ss ++ ss') (es ++ es') := by
  refine ⟨fun e he => ?_, fun as s hs => ?_⟩
  · rcases List.mem_append.1 he with he | he
    · exact h.spans e he
    · have := h'.spans e he
      rw [List.map_append, List.mem_append] at this ⊢
      exact this.imp_left fun hmem => (hus.map _).subset hmem
  · obtain ⟨s', hrest, herr, hyields⟩ := h.run as s hs
    obtain ⟨u, us, rfl⟩ := List.exists_cons_of_ne_nil hne
    obtain ⟨s'', hrest', herr', hyields'⟩ := h'.run as s' hrest
    refine ⟨s'', hrest', by rw [List.foldl_append, ← herr, herr'], fun rs t ht => ?_⟩
    rw [List.append_assoc]
    exact hyields _ t (hyields' rs t ht)

end Leads

/-- The first statement in front of a semicolon is read or skipped. -/
theorem exists_leads_shorter (hx : x.kind = .semicolon) (hts : ∀ t ∈ ts, t.kind.isQuiet = true)
    (hne : ts ≠ []) :
    ∃ us ss es, us <:+ ts ∧ us.length < ts.length ∧ Leads x ts us ss es := by
  have going {as : List Token} {s : State} (hs : s.cursor.rest = ts ++ x :: as) : s.kind ≠ .eof :=
    State.Before.ne_eof ⟨ts, hts, hs⟩ hx
  obtain ⟨n, ⟨st, us, hus, hlt, hdone⟩ | ⟨e, us, hus, hfails⟩⟩ := settled hx hts
  · refine ⟨us, [st], [], hus, hlt, List.forall_mem_nil _, fun as s hs => ?_⟩
    obtain ⟨s', hs', hrest, herr⟩ := hdone as s hs
    exact ⟨s', hrest, herr, fun ss t => .cons (going hs) hs'⟩
  · have hspan : e.span ∈ (ts ++ [x]).map (·.span) := by
      obtain ⟨s', -, hrest, -, hspan⟩ := hfails [] ⟨.ofTokens (ts ++ [x]), []⟩ rfl
      have hmem : s'.cursor.current ∈ us ++ [x] := by
        rw [Cursor.current, hrest]
        cases us <;> simp
      rw [hspan]
      refine List.mem_map.2 ⟨s'.cursor.current, ?_, rfl⟩
      rw [List.mem_append] at hmem ⊢
      exact hmem.imp_left fun h => hus.subset h
    have hleft : (if us = ts then ts.tail else us) <:+ ts ∧
        (if us = ts then ts.tail else us).length < ts.length := by
      split
      next => exact ⟨List.tail_suffix ts, by
        have := List.length_pos_of_ne_nil hne
        rw [List.length_tail]
        omega⟩
      next h => exact ⟨hus, Nat.lt_of_le_of_ne hus.length_le fun hl => h (hus.eq_of_length hl)⟩
    have hcut := fromKeyword_suffix (if us = ts then ts.tail else us)
    refine ⟨_, [], [e], hcut.trans hleft.1, Nat.lt_of_le_of_lt hcut.length_le hleft.2,
      by simpa using hspan, fun as s hs => ?_⟩
    obtain ⟨s', hs', hrest, herr, -⟩ := hfails as s hs
    have hafter := Production.statement.keeps_after n s
    rw [hs'] at hafter
    refine ⟨_, State.rest_recover hx hts hne hafter.1 hs hrest, ?_,
      fun ss t => .skip (going hs) hs'⟩
    rw [List.foldl_cons, List.foldl_nil, ← herr]
    exact State.errors_report s' e

/-- Everything in front of a semicolon is read, or skipped, with the semicolon. -/
theorem exists_leads (hx : x.kind = .semicolon) (hts : ∀ t ∈ ts, t.kind.isQuiet = true)
    (hne : ts ≠ []) : ∃ ss es, Leads x ts [] ss es := by
  induction hl : ts.length using Nat.strongRecOn generalizing ts with
  | ind l ih =>
    obtain ⟨us, ss, es, hus, hlt, h⟩ := exists_leads_shorter hx hts hne
    by_cases hnil : us = []
    · exact ⟨ss, es, hnil ▸ h⟩
    · obtain ⟨ss', es', h'⟩ := ih us.length (hl ▸ hlt) (fun t ht => hts t (hus.subset ht)) hnil rfl
      exact ⟨ss ++ ss', es ++ es', h.trans hus hnil h'⟩

end Parser

namespace Segment

open MonkeyLang.Parser

variable {g : Segment} {gs : List Segment} {last : Token} {ss : List Stmt} {es : List ParseError}

theorem flatMap_cut (g : Segment) (as : List Token) :
    g.cut.flatMap all ++ as = beyond g.stop as (fromKeyword g.tokens) := by
  unfold cut
  split
  next h =>
    rw [h]
    rfl
  next h =>
    obtain ⟨t, ts, ht⟩ := List.exists_cons_of_ne_nil h
    simp only [List.flatMap_singleton, all, List.append_assoc, List.singleton_append]
    rw [ht]
    rfl

/-- Skipping goes to the next keyword in the first segment, or behind it. -/
theorem resume_segments (hlast : last.kind = .eof) (gs : List Segment) (position : Nat)
    (previous : Span) :
    (resume .program 0 position previous (gs.flatMap all ++ [last])).rest =
      (skip gs).flatMap all ++ [last] := by
  cases gs with
  | nil => simp [resume, hlast, skip]
  | cons g gs =>
    have hall : (g :: gs).flatMap all ++ [last] =
        g.tokens ++ g.stop :: (gs.flatMap all ++ [last]) := by
      simp [all]
    rw [hall, resume_quiet g.stops g.quiet, skip, List.flatMap_append, List.append_assoc,
      flatMap_cut]

/-- From every state at which the segment comes next, whatever segments and whatever end come behind
it, the statements `ss` are read and the errors `es` are reported. -/
structure Reads (g : Segment) (ss : List Stmt) (es : List ParseError) : Prop where
  spans : ∀ e ∈ es, e.span ∈ g.all.map (·.span)
  run : ∀ gs (last : Token) (s : State), last.kind = .eof →
    s.cursor.rest = (g :: gs).flatMap all ++ [last] →
    ∃ s', s'.cursor.rest = (g.next gs).flatMap all ++ [last] ∧
      s'.errors = es.foldl reported s.errors ∧ ∀ ss' t, Yields s' ss' t → Yields s (ss ++ ss') t

/-- An empty segment is an error at its semicolon, and skipping goes on behind it. -/
theorem exists_reads_of_nil (hnil : g.tokens = []) : ∃ e, g.Reads [] [e] := by
  obtain ⟨n, ⟨st, us, -, hlt, -⟩ | ⟨e, us, hus, hfails⟩⟩ :=
    settled g.stops (List.forall_mem_nil _)
  · exact absurd hlt (Nat.not_lt_zero _)
  obtain rfl : us = [] := List.suffix_nil.1 hus
  refine ⟨e, ?_, fun gs last s hlast hs => ?_⟩
  · obtain ⟨s', -, hrest, -, hspan⟩ := hfails [] ⟨.ofTokens [g.stop], []⟩ rfl
    have : e.span = g.stop.span := by
      rw [hspan, State.span, Cursor.span, Cursor.current, hrest]
      rfl
    simp [all, this]
  have hs : s.cursor.rest = g.stop :: (gs.flatMap all ++ [last]) := by simpa [all, hnil] using hs
  have going : s.kind ≠ .eof := State.Before.ne_eof ⟨[], List.forall_mem_nil _, hs⟩ g.stops
  obtain ⟨s', hs', hrest, herr, -⟩ := hfails _ s hs
  refine ⟨(s'.report e).recover .program s.cursor.position, ?_, ?_, fun ss t => .skip going hs'⟩
  · -- The semicolon has not been consumed, so it is the token that is skipped in any case.
    have hafter := Production.statement.keeps_after n s
    rw [hs'] at hafter
    obtain ⟨ds, hr, hp, -⟩ := hafter.1.past
    obtain rfl : ds = [] := by simpa [hs, hrest] using hr
    have hadvance : s'.cursor.advance.rest = gs.flatMap all ++ [last] := by
      simp [Cursor.advance, hrest, g.stops]
    unfold State.recover
    rw [State.cursor_report, if_pos (by simpa using hp)]
    dsimp only
    rw [hadvance, resume_segments hlast, next, if_pos hnil]
  · rw [List.foldl_cons, List.foldl_nil, ← herr]
    exact State.errors_report s' e

/-- There is one way in which a segment is read. -/
theorem exists_reads (g : Segment) : ∃ ss es, g.Reads ss es := by
  by_cases hnil : g.tokens = []
  · obtain ⟨e, h⟩ := exists_reads_of_nil hnil
    exact ⟨[], [e], h⟩
  · obtain ⟨ss, es, h⟩ := exists_leads g.stops g.quiet hnil
    refine ⟨ss, es, h.spans, fun gs last s hlast hs => ?_⟩
    rw [next, if_neg hnil]
    exact h.run _ s (by simpa [all] using hs)

theorem flatMap_next_sublist (g : Segment) (gs : List Segment) :
    ((g.next gs).flatMap all).Sublist (gs.flatMap all) := by
  unfold next
  split
  · cases gs with
    | nil => exact .refl _
    | cons g gs =>
      rw [skip, List.flatMap_append, List.flatMap_cons]
      refine .append ?_ (.refl _)
      unfold cut
      split
      · exact List.nil_sublist _
      · rw [List.flatMap_singleton]
        exact .append (fromKeyword_suffix g.tokens).sublist (.refl _)
  · exact .refl _

/-- What is read of a segment when it stands alone. -/
def alone (last : Token) (g : Segment) : Parsed := Program.ofTokens (g.all ++ [last])

end Segment

namespace Program

open MonkeyLang.Parser

/-- What tokens that are in order are read as. -/
theorem ofTokens_of_yields {tokens : List Token} {ss : List Stmt} {s : State}
    (horder : InOrder tokens) (heof : .eof ∈ tokens.map (·.kind))
    (h : Yields ⟨.ofTokens tokens, []⟩ ss s) : ofTokens tokens = ⟨ss, s.errors⟩ := by
  obtain ⟨ss', s', hrun, hparse⟩ := exists_parse_inOrder horder heof
  obtain ⟨rfl, rfl⟩ := h.unique ⟨_, hrun⟩
  exact hparse

end Program

namespace Segment

open MonkeyLang.Parser

variable {g : Segment} {last : Token} {ss : List Stmt} {es : List ParseError}

theorem Reads.alone_eq (h : g.Reads ss es) (hlast : last.kind = .eof)
    (horder : InOrder (g.all ++ [last])) : g.alone last = ⟨ss, es.foldl reported []⟩ := by
  obtain ⟨s', hrest, herr, hyields⟩ :=
    h.run [] last ⟨.ofTokens (g.all ++ [last]), []⟩ hlast (by simp [Cursor.ofTokens])
  have hnext : g.next [] = [] := by
    unfold next
    split <;> rfl
  have hs' : s'.kind = .eof := by
    simp [State.kind, Cursor.kind, Cursor.current, hrest, hnext, hlast]
  have hend := hyields [] s' (.stop hs')
  rw [alone, Program.ofTokens_of_yields horder (by simp [hlast]) hend, List.append_nil, herr]

/-- From a state at which the segments `gs` and the end come next, those that survive are read as if
they stood alone. -/
theorem exists_yields (hlast : last.kind = .eof) (gs : List Segment) {s : State}
    (hs : s.cursor.rest = gs.flatMap all ++ [last]) (hapart : Apart s.cursor.rest)
    (hclear : ∀ e ∈ s.errors, ∀ t ∈ s.cursor.rest, e.span ≠ t.span) :
    ∃ t, Yields s ((surviving gs).flatMap fun g => (g.alone last).program) t ∧
      t.errors = s.errors ++ (surviving gs).flatMap fun g => (g.alone last).errors := by
  induction gs using surviving.induct generalizing s with
  | case1 =>
    refine ⟨s, ?_, by simp [surviving]⟩
    simpa [surviving] using Yields.stop (s := s) (by
      simp [State.kind, Cursor.kind, Cursor.current, hs, hlast])
  | case2 g gs _ ih =>
    obtain ⟨ss, es, h⟩ := g.exists_reads
    obtain ⟨s', hrest, herr, hyields⟩ := h.run gs last s hlast hs
    have hrest₀ : s.cursor.rest = g.all ++ (gs.flatMap all ++ [last]) := by simp [hs]
    have hlater : s'.cursor.rest.Sublist (gs.flatMap all ++ [last]) :=
      hrest ▸ (g.flatMap_next_sublist gs).append (.refl _)
    rw [hrest₀, Apart, List.pairwise_append] at hapart
    obtain ⟨hfirst, hrestApart, hcross⟩ := hapart
    have halone : g.alone last = ⟨ss, es.foldl reported []⟩ := by
      refine h.alone_eq hlast (List.pairwise_append.2 ⟨hfirst.imp fun h => h.1, by simp, ?_⟩)
      exact fun t ht u hu => (hcross t ht u (by simp_all)).1
    -- The errors so far are in front of the segment, and those of the segment are in it.
    have herr' : s'.errors = s.errors ++ es.foldl reported [] := by
      rw [herr, ← foldl_reported_append [], List.append_nil]
      intro e he f hf hspan
      obtain ⟨t, ht, hft⟩ := List.mem_map.1 (h.spans f hf)
      exact hclear e he t (by simp [hrest₀, ht]) (hspan.trans hft.symm)
    obtain ⟨t, ht, hterr⟩ := ih hrest (hrestApart.sublist hlater) (by
      intro e he u hu
      have hu := hlater.subset hu
      rw [herr'] at he
      rcases List.mem_append.1 he with he | he
      · exact hclear e he u (by rw [hrest₀]; exact List.mem_append_right _ hu)
      · obtain ⟨t, ht, het⟩ := List.mem_map.1 (h.spans e
          ((mem_of_mem_foldl_reported he).resolve_left List.not_mem_nil))
        exact het ▸ (hcross t ht u hu).2)
    refine ⟨t, ?_, ?_⟩
    · rw [surviving, List.flatMap_cons, halone]
      exact hyields _ t ht
    · rw [hterr, herr', surviving, List.flatMap_cons, halone, List.append_assoc]

end Segment

namespace Program

open MonkeyLang.Parser

/-- Segments that stand at different places, one after the other, and an end are read as those of
them that survive, each of them alone: the statements and the errors of one come after those of the
other. If behind every empty segment comes one that begins with a keyword, all of them survive. -/
theorem ofTokens_segments (gs : List Segment) {last : Token} (hlast : last.kind = .eof)
    (hapart : Apart (gs.flatMap Segment.all ++ [last])) :
    ofTokens (gs.flatMap Segment.all ++ [last]) =
        ⟨(Segment.surviving gs).flatMap fun g => (g.alone last).program,
          (Segment.surviving gs).flatMap fun g => (g.alone last).errors⟩ ∧
      (gs.IsChain (fun g g' => g.tokens = [] → g'.Opens) →
        ofTokens (gs.flatMap Segment.all ++ [last]) =
          ⟨gs.flatMap fun g => (g.alone last).program,
            gs.flatMap fun g => (g.alone last).errors⟩) := by
  have hall : ofTokens (gs.flatMap Segment.all ++ [last]) =
      ⟨(Segment.surviving gs).flatMap fun g => (g.alone last).program,
        (Segment.surviving gs).flatMap fun g => (g.alone last).errors⟩ := by
    obtain ⟨t, ht, herr⟩ := Segment.exists_yields hlast gs
      (s := ⟨.ofTokens (gs.flatMap Segment.all ++ [last]), []⟩) rfl hapart (List.forall_mem_nil _)
    rw [ofTokens_of_yields (hapart.imp fun h => h.1) (by simp [hlast]) ht, herr]
    rfl
  refine ⟨hall, fun hchain => ?_⟩
  rwa [(Segment.surviving_eq_self_iff gs).2 hchain] at hall

/-- The segments of `let x 2;; let y = x; y;`. The first one is broken and the second one is
empty. -/
def litter : List Segment :=
  [⟨[⟨.letKw, ⟨0, 3⟩⟩, ⟨.ident "x", ⟨4, 5⟩⟩, ⟨.int 2, ⟨6, 7⟩⟩], ⟨.semicolon, ⟨7, 8⟩⟩,
      by decide, rfl⟩,
    ⟨[], ⟨.semicolon, ⟨8, 9⟩⟩, nofun, rfl⟩,
    ⟨[⟨.letKw, ⟨10, 13⟩⟩, ⟨.ident "y", ⟨14, 15⟩⟩, ⟨.assign, ⟨16, 17⟩⟩, ⟨.ident "x", ⟨18, 19⟩⟩],
      ⟨.semicolon, ⟨19, 20⟩⟩, by decide, rfl⟩,
    ⟨[⟨.ident "y", ⟨21, 22⟩⟩], ⟨.semicolon, ⟨22, 23⟩⟩, by decide, rfl⟩]

/-- A keyword comes behind the empty segment, so all of them survive. -/
theorem ofTokens_segments_of_litter :
    Apart (litter.flatMap Segment.all ++ [⟨.eof, ⟨23, 23⟩⟩]) ∧
    ofTokens (litter.flatMap Segment.all ++ [⟨.eof, ⟨23, 23⟩⟩]) =
      ⟨litter.flatMap fun g => (g.alone ⟨.eof, ⟨23, 23⟩⟩).program,
        litter.flatMap fun g => (g.alone ⟨.eof, ⟨23, 23⟩⟩).errors⟩ := by
  have happart : Apart (litter.flatMap Segment.all ++ [⟨.eof, ⟨23, 23⟩⟩]) := by
    unfold Apart
    decide
  refine ⟨happart, (ofTokens_segments litter rfl happart).2 ?_⟩
  simp [litter, Segment.Opens, TokenKind.opensStatement]

/-- The segments of `;1;`. -/
def swallowed : List Segment :=
  [⟨[], ⟨.semicolon, ⟨0, 1⟩⟩, nofun, rfl⟩,
    ⟨[⟨.int 1, ⟨1, 2⟩⟩], ⟨.semicolon, ⟨2, 3⟩⟩, by decide, rfl⟩]

/-- Segments are not always read as if each of them stood alone: the empty one takes with it the
statement behind it. -/
theorem segments_not_independent :
    ¬ ∀ (gs : List Segment) (last : Token), last.kind = .eof →
      Apart (gs.flatMap Segment.all ++ [last]) →
      ofTokens (gs.flatMap Segment.all ++ [last]) =
        ⟨gs.flatMap fun g => (g.alone last).program,
          gs.flatMap fun g => (g.alone last).errors⟩ := by
  intro h
  have happart : Apart (swallowed.flatMap Segment.all ++ [⟨.eof, ⟨3, 3⟩⟩]) := by
    unfold Apart
    decide
  have hlength := congrArg (fun p => p.program.length) (h swallowed ⟨.eof, ⟨3, 3⟩⟩ rfl happart)
  revert hlength
  decide +kernel

end Program

end MonkeyLang
