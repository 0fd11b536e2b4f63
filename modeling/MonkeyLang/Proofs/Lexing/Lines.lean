import MonkeyLang.Proofs.Display.Lexes
import MonkeyLang.Proofs.Lexing.Escapes

/-!
# Texts put together from lines

A line feed ends every lexeme but a string literal that lacks its closing quote. So the tokens of two
texts with a line feed between them are the tokens of the first and then those of the second, unless
the first has an error in it. `Cuts cs ks` says what the lexer makes of the text `cs` wherever it
stands: the words `ks`, and no error.

## Main statements

* `cuts_of_lex` : where a text stands does not matter for its words.
* `cuts_joined` : the words of lines that are joined by line feeds.
-/

namespace MonkeyLang

open MonkeyLang.Lexical

/-- Wherever the text `cs` stands in a source, its words are `ks`, and there is no error in it. -/
def Cuts (cs : List Char) (ks : List TokenKind) : Prop :=
  ∀ offset, (lexFrom offset cs).errors = [] ∧
    (lexFrom offset cs).tokens.map (·.kind) = ks ++ [.eof]

/-! ### Texts that stand elsewhere -/

/-- A lexeme that is read without an error is read in the same way elsewhere. -/
theorem Lexeme.read_elsewhere {l : Lexeme} {span : Span} (h : (l.read span).2 = []) (span' : Span) :
    l.read span' = l.read span := by
  obtain ⟨shape, text, rest⟩ := l
  cases shape with
  | closedString body =>
    have herrors : invalidEscapes (span.start + 1) body = [] := h
    simp only [read, herrors, invalidEscapes_eq_nil herrors]
  | numeral =>
    simp only [read] at h ⊢
    split
    · rfl
    next hlarge => simp [hlarge] at h
  | openString | stray => simp [read] at h
  | gap | word | symbol => rfl

namespace Cuts

variable {c : Char} {cs ds : List Char} {k? : Option TokenKind} {ks ls : List TokenKind}

theorem nil : Cuts [] [] := by
  intro offset
  simp [lexFrom]

/-- A lexeme at the front that is read without an error. -/
theorem cons (h : ∀ span, (Lexeme.first c cs).read span = (k?, []))
    (hr : Cuts (Lexeme.first c cs).rest ks) : Cuts (c :: cs) (k?.toList ++ ks) := by
  intro offset
  obtain ⟨herrors, htokens⟩ := hr (offset + byteLength (Lexeme.first c cs).text)
  rw [lexFrom]
  cases k? <;> simp [h, herrors, htokens]

/-- A text has only one list of words. -/
theorem unique (h : Cuts cs ks) (h' : Cuts cs ls) : ks = ls :=
  List.append_cancel_right ((h 0).2.symm.trans (h' 0).2)

end Cuts

/-- If a text has no error in it, there is none in its first lexeme nor behind that. -/
theorem exists_read_first {c : Char} {cs : List Char} {offset : Nat}
    (h : (lexFrom offset (c :: cs)).errors = []) :
    ∃ k?, (∀ span, (Lexeme.first c cs).read span = (k?, [])) ∧
      (lexFrom (offset + byteLength (Lexeme.first c cs).text) (Lexeme.first c cs).rest).errors =
        [] := by
  generalize hspan : Span.ofRange offset (offset + byteLength (Lexeme.first c cs).text) = span
  rcases hread : (Lexeme.first c cs).read span with ⟨k?, errors⟩
  have hboth : errors = [] ∧
      (lexFrom (offset + byteLength (Lexeme.first c cs).text) (Lexeme.first c cs).rest).errors =
        [] := by
    rw [lexFrom] at h
    simp only [hspan, hread] at h
    cases k? <;> simpa using h
  obtain ⟨rfl, hrest⟩ := hboth
  refine ⟨k?, fun span' => ?_, hrest⟩
  rw [Lexeme.read_elsewhere (by rw [hread]) span', hread]

/-- A text without errors is cut into the same words wherever it stands. -/
theorem exists_cuts_of_errors_eq_nil {offset : Nat} {cs : List Char}
    (h : (lexFrom offset cs).errors = []) : ∃ ks, Cuts cs ks := by
  induction hn : cs.length using Nat.strongRecOn generalizing offset cs with
  | ind n ih =>
    cases cs with
    | nil => exact ⟨[], .nil⟩
    | cons c cs =>
      obtain ⟨k?, hread, hrest⟩ := exists_read_first h
      obtain ⟨ks, hks⟩ := ih _ (hn ▸ Lexeme.length_rest_lt c cs) hrest rfl
      exact ⟨_, .cons hread hks⟩

/-- The words of a text without errors. -/
theorem cuts_of_lex {source : String} {ks : List TokenKind} (h : (lex source).errors = [])
    (hk : (lex source).tokens.map (·.kind) = ks ++ [.eof]) : Cuts source.toList ks := by
  obtain ⟨ls, hls⟩ := exists_cuts_of_errors_eq_nil h
  obtain rfl : ls = ks := List.append_cancel_right ((hls 0).2.symm.trans hk)
  exact hls

/-! ### Line feeds -/

section Append

variable {p : Char → Bool} {c d : Char}

theorem takeWhile_append_cons (hd : p d = false) (cs ds : List Char) :
    (cs ++ d :: ds).takeWhile p = cs.takeWhile p := by
  induction cs with
  | nil => simp [hd]
  | cons c cs ih => by_cases hc : p c <;> simp [hc, ih]

theorem dropWhile_append_cons (hd : p d = false) (cs ds : List Char) :
    (cs ++ d :: ds).dropWhile p = cs.dropWhile p ++ d :: ds := by
  induction cs with
  | nil => simp [hd]
  | cons c cs ih => by_cases hc : p c <;> simp [hc, ih]

namespace Lexeme

/-- The lexeme with more text behind it. -/
def behind (l : Lexeme) (ds : List Char) : Lexeme := { l with rest := l.rest ++ ds }

theorem run_append (shape : Shape) (hd : p d = false) (c : Char) (cs ds : List Char) :
    run shape p c (cs ++ d :: ds) = (run shape p c cs).behind (d :: ds) := by
  rw [run, takeWhile_append_cons hd, dropWhile_append_cons hd]
  rfl

theorem single_append (c : Char) (cs ds : List Char) :
    single c (cs ++ ds) = (single c cs).behind ds := by
  unfold single
  split <;> rfl

/-- A string literal that is closed is not touched by what follows it. -/
theorem stringLiteral_append {cs : List Char} (h : (stringLiteral cs).shape ≠ .openString)
    (ds : List Char) : stringLiteral (cs ++ ds) = (stringLiteral cs).behind ds := by
  have hbody := body_splitBody cs
  have hwhole := splitBody_append cs
  unfold stringLiteral at h ⊢
  rcases hsplit : splitBody cs with ⟨body, rest⟩
  rw [hsplit] at hbody hwhole h
  cases rest with
  | nil => simp at h
  | cons c rest =>
    by_cases hc : c = '"'
    · subst hc
      have hcs : splitBody (cs ++ ds) = (body, '"' :: (rest ++ ds)) := by
        rw [← hwhole, List.append_assoc, hbody.splitBody_append]
        simp [splitBody]
      rw [hcs]
      rfl
    · simp [hc] at h

theorem punctuation_append (c : Char) (cs ds : List Char) :
    punctuation c (cs ++ '\n' :: ds) = (punctuation c cs).behind ('\n' :: ds) := by
  cases cs with
  | nil =>
    have hpair : symbolPair? c '\n' = none := rfl
    simp only [List.nil_append, punctuation, hpair]
    rw [if_neg (by simp)]
    exact single_append c [] _
  | cons d cs =>
    simp only [List.cons_append, punctuation]
    split
    · exact run_append .gap (by decide) c (d :: cs) ds
    · split
      · rfl
      · exact single_append c (d :: cs) _

/-- A line feed ends what is no blank and no string literal without its closing quote. -/
theorem first_append {cs : List Char} (hc : isSpace c = false)
    (h : (first c cs).shape ≠ .openString) (ds : List Char) :
    first c (cs ++ '\n' :: ds) = (first c cs).behind ('\n' :: ds) := by
  unfold first at h ⊢
  simp only [hc, Bool.false_eq_true, if_false] at h ⊢
  split
  next => exact run_append .word (by decide) c cs ds
  next hw =>
    rw [if_neg hw] at h
    split
    next => exact run_append .numeral (by decide) c cs ds
    next hd =>
      rw [if_neg hd] at h
      split
      next hq =>
        rw [if_pos hq] at h
        exact stringLiteral_append h _
      next => exact punctuation_append c cs ds

end Lexeme

end Append

namespace Cuts

variable {c : Char} {cs ds : List Char} {ks ls : List TokenKind}

theorem blank_iff (hc : isSpace c = true) : Cuts (c :: cs) ks ↔ Cuts cs ks := by
  constructor
  · intro h
    have herrors := (h 0).1
    rw [Lexes.lexFrom_blank hc] at herrors
    obtain ⟨ls, hls⟩ := exists_cuts_of_errors_eq_nil herrors
    have hk := (h 0).2
    rw [Lexes.lexFrom_blank hc, (hls _).2] at hk
    exact List.append_cancel_right hk ▸ hls
  · intro h offset
    rw [Lexes.lexFrom_blank hc]
    exact h _

/-- Two texts with a line feed between them. -/
theorem newline (h : Cuts cs ks) (h' : Cuts ds ls) : Cuts (cs ++ '\n' :: ds) (ks ++ ls) := by
  induction hn : cs.length using Nat.strongRecOn generalizing cs ks with
  | ind n ih =>
    cases cs with
    | nil =>
      obtain rfl := h.unique nil
      exact (blank_iff rfl).2 h'
    | cons c cs =>
      by_cases hc : isSpace c = true
      · exact (blank_iff hc).2 (ih _ (hn ▸ Nat.lt_succ_self _) ((blank_iff hc).1 h) rfl)
      · obtain ⟨k?, hread, hrest⟩ := exists_read_first (h 0).1
        obtain ⟨ms, hms⟩ := exists_cuts_of_errors_eq_nil hrest
        obtain rfl := h.unique (cons hread hms)
        have hopen : (Lexeme.first c cs).shape ≠ .openString := by
          intro hshape
          have := hread .nowhere
          simp [Lexeme.read, hshape] at this
        have hfirst := Lexeme.first_append (by simpa using hc) hopen ds
        rw [List.append_assoc, List.cons_append]
        refine cons (fun span => ?_) ?_
        · rw [hfirst]
          exact hread span
        · rw [hfirst]
          exact ih _ (hn ▸ Lexeme.length_rest_lt c cs) hms rfl

end Cuts

/-- The words of lines that are joined by line feeds are those of the first line, then those of the
second, and so on. -/
theorem cuts_joined {lines : List String} {words : String → List TokenKind}
    (h : ∀ line ∈ lines, Cuts line.toList (words line)) :
    Cuts (String.intercalate "\n" lines).toList (lines.flatMap words) := by
  induction lines with
  | nil => exact .nil
  | cons line lines ih =>
    obtain ⟨hline, hlines⟩ := List.forall_mem_cons.1 h
    cases lines with
    | nil => simpa using hline
    | cons next lines =>
      have := hline.newline (ih hlines)
      simpa [String.intercalate_cons_cons] using this

end MonkeyLang
