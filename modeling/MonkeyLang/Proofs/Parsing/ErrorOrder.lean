import MonkeyLang.Proofs.Parsing.Termination

/-!
# Errors in order

The tokens of a source stand in the order of their places, and the last of them marks the end. From
such tokens errors are found in the order of their places, too, because each of them is at the
current token. So there is nothing left to sort when they are handed on.

## Main statements

* `lex_inOrder` : the tokens of a source.
* `Program.exists_parse_inOrder` : reading tokens that are in order.
-/

namespace MonkeyLang

/-! ### Tokens -/

/-- The tokens are in the order of their places. -/
def InOrder (tokens : List Token) : Prop :=
  tokens.Pairwise fun t u => t.span.start ≤ u.span.start

theorem lexFrom_inOrder (offset : Nat) (cs : List Char) :
    InOrder (lexFrom offset cs).tokens ∧
      (∀ t ∈ (lexFrom offset cs).tokens, min offset Span.maxOffset ≤ t.span.start) ∧
      .eof ∈ (lexFrom offset cs).tokens.map (·.kind) := by
  fun_induction lexFrom offset cs with
  | case1 offset =>
    refine ⟨List.pairwise_singleton _ _, fun t ht => ?_, List.mem_cons_self⟩
    rw [List.mem_singleton.1 ht]
    exact Nat.le_refl _
  | case2 offset c cs l stop span errors later k hread ih =>
    obtain ⟨horder, hle, heof⟩ := ih
    have hfirst : span.start = min offset Span.maxOffset := rfl
    have hstop : offset ≤ stop := Nat.le_add_right _ _
    refine ⟨.cons (fun t ht => ?_) horder, fun t ht => ?_, List.mem_cons_of_mem _ heof⟩
    · have := hle t ht
      show span.start ≤ t.span.start
      omega
    · rcases List.mem_cons.1 ht with rfl | ht
      · exact Nat.le_of_eq hfirst.symm
      · have := hle t ht
        omega
  | case3 offset c cs l stop span errors later hread ih =>
    obtain ⟨horder, hle, heof⟩ := ih
    have hstop : offset ≤ stop := Nat.le_add_right _ _
    refine ⟨horder, fun t ht => ?_, heof⟩
    have := hle t ht
    omega

/-- The tokens of a source are in order, and its end is marked. -/
theorem lex_inOrder (source : String) :
    InOrder (lex source).tokens ∧ .eof ∈ (lex source).tokens.map (·.kind) :=
  ⟨(lexFrom_inOrder 0 source.toList).1, (lexFrom_inOrder 0 source.toList).2.2⟩

end MonkeyLang

namespace MonkeyLang.Parser

/-! ### The end of the input -/

section Marker

variable {x : Token} {us : List Token}

/-- An end marker is not skipped, nor is what is behind it. -/
theorem suffix_resume (hx : x.kind = .eof) (scope : Scope) (depth position : Nat) (previous : Span)
    {ts : List Token} (h : x :: us <:+ ts) :
    x :: us <:+ (resume scope depth position previous ts).rest := by
  induction ts generalizing depth position previous with
  | nil => exact h
  | cons t ts ih =>
    obtain heq | hts := List.suffix_cons_iff.1 h
    · obtain ⟨rfl, rfl⟩ := List.cons.inj heq
      unfold resume
      simp [hx]
    rcases resume_cons scope depth position previous t ts with hr | hr | ⟨depth', hr⟩
    · rw [hr]
      exact h
    · rw [hr]
      exact hts
    · rw [hr]
      exact ih _ _ _ hts

variable {s : State}

/-- Nor is it consumed. -/
theorem State.suffix_advance (hx : x.kind = .eof) (h : x :: us <:+ s.cursor.rest) :
    x :: us <:+ s.advance.cursor.rest := by
  by_cases hs : s.kind = .eof
  · rwa [advance, Cursor.advance_eq_self (by simpa [Cursor.atEnd, State.kind] using hs)]
  rw [rest_eq_cons hs] at h
  obtain heq | h := List.suffix_cons_iff.1 h
  · exact absurd ((congrArg Token.kind (List.cons.inj heq).1).symm.trans hx) hs
  · exact h

theorem State.suffix_recover (hx : x.kind = .eof) (h : x :: us <:+ s.cursor.rest) (scope : Scope)
    (start : Nat) : x :: us <:+ (s.recover scope start).cursor.rest := by
  unfold State.recover
  split
  · exact suffix_resume hx _ _ _ _ (suffix_advance hx h)
  · exact suffix_resume hx _ _ _ _ h

theorem State.eof_mem_kinds_iff :
    .eof ∈ s.kinds ↔ ∃ x us, x.kind = .eof ∧ x :: us <:+ s.cursor.rest := by
  constructor
  · intro h
    obtain ⟨x, hmem, hx⟩ := List.mem_map.1 h
    obtain ⟨ts, us, hrest⟩ := List.append_of_mem hmem
    exact ⟨x, us, hx, ts, hrest.symm⟩
  · rintro ⟨x, us, hx, hsuffix⟩
    exact List.mem_map.2 ⟨x, hsuffix.subset List.mem_cons_self, hx⟩

theorem State.eof_mem_advance (h : .eof ∈ s.kinds) : .eof ∈ s.advance.kinds := by
  obtain ⟨x, us, hx, hsuffix⟩ := eof_mem_kinds_iff.1 h
  exact eof_mem_kinds_iff.2 ⟨x, us, hx, suffix_advance hx hsuffix⟩

theorem State.eof_mem_recover (h : .eof ∈ s.kinds) (scope : Scope) (start : Nat) :
    .eof ∈ (s.recover scope start).kinds := by
  obtain ⟨x, us, hx, hsuffix⟩ := eof_mem_kinds_iff.1 h
  exact eof_mem_kinds_iff.2 ⟨x, us, hx, suffix_recover hx hsuffix scope start⟩

end Marker

/-- So a marker that is ahead is ahead at every moment. -/
theorem State.marked_closed : Closed fun s => .eof ∈ s.kinds where
  advance _ h := eof_mem_advance h
  report s e h _ := by rwa [kinds, cursor_report]
  recover _ scope start h := eof_mem_recover h scope start

/-- Before the end of the input the current token is the first one that is left. -/
theorem State.exists_current {s : State} (h : .eof ∈ s.kinds) :
    ∃ t ts, s.cursor.rest = t :: ts ∧ s.span = t.span := by
  obtain ⟨t, ts, hrest⟩ := List.exists_cons_of_ne_nil (l := s.cursor.rest) (by
    rintro hnil
    simp [kinds, hnil] at h)
  exact ⟨t, ts, hrest, by rw [span, Cursor.span, Cursor.current, hrest]; rfl⟩

/-! ### Errors -/

/-- The tokens ahead are in order and have an end, and the errors are in order and not behind any of
them. -/
structure State.InOrder (s : State) : Prop where
  ahead : MonkeyLang.InOrder s.cursor.rest
  marked : .eof ∈ s.kinds
  errors : s.errors.Pairwise fun d e => d.span.start ≤ e.span.start
  before : ∀ e ∈ s.errors, ∀ t ∈ s.cursor.rest, e.span.start ≤ t.span.start

theorem State.InOrder.past {s s' : State} (h : s.InOrder) (hp : State.Past 0 s s')
    (he : s'.errors = s.errors) (hm : .eof ∈ s'.kinds) : s'.InOrder := by
  obtain ⟨ts, hr, -, -⟩ := hp
  have hsub : s'.cursor.rest.Sublist s.cursor.rest := hr ▸ List.sublist_append_right ts _
  exact {
    ahead := h.ahead.sublist hsub
    marked := hm
    errors := he ▸ h.errors
    before := fun e hmem t ht => h.before e (he ▸ hmem) t (hsub.subset ht) }

theorem State.InOrder.report {s : State} (h : s.InOrder) {e : ParseError} (he : e.span = s.span) :
    (s.report e).InOrder := by
  unfold State.report
  split
  · exact h
  obtain ⟨t, ts, hrest, hspan⟩ := exists_current h.marked
  have ht : e.span = t.span := he.trans hspan
  have hmem : t ∈ s.cursor.rest := hrest ▸ List.mem_cons_self
  refine ⟨h.ahead, h.marked, ?_, ?_⟩
  · refine List.pairwise_append.2 ⟨h.errors, List.pairwise_singleton _ _, fun d hd e' he' => ?_⟩
    obtain rfl := List.mem_singleton.1 he'
    exact ht ▸ h.before d hd t hmem
  · intro d hd u hu
    rcases List.mem_append.1 hd with hd | hd
    · exact h.before d hd u hu
    · obtain rfl := List.mem_singleton.1 hd
      have hahead := h.ahead
      rw [MonkeyLang.InOrder, hrest, List.pairwise_cons] at hahead
      rw [ht]
      rw [hrest] at hu
      rcases List.mem_cons.1 hu with rfl | hu
      · exact Nat.le_refl _
      · exact hahead.1 u hu

theorem State.InOrder.closed : Closed State.InOrder where
  advance s h := h.past s.past_advance rfl (eof_mem_advance h.marked)
  report _ _ h he := h.report he
  recover s scope start h :=
    h.past (s.past_recover_self scope start) rfl (eof_mem_recover h.marked _ _)

end MonkeyLang.Parser

namespace MonkeyLang.Program

open MonkeyLang.Parser

/-- Errors that are found in tokens that are in order are in order, too. -/
theorem exists_parse_inOrder {tokens : List Token} (h : InOrder tokens)
    (heof : .eof ∈ tokens.map (·.kind)) :
    ∃ ss s, statements (enough tokens) .program ⟨.ofTokens tokens, []⟩ = .done ss s ∧
      ofTokens tokens = ⟨ss, s.errors⟩ := by
  obtain ⟨ss, s, hrun, hparse⟩ := exists_parse_eq tokens []
  have hs : s.InOrder := by
    have := State.InOrder.closed.ends (enough tokens) (.statements .program)
      (s := ⟨.ofTokens tokens, []⟩) ⟨h, heof, .nil, by simp⟩
    rw [Production.read, hrun] at this
    exact this
  refine ⟨ss, s, hrun, hparse.trans ?_⟩
  rw [List.mergeSort_of_pairwise (by simpa using hs.errors)]

end MonkeyLang.Program
