import Mathlib.Data.List.Basic
import MonkeyLang.Proofs.Parsing.Completeness
import MonkeyLang.Proofs.Parsing.Progress
import MonkeyLang.Proofs.Parsing.Soundness

/-!
# The parser accepts the grammar

The parser reports no error for exactly the token lists that derive a program in the grammar, and
then it answers with the tree of the derivation. Since it answers with one program, no token list
has two trees.

The number of steps is put in here: it is enough for every list of tokens, so the statements about
runs with enough steps are about every list.

## Main statements

* `ofTokens_accepts_grammar` : acceptance, the tree, and that there is only one.
-/

namespace MonkeyLang.Program

open MonkeyLang.Grammar MonkeyLang.Parser

variable {tokens : List Token} {ks : List TokenKind} {p : Program}

/-- A list of tokens that derives a program is read as that program. -/
theorem ofTokens_of_statements (hk : tokens.map (·.kind) = ks ++ [.eof]) (h : Statements ks p) :
    (ofTokens tokens).errors = [] ∧ (ofTokens tokens).program.strip = p := by
  obtain ⟨ss, s', hrun, hparse⟩ := exists_parse_eq tokens []
  obtain ⟨ss₀, s₀, hread, hss, -, he⟩ :=
    h.reads (enough tokens) .program ⟨.ofTokens tokens, []⟩ [.eof] hk (.inl rfl) (by simp [hrun])
  obtain ⟨rfl, rfl⟩ : ss = ss₀ ∧ s' = s₀ := by simpa [hrun] using hread
  rw [ofTokens, hparse, he]
  exact ⟨List.mergeSort_nil, hss⟩

/-- If there are no errors in the end, none were reported before and none were found. -/
theorem exists_done_of_errors_eq_nil {reported : List ParseError}
    (h : (parse tokens reported).errors = []) :
    ∃ s, statements (enough tokens) .program ⟨.ofTokens tokens, reported⟩ =
      .done (parse tokens reported).program s ∧ s.errors = [] ∧ reported = [] := by
  obtain ⟨ss, s, hrun, hparse⟩ := exists_parse_eq tokens reported
  rw [hparse] at h ⊢
  have he : s.errors = [] := by
    have hperm := List.mergeSort_perm s.errors fun d e => decide (d.span.start ≤ e.span.start)
    rw [show List.mergeSort s.errors _ = [] from h] at hperm
    exact hperm.nil_eq.symm
  obtain ⟨hreported, -⟩ := (sound (enough tokens)).statements .program _ ss s hrun he
  exact ⟨s, hrun, he, hreported⟩

/-- A list of tokens that is read without any error derives what it has been read as. -/
theorem statements_of_errors_eq_nil (hk : tokens.map (·.kind) = ks ++ [.eof]) (hks : .eof ∉ ks)
    (h : (ofTokens tokens).errors = []) : Statements ks (ofTokens tokens).program.strip := by
  obtain ⟨s, hrun, he, -⟩ := exists_done_of_errors_eq_nil h
  obtain ⟨-, js, hjs, hend, hss, hstop⟩ :=
    (sound (enough tokens)).statements .program ⟨.ofTokens tokens, []⟩ _ s hrun he
  -- Reading has stopped at an end marker, and the first one is the last token.
  have hkind : s.kind = .eof := by simpa [State.stops] using hstop
  have hall : ks ++ [.eof] = js ++ s.kinds := hk.symm.trans hjs
  cases hs : s.kinds with
  | nil =>
    rw [hs, List.append_nil] at hall
    exact absurd (hall ▸ List.mem_append_right ks (List.mem_singleton_self _)) hend
  | cons k ls =>
    obtain rfl : k = .eof := by rw [← hkind, State.kind_eq_of_kinds hs]
    rw [hs] at hall
    obtain ⟨rfl, -, -⟩ := (List.append_cons_inj_of_notMem hks List.not_mem_nil).1 hall
    exact hss

/-- For every list of tokens whose only end marker is its last token, the parser reports no error if
and only if the tokens before the marker derive a program. What it answers with is then the tree of
the derivation, and there is only one such tree. -/
theorem ofTokens_accepts_grammar {ts : List Token} {last : Token} (hlast : last.kind = .eof)
    (hts : ∀ t ∈ ts, t.kind ≠ .eof) :
    ((ofTokens (ts ++ [last])).errors = [] ↔ ∃ p, Statements (ts.map (·.kind)) p) ∧
    (∀ p, Statements (ts.map (·.kind)) p → (ofTokens (ts ++ [last])).program.strip = p) ∧
    (∀ p q, Statements (ts.map (·.kind)) p → Statements (ts.map (·.kind)) q → p = q) := by
  have hk : (ts ++ [last]).map (·.kind) = ts.map (·.kind) ++ [.eof] := by simp [hlast]
  have hks : .eof ∉ ts.map (·.kind) := by simpa using hts
  refine ⟨⟨fun h => ⟨_, statements_of_errors_eq_nil hk hks h⟩, ?_⟩, ?_, ?_⟩
  · rintro ⟨p, h⟩
    exact (ofTokens_of_statements hk h).1
  · intro p h
    exact (ofTokens_of_statements hk h).2
  · intro p q hp hq
    exact (ofTokens_of_statements hk hp).2.symm.trans (ofTokens_of_statements hk hq).2

/-- Tokens at no place, for the words of `let y = -x * 2  y = y + 1`. -/
def unplaced : List Token :=
  [.letKw, .ident "y", .assign, .minus, .ident "x", .star, .int 2, .ident "y", .assign, .ident "y",
    .plus, .int 1].map (⟨·, .nowhere⟩)

/-- Two statements without a semicolon between them. -/
theorem ofTokens_accepts_unplaced :
    (⟨.eof, .nowhere⟩ : Token).kind = .eof ∧ (∀ t ∈ unplaced, t.kind ≠ .eof) ∧
    ((ofTokens (unplaced ++ [⟨.eof, .nowhere⟩])).errors = [] ↔
      ∃ p, Statements (unplaced.map (·.kind)) p) ∧
    (∀ p, Statements (unplaced.map (·.kind)) p →
      (ofTokens (unplaced ++ [⟨.eof, .nowhere⟩])).program.strip = p) ∧
    (∀ p q, Statements (unplaced.map (·.kind)) p → Statements (unplaced.map (·.kind)) q → p = q) :=
  ⟨rfl, by decide, ofTokens_accepts_grammar rfl (by decide)⟩

end MonkeyLang.Program
