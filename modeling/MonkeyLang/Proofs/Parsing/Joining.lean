import MonkeyLang.Proofs.Parsing.Grammar

/-!
# Statements behind statements

A semicolon ends a statement for good: whatever stands behind it, the statement does not go on with
it. No statement ends with a semicolon of its own. So if the tokens of one program end with a
semicolon, or if there are none, the tokens of another one may follow, and the two programs are read
one after the other.

## Main statements

* `Grammar.Statements.append` : the statements of two programs, one after the other.
-/

namespace MonkeyLang.Grammar

/-- There is a last token, and it is no semicolon. -/
def Unclosed (ks : List TokenKind) : Prop := ∃ js k, ks = js ++ [k] ∧ k ≠ .semicolon

/-- The last token is a semicolon, if there is one. -/
def Closed (ks : List TokenKind) : Prop := ∀ js k, ks = js ++ [k] → k = .semicolon

namespace Unclosed

variable {ks : List TokenKind}

theorem single {k : TokenKind} (hk : k ≠ .semicolon) : Unclosed [k] := ⟨[], k, rfl, hk⟩

/-- What stands before does not matter. -/
theorem append (js : List TokenKind) (h : Unclosed ks) : Unclosed (js ++ ks) := by
  obtain ⟨ls, k, rfl, hk⟩ := h
  exact ⟨js ++ ls, k, (List.append_assoc ..).symm, hk⟩

theorem cons (k : TokenKind) (h : Unclosed ks) : Unclosed (k :: ks) := append [k] h

theorem not_closed (h : Unclosed ks) : ¬ Closed ks := by
  obtain ⟨js, k, rfl, hk⟩ := h
  exact fun hclosed => hk (hclosed js k rfl)

end Unclosed

theorem Closed.of_append {js ks : List TokenKind} (h : Closed (js ++ ks)) : Closed ks := by
  rintro ls k rfl
  exact h (js ++ ls) k (List.append_assoc ..).symm

theorem Braces.unclosed {ks : List TokenKind} {b : Block} (h : Braces ks b) : Unclosed ks := by
  obtain ⟨_⟩ := h
  exact .cons _ (.append _ (.single (by decide)))

/-- An expression ends with a token of its own, which is no semicolon. -/
theorem Expression.unclosed {l : Layer} {ks : List TokenKind} {e : Expr}
    (h : Expression l ks e) : Unclosed ks := by
  match h with
  | .tighter h => exact h.unclosed
  | .assign _ h | .binary _ _ h => exact .append _ (.cons _ h.unclosed)
  | .not h | .neg h => exact .cons _ h.unclosed
  | .call _ _ | .index _ _ => exact .append _ (.cons _ (.append _ (.single (by decide))))
  | .int | .str | .ident | .true | .false => exact .single nofun
  | .group _ | .array _ | .hash _ => exact .cons _ (.append _ (.single (by decide)))
  | .cond _ h | .function _ h => exact .cons _ (.cons _ (.append _ (.cons _ h.unclosed)))
  | .condElse _ _ h =>
    exact .cons _ (.cons _ (.append _ (.cons _ (.append _ (.cons _ h.unclosed)))))

theorem Statement.unclosed {ks : List TokenKind} {s : Stmt} (h : Statement ks s) :
    Unclosed ks := by
  cases h with
  | letBind h => exact .cons _ (.cons _ (.cons _ h.unclosed))
  | ret h => exact .cons _ h.unclosed
  | expr h => exact h.unclosed
  | forLoop _ _ _ h =>
    exact .cons _ (.cons _ (.append _ (.cons _ (.append _ (.cons _ (.append _
      (.cons _ h.unclosed)))))))

/-- The statements of two programs, one after the other. -/
theorem Statements.append {ks ls : List TokenKind} {ss ts : List Stmt} (h : Statements ks ss)
    (hks : Closed ks) (h' : Statements ls ts) : Statements (ks ++ ls) (ss ++ ts) := by
  match h with
  | .nil => exact h'
  | @Statements.closed js ms s ss hs hss =>
    have hms : Closed ms := by
      rw [List.append_cons] at hks
      exact hks.of_append
    rw [List.append_assoc, List.cons_append]
    exact .closed hs (hss.append hms h')
  | @Statements.bare js ms s ss hs hss hnext =>
    rw [List.append_assoc]
    refine .bare hs (hss.append hks.of_append h') ?_
    -- A statement without its semicolon is not the last one.
    cases ms with
    | nil =>
      rw [List.append_nil] at hks
      exact absurd hks hs.unclosed.not_closed
    | cons k ms => exact hnext

/-- The statements of many programs, one after the other. -/
theorem statements_flatMap {α : Type} {words : α → List TokenKind} {program : α → List Stmt}
    {as : List α} (h : ∀ a ∈ as, Closed (words a) ∧ Statements (words a) (program a)) :
    Statements (as.flatMap words) (as.flatMap program) := by
  induction as with
  | nil => exact .nil
  | cons a as ih =>
    obtain ⟨⟨hclosed, ha⟩, has⟩ := List.forall_mem_cons.1 h
    rw [List.flatMap_cons, List.flatMap_cons]
    exact ha.append hclosed (ih has)

end MonkeyLang.Grammar
