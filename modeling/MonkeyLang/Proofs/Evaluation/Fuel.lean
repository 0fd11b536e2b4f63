import MonkeyLang.Proofs.Evaluation.Plan

/-!
# More fuel

A bound on the number of steps that was large enough stays so if it is raised: the outcome of an
evaluation that ends does not depend on how much more fuel there would have been. So statements that
end, one after the other, end as one list of statements.

## Main statements

* `Task.eval_mono` : evaluation with more fuel.
* `Stmt.exists_evalAll_append` : the evaluation of two lists of statements, one after the other.
-/

namespace MonkeyLang

variable {α : Type}

/-- If tasks end as before, the plan does. -/
theorem Plan.run_mono {rec rec' : (t : Task) → Machine → Outcome t.Result}
    (h : ∀ t m, rec t m ≠ .outOfFuel → rec' t m = rec t m) (p : Plan α)
    (hp : p.run rec ≠ .outOfFuel) : p.run rec' = p.run rec := by
  induction p with
  | finish r => rfl
  | after t m next ih =>
    unfold run at hp ⊢
    cases ht : rec t m with
    | done a m' =>
      rw [h t m (by simp [ht]), ht]
      rw [ht] at hp
      exact ih a m' hp
    | signal s m' =>
      rw [h t m (by simp [ht]), ht]
      rfl
    | outOfFuel => simp [ht] at hp
  | body c args m next ih =>
    unfold run at hp ⊢
    cases ht : rec c.task (m.enter c args) with
    | outOfFuel => simp [ht, Outcome.leaveTo] at hp
    | done | signal =>
      rw [h c.task _ (by simp [ht]), ht]
      rw [ht] at hp
      cases hl : Outcome.leaveTo m.frame _ with
      | done v m' =>
        rw [hl] at hp
        exact ih v m' hp
      | signal => rfl
      | outOfFuel => simp [hl] at hp

/-- More fuel does not change the outcome of an evaluation that ends. -/
theorem Task.eval_mono {o : Options} {n k : Nat} {t : Task} {m : Machine} (hnk : n ≤ k)
    (h : t.eval o n m ≠ .outOfFuel) : t.eval o k m = t.eval o n m := by
  induction n generalizing k t m with
  | zero => exact absurd (t.eval_zero o m) h
  | succ n ih =>
    obtain ⟨k, rfl⟩ : ∃ j, k = j + 1 := ⟨k - 1, by omega⟩
    rw [eval_succ] at h ⊢
    rw [eval_succ]
    exact Plan.run_mono (fun t m ht => ih (by omega) ht) _ h

namespace Stmt

variable {o : Options} {n k : Nat} {ss ts : List Stmt} {last : Option Value} {m : Machine}

theorem evalAll_mono (hnk : n ≤ k) (h : evalAll o n ss last m ≠ .outOfFuel) :
    evalAll o k ss last m = evalAll o n ss last m :=
  Task.eval_mono (t := .stmts ss last) hnk h

/-- A signal in the first statements leaves no room for the others. -/
theorem evalAll_append_of_signal {s : Signal} {m' : Machine}
    (h : evalAll o n ss last m = .signal s m') (ts : List Stmt) :
    evalAll o n (ss ++ ts) last m = .signal s m' := by
  induction ss generalizing n last m with
  | nil => cases n <;> simp [evalAll] at h
  | cons st ss ih =>
    cases n with
    | zero => simp [evalAll] at h
    | succ n =>
      rw [List.cons_append, evalAll]
      rw [evalAll] at h
      cases hst : Stmt.eval o n st m with
      | done v m₁ =>
        rw [hst] at h
        exact ih h
      | signal => rwa [hst] at h
      | outOfFuel => simp [hst] at h

/-- After the first statements, the others are evaluated in the machine that those have left. -/
theorem exists_evalAll_append {v : Option Value} {m' : Machine}
    (h : evalAll o n ss last m = .done v m') (h' : evalAll o k ts v m' ≠ .outOfFuel) :
    ∃ j, evalAll o j (ss ++ ts) last m = evalAll o k ts v m' := by
  induction ss generalizing n last m with
  | nil =>
    cases n with
    | zero => simp [evalAll] at h
    | succ n =>
      obtain ⟨rfl, rfl⟩ : last = v ∧ m = m' := by simpa [evalAll] using h
      exact ⟨k, rfl⟩
  | cons st ss ih =>
    cases n with
    | zero => simp [evalAll] at h
    | succ n =>
      rw [evalAll] at h
      cases hst : Stmt.eval o n st m with
      | done w m₁ =>
        rw [hst] at h
        obtain ⟨j, hj⟩ := ih h
        refine ⟨max n j + 1, ?_⟩
        have hfirst : Stmt.eval o (max n j) st m = .done w m₁ := by
          rw [← hst]
          exact Task.eval_mono (t := .stmt st) (Nat.le_max_left n j) (by simp [Task.eval, hst])
        rw [List.cons_append, evalAll, hfirst, Outcome.andThen_done,
          evalAll_mono (Nat.le_max_right n j) (by rwa [hj]), hj]
      | signal | outOfFuel => simp [hst] at h

end Stmt

end MonkeyLang
