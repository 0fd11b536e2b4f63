import Mathlib.Order.Lattice.Nat
import MonkeyLang.Proofs.Evaluation.Invariant

/-!
# The limit on calls

A machine counts the calls that are under way. The count is right at every moment: it is that of the
bodies of functions between the start of the evaluation and the moment (`Moment.Reaches.depth_eq`). So
a limit on the count is one on the bodies. It makes no difference to an evaluation that stays within
it, and ends any other one with an error.

## Main statements

* `Program.depth_limit_exact` : what evaluation under a limit does, compared with evaluation without
  one.
-/

namespace MonkeyLang

variable {o : Options} {a b : Moment} {j k : Nat}

/-! ### The count of the calls under way -/

/-- The machine is in the same frame, and the same number of calls is under way. -/
def SamePlace (m m' : Machine) : Prop := m'.frame = m.frame ∧ m'.depth = m.depth

/-- Every evaluation comes back to the place where it was begun. -/
theorem kept_samePlace (o : Options) : Kept o SamePlace where
  refl _ := ⟨rfl, rfl⟩
  trans h h' := ⟨h'.1.trans h.1, h'.2.trans h.2⟩
  newArray _ _ := ⟨rfl, rfl⟩
  print _ _ := ⟨rfl, rfl⟩
  bind _ _ _ := ⟨rfl, rfl⟩
  assign m x v := by
    unfold Machine.assign
    split
    · exact ⟨rfl, rfl⟩
    · split <;> exact ⟨rfl, rfl⟩
  put _ _ _ := ⟨rfl, rfl⟩
  newHash _ _ := ⟨rfl, rfl⟩
  newFunction _ _ := ⟨rfl, rfl⟩
  call m c args m' _ h := by
    refine ⟨rfl, ?_⟩
    show m'.depth - 1 = m.depth
    rw [h.2]
    rfl

namespace Moment

/-- Every body that is entered is counted, and none is entered that the options forbid. -/
theorem Begins.depth_eq (h : a.Begins o j b) :
    b.machine.depth = a.machine.depth + j ∧
      (j = 0 ∨ j = 1 ∧ o.forbids a.machine.depth = none) := by
  obtain ⟨h⟩ := h
  obtain ⟨rfl, -, -, hdepth⟩ | ⟨c, args, m₀, rfl, rfl, rfl, ⟨-, hdepth⟩, henter⟩ :=
    (kept_samePlace o).invariant.begins trivial ((kept_samePlace o).refl _) h
  · exact ⟨hdepth, .inl rfl⟩
  · refine ⟨?_, .inr ⟨rfl, hdepth ▸ henter.allowed⟩⟩
    show m₀.depth + 1 = _
    rw [hdepth]

/-- The count of the calls under way is that of the bodies that have been entered and not left. -/
theorem Reaches.depth_eq (h : a.Reaches o k b) : b.machine.depth = a.machine.depth + k := by
  induction h with
  | refl => rfl
  | next first _ ih =>
    rw [ih, first.depth_eq.1]
    omega

/-- Every body takes at least one step. -/
theorem Reaches.add_fuel_le (h : a.Reaches o k b) : k + b.fuel ≤ a.fuel := by
  induction h with
  | refl => omega
  | next first _ ih =>
    have hj := first.depth_eq.2
    cases first
    dsimp only at ih ⊢
    omega

end Moment

/-! ### Plans and limits -/

/-- The options with a limit of `limit` calls. -/
def Options.withLimit (o : Options) (limit : Nat) : Options := { o with maxDepth := some limit }

/-- The options without a limit on calls. -/
def Options.withoutLimit (o : Options) : Options := { o with maxDepth := none }

theorem Options.forbids_withLimit {limit depth : Nat}
    (h : (o.withLimit limit).forbids depth ≠ none) :
    (o.withLimit limit).forbids depth = some limit := by
  simp only [forbids, withLimit] at h ⊢
  split
  · rfl
  next hdepth => exact absurd (if_neg hdepth) h

/-- A call that the options forbid ends with an error. -/
theorem Task.eval_eq_recursionLimit {c : ClosureId} {args : List Value} {m : Machine} {limit : Nat}
    (arity : (m.store.closure c).params.length = args.length)
    (h : o.forbids m.depth = some limit) (n : Nat) :
    (Task.apply (.function c) args).eval o (n + 1) m =
      .signal (.failed (.recursionLimit limit)) m := by
  simp only [Task.eval, Value.apply, arity, ne_eq, not_true_eq_false, if_false, h]
  rfl

/-- A call that the options allow begins the body of the function. -/
theorem Moment.begins_body {n : Nat} {c : ClosureId} {args : List Value} {m : Machine}
    (arity : (m.store.closure c).params.length = args.length) (h : o.forbids m.depth = none) :
    Begins o ⟨n + 1, .apply (.function c) args, m⟩ 1
      ⟨n, (m.store.closure c).task, m.enter (m.store.closure c) args⟩ := by
  refine .step ?_
  simp only [Task.plan, Value.plan, arity, ne_eq, not_true_eq_false, if_false, h]
  exact .body

namespace Moment

variable {limit : Nat}

/-- Under a limit the count stays within the limit. -/
theorem Reaches.depth_le (h : a.Reaches (o.withLimit limit) k b) (ha : a.machine.depth ≤ limit) :
    b.machine.depth ≤ limit := by
  induction h with
  | refl => exact ha
  | next first _ ih =>
    obtain ⟨hdepth, hj⟩ := first.depth_eq
    refine ih ?_
    obtain rfl | ⟨rfl, hallowed⟩ := hj
    · omega
    · simp only [Options.forbids, Options.withLimit, ite_eq_right_iff, reduceCtorEq,
        imp_false] at hallowed
      omega

/-- If no more than `limit` bodies are ever under way without a limit, the limit forbids none of the
calls. -/
theorem agree_withLimit (ha : a.machine.depth = 0)
    (h : ∀ k b, a.Reaches o.withoutLimit k b → k ≤ limit) :
    a.Agree o.withoutLimit (o.withLimit limit) := by
  intro k n t m hr
  refine .of_eq (Task.plan_congr t m (fun _ _ _ _ => rfl) ?_)
  rintro c args rfl arity
  -- The body of the function is one more that is under way.
  have hdepth := hr.depth_eq
  have hbody := h _ _ (hr.trans (.next (begins_body arity rfl) (.refl _)))
  dsimp only at hdepth
  simp only [Options.forbids, Options.withLimit, Options.withoutLimit]
  rw [if_neg (by omega)]

/-- If the limit forbids none of the calls, the evaluation is that without a limit. -/
theorem agree_withoutLimit
    (h : ∀ k n c args m, a.Reaches (o.withLimit limit) k ⟨n + 1, .apply (.function c) args, m⟩ →
      (m.store.closure c).params.length = args.length → (o.withLimit limit).forbids m.depth = none) :
    a.Agree (o.withLimit limit) o.withoutLimit := by
  intro k n t m hr
  refine .of_eq (Task.plan_congr t m (fun _ _ _ _ => rfl) ?_)
  rintro c args rfl arity
  exact h k n c args m hr arity

end Moment

/-! ### Programs -/

namespace Program

/-- At some moment of the evaluation of the program in at most `fuel` steps, `k` bodies of functions
are under way. -/
def Nests (o : Options) (fuel : Nat) (p : Program) (m : Machine) (k : Nat) : Prop :=
  ∃ b, Moment.Reaches o ⟨fuel, .stmts p none, m⟩ k b

variable {limit fuel : Nat} {p : Program} {m : Machine}

theorem exists_isGreatest_nests (o : Options) (fuel : Nat) (p : Program) (m : Machine) :
    ∃ d, IsGreatest {k | Nests o fuel p m k} d := by
  have hbound : BddAbove {k | Nests o fuel p m k} := by
    refine ⟨fuel, ?_⟩
    rintro k ⟨b, hb⟩
    have := hb.add_fuel_le
    dsimp only at this
    omega
  exact ⟨_, Nat.sSup_mem ⟨0, _, .refl _⟩ hbound, fun k hk => le_csSup hbound hk⟩

/-- Under a limit there are never more bodies under way. -/
theorem Nests.le_limit (hm : m.depth = 0) (h : Nests (o.withLimit limit) fuel p m k) :
    k ≤ limit := by
  obtain ⟨b, hb⟩ := h
  have hle := hb.depth_le (hm ▸ Nat.zero_le limit)
  rw [hb.depth_eq, hm, Nat.zero_add] at hle
  exact hle

theorem eval_of_signal {s : Signal} {m' : Machine}
    (h : Moment.outcome o ⟨fuel, .stmts p none, m⟩ = .signal s m') :
    eval o fuel p m = some (s.ending, m') := by
  rw [eval, show Stmt.evalAll o fuel p none m = _ from h]

/-- An evaluation that goes beyond the limit ends with an error. -/
theorem eval_eq_recursionLimit {d : Nat} (hm : m.depth = 0) (hd : Nests o.withoutLimit fuel p m d)
    (h : limit < d) :
    ∃ m', eval (o.withLimit limit) fuel p m = some (.failed (.recursionLimit limit), m') := by
  obtain ⟨b, hb⟩ := hd
  by_contra hne
  -- No call can be forbidden: the error would end the whole evaluation.
  have hagree : Moment.Agree (o.withLimit limit) o.withoutLimit ⟨fuel, .stmts p none, m⟩ := by
    refine Moment.agree_withoutLimit fun k n c args m₁ hr arity => ?_
    by_contra hforbids
    have hstops : (Signal.failed (.recursionLimit limit)).Stops := nofun
    obtain ⟨m', hend, -⟩ := hr.stops hstops
      (Task.eval_eq_recursionLimit arity (Options.forbids_withLimit hforbids) n)
    exact hne ⟨m', eval_of_signal hend⟩
  -- So there are too many bodies under way under the limit, too.
  have hle := Nests.le_limit hm ⟨b, hagree.reaches hb⟩
  omega

/-- The limit on calls is exact, and otherwise it does not show. Under a limit there are never more
bodies of functions under way than that, also while an evaluation goes on that does not end. If the
evaluation without a limit ends and `d` is the largest number of bodies that are under way during it,
a limit of `d` or more changes nothing, neither the ending nor anything about the machine, and under a
smaller limit the program ends with the error that says so. -/
theorem depth_limit_exact (o : Options) (limit : Nat) (p : Program) {m : Machine}
    (hm : m.depth = 0) :
    (∀ fuel k, Nests (o.withLimit limit) fuel p m k → k ≤ limit) ∧
    ∀ fuel ending m', eval o.withoutLimit fuel p m = some (ending, m') →
      ∃ d, IsGreatest {k | Nests o.withoutLimit fuel p m k} d ∧
        (d ≤ limit → eval (o.withLimit limit) fuel p m = some (ending, m')) ∧
        (limit < d → ∃ m'',
          eval (o.withLimit limit) fuel p m = some (.failed (.recursionLimit limit), m'')) := by
  refine ⟨?_, fun fuel ending m' heval => ?_⟩
  · exact fun fuel k => Nests.le_limit hm
  · obtain ⟨d, hd⟩ := exists_isGreatest_nests o.withoutLimit fuel p m
    refine ⟨d, hd, fun hle => ?_, eval_eq_recursionLimit hm hd.1⟩
    have hagree : Moment.Agree o.withoutLimit (o.withLimit limit) ⟨fuel, .stmts p none, m⟩ :=
      Moment.agree_withLimit hm fun k b hb => (hd.2 ⟨b, hb⟩).trans hle
    rw [← heval]
    exact hagree.eval_eq.symm

/-- The program `let f = fn(n) { if (n) { f(n - 1) } }; f(2)`, which has three bodies under way at
most. -/
def countdown : Program :=
  let n : Expr := .ident "n" .nowhere
  let f : Expr := .ident "f" .nowhere
  let again : Expr := .call f [.binary .sub n (.int 1 .nowhere) .nowhere] .nowhere
  let body : Expr := .cond n ⟨[.expr again .nowhere], .nowhere⟩ none .nowhere
  [.letBind "f" (.function ["n"] ⟨[.expr body .nowhere], .nowhere⟩ .nowhere .nowhere) .nowhere,
    .expr (.call f [.int 2 .nowhere] .nowhere) .nowhere]

/-- Without a limit the program ends. -/
theorem depth_limit_exact_countdown :
    Machine.initial.depth = 0 ∧
    (∃ m', eval ({} : Options).withoutLimit 40 countdown .initial = some (.completed (some .null), m')) ∧
    (∀ fuel k, Nests (({} : Options).withLimit 2) fuel countdown .initial k → k ≤ 2) ∧
    ∀ fuel ending m', eval ({} : Options).withoutLimit fuel countdown .initial = some (ending, m') →
      ∃ d, IsGreatest {k | Nests ({} : Options).withoutLimit fuel countdown .initial k} d ∧
        (d ≤ 2 → eval (({} : Options).withLimit 2) fuel countdown .initial = some (ending, m')) ∧
        (2 < d → ∃ m'', eval (({} : Options).withLimit 2) fuel countdown .initial =
          some (.failed (.recursionLimit 2), m'')) :=
  ⟨rfl, ⟨_, rfl⟩, depth_limit_exact {} 2 countdown rfl⟩

end Program

end MonkeyLang
