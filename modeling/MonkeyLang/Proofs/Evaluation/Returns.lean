import MonkeyLang.Proofs.Evaluation.LexicalDepth
import MonkeyLang.Proofs.Evaluation.Signals

/-!
# What a `return` leaves

A `return` stands in the body of the innermost function literal around it, or outside of all of them.
It ends everything that is under way in that body, be it a loop, a block or a list of arguments, and
the call that has entered the body has its value. What called goes on. Only a `return` outside of all
function literals ends the program.

No plan but that of the statement gives a `return` of its own, and no plan but that of a call enters a
function. So between a moment and another one in the same body, every signal is passed on as it is;
and a call lets no `return` through.

## Main definitions

* `Task.returns` : the `return` statements outside of the function literals in what is evaluated.
* `Moment.Inside` : a moment that is reached without entering a function.
* `Moment.Unwinds` : what a `return` ends.

## Main statements

* `Moment.return_leaves_one` : calls and code without `return` never end with one, and a `return` ends
  the call of the function literal that it stands in.
-/

namespace MonkeyLang

variable {α : Type} {o : Options}

/-! ### The `return` statements of a body -/

mutual

/-- The `return` statements in an expression that are outside of the function literals in it. -/
def Expr.returns : Expr → List Stmt
  | .int _ _ | .bool _ _ | .str _ _ | .ident _ _ => []
  | .array items _ => Expr.returnsAll items
  | .hash entries _ => Expr.returnsEntries entries
  | .unary _ operand _ => operand.returns
  | .binary _ left right _ => left.returns ++ right.returns
  | .cond test thenBlock elseBlock _ =>
    test.returns ++ (thenBlock.returns ++ Block.returnsPart elseBlock)
  | .function _ _ _ _ => []
  | .call callee args _ => callee.returns ++ Expr.returnsAll args
  | .index base place _ => base.returns ++ place.returns
  | .assign target value _ => target.returns ++ value.returns

/-- As `Expr.returns`, in all of the expressions. -/
def Expr.returnsAll : List Expr → List Stmt
  | [] => []
  | e :: es => e.returns ++ Expr.returnsAll es

/-- As `Expr.returns`, in the entries of a hash literal. -/
def Expr.returnsEntries : List (Expr × Expr) → List Stmt
  | [] => []
  | (key, value) :: es => key.returns ++ (value.returns ++ Expr.returnsEntries es)

/-- As `Expr.returns`, in a part of a loop's header. -/
def Expr.returnsPart : Option Expr → List Stmt
  | none => []
  | some e => e.returns

/-- As `Expr.returns`, in a statement, itself included. -/
def Stmt.returns : Stmt → List Stmt
  | .letBind _ value _ | .expr value _ => value.returns
  | .ret value span => .ret value span :: value.returns
  | .forLoop init test after body _ =>
    Stmt.returnsPart init ++ (Expr.returnsPart test ++ (Expr.returnsPart after ++ body.returns))

/-- As `Expr.returns`, in the first part of a loop's header. -/
def Stmt.returnsPart : Option Stmt → List Stmt
  | none => []
  | some s => s.returns

/-- As `Expr.returns`, in all of the statements. -/
def Stmt.returnsAll : List Stmt → List Stmt
  | [] => []
  | s :: ss => s.returns ++ Stmt.returnsAll ss

/-- As `Expr.returns`, in a block. -/
def Block.returns : Block → List Stmt
  | ⟨statements, _⟩ => Stmt.returnsAll statements

/-- As `Expr.returns`, in the second block of an `if` expression. -/
def Block.returnsPart : Option Block → List Stmt
  | none => []
  | some b => b.returns

end

theorem Block.returns_eq (b : Block) : b.returns = Stmt.returnsAll b.statements := by
  cases b
  rfl

namespace Task

/-- The `return` statements in what is evaluated that are outside of the function literals in it. The
body of a function is no part of what calls it. -/
def returns : Task → List Stmt
  | .expr e => e.returns
  | .exprs es => Expr.returnsAll es
  | .entries es _ => Expr.returnsEntries es
  | .part e => Expr.returnsPart e
  | .assign target value => target.returns ++ value.returns
  | .stmt s => s.returns
  | .stmts ss _ => Stmt.returnsAll ss
  | .loop test after body _ =>
    Expr.returnsPart test ++ (Expr.returnsPart after ++ body.returns)
  | .apply _ _ => []

theorem PartOf.returns_subset {p t : Task} (h : p.PartOf t) : p.returns ⊆ t.returns := by
  intro s hs
  cases h with
  | _ =>
    simp_all [returns, Expr.returns, Expr.returnsAll, Expr.returnsEntries, Expr.returnsPart,
      Stmt.returns, Stmt.returnsPart, Stmt.returnsAll, Block.returnsPart, Block.returns_eq]

/-- A call of a function. -/
def IsCall (t : Task) : Prop := ∃ f args, t = .apply f args

/-- A `return` statement. -/
def IsReturn (t : Task) : Prop := ∃ e span, t = .stmt (.ret e span)

end Task

/-! ### Plans that stay in a body -/

/-- The plan enters no function, and gives a `return` of its own only under the condition `R`. -/
def Plan.Local (R : Prop) : Plan α → Prop
  | .finish r => ∀ v m, r = .signal (.returned v) m → R
  | .after _ _ next => ∀ a m, (next a m).Local R
  | .body .. => False

namespace Plan.Local

variable {R : Prop}

theorem done (a : α) (m : Machine) : (Plan.finish (.done a m)).Local R := nofun

theorem fail (e : RuntimeError) (m : Machine) : (Plan.finish (.fail e m : Outcome α)).Local R :=
  nofun

theorem ofExcept (r : Except RuntimeError α) (m : Machine) :
    (Plan.finish (.ofExcept r m)).Local R := by
  cases r with
  | ok a => exact done a m
  | error e => exact fail e m

end Plan.Local

section

variable {R : Prop} {m : Machine}

theorem Expr.plan_local (e : Expr) : (e.plan m).Local R := by
  cases e with
  | int | bool | str => exact .done _ _
  | ident x =>
    rw [Expr.plan]
    split
    · exact .done _ _
    · split
      · exact .done _ _
      · exact .fail _ _
  | function => exact .done _ _
  | array | hash => exact fun _ _ => .done _ _
  | unary => exact fun _ _ => .ofExcept _ _
  | binary | index => exact fun _ _ _ _ => .ofExcept _ _
  | cond test thenBlock elseBlock =>
    intro v m
    dsimp only
    split
    · exact fun _ _ => .done _ _
    · cases elseBlock with
      | none => exact .done _ _
      | some b => exact fun _ _ => .done _ _
  | call => exact fun _ _ _ _ _ _ => .done _ _
  | assign => exact fun _ _ => .done _ _

theorem Expr.assignPlan_local (target value : Expr) :
    (Expr.assignPlan o target value m).Local R := by
  cases target with
  | ident x =>
    rw [Expr.assignPlan]
    split
    · exact fun _ _ => .done _ _
    · exact .fail _ _
  | index base place =>
    intro _ _ _ _
    dsimp only
    split
    · exact .fail _ _
    · exact fun _ _ => .done _ _
  | _ => exact .fail _ _

/-- Only a call enters a function, and only the statement gives a `return`. -/
theorem Task.plan_local {t : Task} (h : ¬ t.IsCall) : (t.plan o m).Local t.IsReturn := by
  cases t with
  | expr e => exact e.plan_local
  | exprs es =>
    cases es with
    | nil => exact .done _ _
    | cons e es => exact fun _ _ _ _ => .done _ _
  | entries es d =>
    cases es with
    | nil => exact .done _ _
    | cons entry es =>
      intro v m
      dsimp only
      split
      · exact .fail _ _
      · exact fun _ _ _ _ => .done _ _
  | part e =>
    cases e with
    | none => exact .done _ _
    | some e => exact fun _ _ => .done _ _
  | assign target value => exact Expr.assignPlan_local target value
  | stmt s =>
    cases s with
    | letBind | expr => exact fun _ _ => .done _ _
    | ret e span => exact fun _ _ _ _ _ => ⟨e, span, rfl⟩
    | forLoop init =>
      cases init with
      | none => exact fun _ _ => .done _ _
      | some init => exact fun _ _ _ _ => .done _ _
  | stmts ss last =>
    cases ss with
    | nil => exact .done _ _
    | cons s ss => exact fun _ _ _ _ => .done _ _
  | loop test after body last =>
    intro v m
    dsimp only
    split
    · exact fun _ _ _ _ _ _ => .done _ _
    · exact .done _ _
  | apply f args => exact absurd ⟨f, args, rfl⟩ h

end

namespace Plan.Local

variable {rec : (t : Task) → Machine → Outcome t.Result} {R : Prop} {F : Task → Prop} {p : Plan α}
  {s : Signal} {v : Value} {i k : Nat} {t t' : Task} {m m' m₁ : Machine}

/-- A signal is passed on as it is. -/
theorem run_eq (hp : p.Local R) (h : p.BeginsAt rec i t m) (ht : rec t m = .signal s m₁) :
    p.run rec = .signal s m₁ := by
  induction h with
  | after =>
    rw [run, ht]
    rfl
  | later ends _ ih =>
    rw [run, ends]
    exact ih (hp _ _) ht
  | body | left => exact hp.elim

/-- After a task that ends with a signal, none is begun. -/
theorem le_of_signal (hp : p.Local R) (h : p.BeginsAt rec i t m) (ht : rec t m = .signal s m₁)
    (h' : p.BeginsAt rec k t' m') : k ≤ i := by
  induction h generalizing k with
  | after =>
    cases h' with
    | after => exact Nat.le_refl 0
    | later ends =>
      rw [ht] at ends
      cases ends
  | later ends _ ih =>
    cases h' with
    | after => exact Nat.zero_le _
    | later ends' h' =>
      obtain ⟨rfl, rfl⟩ := Outcome.done.inj (ends.symm.trans ends')
      exact Nat.succ_le_succ (ih (hp _ _) ht h')
  | body | left => exact hp.elim

theorem within (hp : p.Local R) (hF : p.Within F) (h : p.BeginsAt rec i t m) : F t := by
  induction h with
  | after => exact hF.1
  | later _ _ ih => exact ih (hp _ _) (hF.2 _ _)
  | body | left => exact hp.elim

/-- A plan that is not meant to give a `return` gives none. -/
theorem not_raises (hp : p.Local R) (hR : ¬ R) : ¬ p.Raises rec (.returned v) m m' := by
  intro h
  induction h with
  | now => exact hR (hp _ _ rfl)
  | later _ _ ih => exact ih (hp _ _)
  | left => exact hp.elim

end Plan.Local

/-! ### Calls -/

theorem Outcome.leaveTo_ne_returned (r : Outcome (Option Value)) (caller : FrameId) (v : Value)
    (m : Machine) : r.leaveTo caller ≠ .signal (.returned v) m := by
  cases r with
  | done | outOfFuel => nofun
  | signal s => cases s <;> nofun

theorem Builtin.call_ne_returned (b : Builtin) (args : List Value) (m : Machine) (v : Value)
    (m' : Machine) : b.call args m ≠ .signal (.returned v) m' := by
  unfold call
  split
  · nofun
  · unfold run
    split <;> nofun

/-- What a call can do: enter the body of the function, or end by itself. -/
theorem Value.plan_cases (o : Options) (f : Value) (args : List Value) (m : Machine) :
    (∃ c, f = .function c ∧ f.plan o args m =
      .body (m.store.closure c) args m fun v m => .finish (.done v m)) ∨
      ∃ r, f.plan o args m = .finish r ∧ ∀ v m', r ≠ .signal (.returned v) m' := by
  have hfail (e : RuntimeError) (m₁ : Machine) :
      ∀ v m', (.fail e m₁ : Outcome Value) ≠ .signal (.returned v) m' := by
    intro v m' h
    cases h
  cases f with
  | function c =>
    rw [plan]
    split
    · exact .inr ⟨_, rfl, hfail _ _⟩
    · split
      · exact .inr ⟨_, rfl, hfail _ _⟩
      · exact .inl ⟨c, rfl, rfl⟩
  | builtin b => exact .inr ⟨_, rfl, b.call_ne_returned args m⟩
  | _ => exact .inr ⟨_, rfl, hfail _ _⟩

/-- No call ends with a `return`. -/
theorem Value.apply_ne_returned (n : Nat) (f : Value) (args : List Value) (m : Machine) (v : Value)
    (m' : Machine) : Value.apply o n f args m ≠ .signal (.returned v) m' := by
  cases n with
  | zero => nofun
  | succ n =>
    rw [apply_succ]
    obtain ⟨c, -, hplan⟩ | ⟨r, hplan, hr⟩ := f.plan_cases o args m
    · rw [hplan]
      simp only [Plan.run, Outcome.andThen_pure]
      exact Outcome.leaveTo_ne_returned _ _ _ _
    · rw [hplan]
      exact hr v m'

namespace Moment

/-! ### Moments in the same body -/

/-- The moment `b` is at the given address in the evaluation begun at `a`, and no function is entered
on the way to it. -/
inductive Inside (o : Options) : Moment → List Nat → Moment → Prop where
  /-- The evaluation begins at the root. -/
  | here (a : Moment) : Inside o a [] a
  /-- Below it stands what it begins, if it is no call. -/
  | begun {n i : Nat} {p : List Nat} {t t' : Task} {m m' : Machine} {b : Moment} (call : ¬ t.IsCall)
      (begins : (t.plan o m).BeginsAt (fun t m => t.eval o n m) i t' m')
      (rest : Inside o ⟨n, t', m'⟩ p b) : Inside o ⟨n + 1, t, m⟩ (i :: p) b

/-- At the moment the statement `s`, which is a `return`, is carried out: its expression has the value
`v`, and the machine is `m` then. -/
inductive Returns (o : Options) (v : Value) (m : Machine) : Moment → Stmt → Prop where
  /-- When the expression has been evaluated. -/
  | step {n : Nat} {e : Expr} {span : Span} {m₀ : Machine} (value : Expr.eval o n e m₀ = .done v m) :
      Returns o v m ⟨n + 1, .stmt (.ret e span), m₀⟩ (.ret e span)

variable {a b c : Moment} {p q : List Nat} {s : Signal} {st : Stmt} {v : Value} {m : Machine}

namespace Inside

/-- Until the body is left, a signal is passed on as it is. -/
theorem outcome_eq (h : a.Inside o p b) (hb : b.outcome o = .signal s m) :
    a.outcome o = .signal s m := by
  induction h with
  | here => exact hb
  | begun call begins _ ih =>
    exact (Task.eval_succ ..).trans ((Task.plan_local call).run_eq begins (ih hb))

/-- The last moments are those below one that ends with a signal. -/
theorem lt_or_below (h : a.Inside o p b) (hb : b.outcome o = .signal s m) (h' : a.At o q c) :
    q < p ∨ p <+: q := by
  induction h generalizing q with
  | here => exact .inr List.nil_prefix
  | @begun n i p t t' m₀ m₁ b call begins rest ih =>
    cases h' with
    | here => exact .inl (List.nil_lt_cons i p)
    | @inside _ k q _ t'' _ m₂ _ begins' rest' =>
      have hend := rest.outcome_eq hb
      obtain hlt | rfl := Nat.lt_or_eq_of_le ((Task.plan_local call).le_of_signal begins hend begins')
      · exact .inl (List.cons_lt_cons_iff.mpr (.inl hlt))
      · obtain ⟨rfl, rfl⟩ := begins.unique begins'
        obtain hlt | hprefix := ih hb rest'
        · exact .inl (List.cons_lt_cons_iff.mpr (.inr ⟨rfl, hlt⟩))
        · exact .inr (List.cons_prefix_cons.mpr ⟨rfl, hprefix⟩)

/-- What is evaluated in a body stands in it, outside of the function literals in it. -/
theorem returns_subset (h : a.Inside o p b) : b.task.returns ⊆ a.task.returns := by
  induction h with
  | here => exact List.Subset.refl _
  | @begun n i p t t' m₀ m₁ b call begins rest ih =>
    have hparts : (t.plan o m₀).Within (·.returns ⊆ t.returns) :=
      Task.plan_within fun p hp => hp.returns_subset
    exact List.Subset.trans ih ((Task.plan_local call).within hparts begins)

end Inside

namespace Returns

theorem outcome_eq (h : b.Returns o v m st) : b.outcome o = .signal (.returned v) m := by
  obtain ⟨value⟩ := h
  show Stmt.eval o _ _ _ = _
  rw [Stmt.eval, value]
  rfl

theorem mem_returns (h : b.Returns o v m st) : st ∈ b.task.returns := by
  obtain ⟨value⟩ := h
  exact List.mem_cons_self

end Returns

/-- If an evaluation ends with a `return`, a statement has been carried out in the same body. -/
theorem exists_returns (ha : a.outcome o = .signal (.returned v) m) :
    ∃ p b st, a.Inside o p b ∧ b.Returns o v m st := by
  obtain ⟨n, t, m₀⟩ := a
  induction n generalizing t m₀ with
  | zero => cases (Task.eval_zero o t m₀).symm.trans ha
  | succ n ih =>
    by_cases hcall : t.IsCall
    · obtain ⟨f, args, rfl⟩ := hcall
      exact absurd ha (Value.apply_ne_returned _ _ _ _ _ _)
    have hrun := (Task.eval_succ o n t m₀).symm.trans ha
    obtain ⟨i, t', m₁, m₂, hbegins, hend⟩ | hraises := t.plan_madeOf.begins_or_raises hrun
    · obtain ⟨-, rfl⟩ := Outcome.signal.inj
        (hrun.symm.trans ((Task.plan_local hcall).run_eq hbegins hend))
      obtain ⟨p, b, st, hb, hst⟩ := ih t' m₁ hend
      exact ⟨i :: p, b, st, .begun hcall hbegins hb, hst⟩
    · by_cases hret : t.IsReturn
      · obtain ⟨e, span, rfl⟩ := hret
        obtain - | ⟨ends, raises⟩ := hraises
        cases raises
        exact ⟨[], _, _, .here _, .step ends⟩
      · exact absurd hraises ((Task.plan_local hcall).not_raises hret)

/-- What is evaluated without a `return` of its own does not end with one. -/
theorem outcome_ne_returned (h : a.task.returns = []) :
    a.outcome o ≠ .signal (.returned v) m := by
  intro ha
  obtain ⟨p, b, st, hb, hst⟩ := exists_returns ha
  have hmem := hb.returns_subset hst.mem_returns
  rw [h] at hmem
  cases hmem

/-! ### Functions and their literals -/

/-- The function `c` has been there at the moment `a`, or it is that of a function literal which stands
in what is evaluated at `a` or in the body of a function that has been there. -/
inductive Defines (a : Moment) (c : Closure) : Prop where
  /-- It has been there. -/
  | made (f : ClosureId) (eq : a.machine.store.closure f = c)
  /-- The literal is a part of what is evaluated. -/
  | literal {n : Nat} {bare span : Span}
      (mem : (n, .function c.params c.body bare span) ∈ a.task.expressions 0)
  /-- The literal stands in the body of another function. -/
  | inner (f : ClosureId) {n : Nat} {bare span : Span}
      (mem : (n, .function c.params c.body bare span) ∈
        (a.machine.store.closure f).task.expressions 0)

/-- All function literals in the task, around which `n` others stand, define functions known at `a`. -/
def Accounts (a : Moment) (n : Nat) (t : Task) : Prop :=
  ∀ k params body bare span frame, (k, .function params body bare span) ∈ t.expressions n →
    a.Defines ⟨params, body, frame⟩

/-- Functions are made by function literals, and their bodies are those of the literals. -/
theorem invariant_defines (o : Options) (a : Moment) :
    Invariant o a.Accounts fun _ m => ∀ f, a.Defines (m.store.closure f) ∧
      ∃ n, a.Accounts n (m.store.closure f).task where
  within n t m h := Task.plan_within fun p hp k params body bare span frame hmem =>
    h k params body bare span frame (hp.expressions_subset n hmem)
  stable n := {
    bind := fun m x v h => h
    assign := fun m x v h => by
      unfold Machine.assign
      split
      · exact h
      · split <;> exact h
    put := fun m slot p h => by cases slot <;> exact h
    newArray := fun m items h => h
    newHash := fun m d h => h
    print := fun m line h => h }
  function n params body bare span m ht h := by
    refine Store.forall_closure_addClosure
      (P := fun c => a.Defines c ∧ ∃ n, a.Accounts n c.task) h ⟨?_, n + 1, ?_⟩
    · exact ht n params body bare span m.frame (Expr.mem_expressions n _)
    · intro k params' body' bare' span' frame hmem
      refine ht k params' body' bare' span' frame ?_
      rw [Task.expressions, Expr.expressions, Block.expressions_eq]
      exact List.mem_cons_of_mem _ hmem
  call n c args m h henter := by
    obtain ⟨f, rfl⟩ := henter.defined
    obtain ⟨-, k, hk⟩ := h f
    exact ⟨k, hk, h, fun m' h' => h'⟩

theorem At.defines (h : a.At o p b) (f : ClosureId) : a.Defines (b.machine.store.closure f) := by
  obtain ⟨k, hk⟩ := h.exists_reaches
  obtain ⟨-, -, hm⟩ := (invariant_defines o a).reaches (i := 0)
    (fun k params body bare span frame hmem => .literal hmem)
    (fun f => ⟨.made f rfl, 0, fun k params body bare span frame hmem => .inner f hmem⟩) hk
  exact (hm f).1

/-! ### What is ended -/

/-- What the `return` statement `st` ends that is carried out at the moment `b`, at the address `p` in
the evaluation begun at `a`, with the value `v` and when the machine is `m`. -/
inductive Unwinds (o : Options) (a b : Moment) (st : Stmt) (v : Value) (m : Machine) :
    List Nat → Prop where
  /-- All of the evaluation, if no function is entered on the way to the statement. It stands in what
  is evaluated, outside of the function literals there, and nothing is evaluated after it. -/
  | whole {p : List Nat} (inside : a.Inside o p b) (stands : st ∈ a.task.returns)
      (ends : a.outcome o = .signal (.returned v) m)
      (last : ∀ q c, a.At o q c → q < p ∨ p <+: q) : Unwinds o a b st v m p
  /-- The last call on the way. The statement stands in the body of the function that is called,
  outside of the function literals there. The call has the value of the statement, and nothing is
  evaluated in it after that. -/
  | call {q r : List Nat} {n : Nat} {f : ClosureId} {args : List Value} {m₀ : Machine}
      (call : a.At o q ⟨n + 1, .apply (.function f) args, m₀⟩)
      (literal : a.Defines (m₀.store.closure f))
      (inside : Inside o ⟨n, (m₀.store.closure f).task, m₀.enter (m₀.store.closure f) args⟩ r b)
      (stands : st ∈ Stmt.returnsAll (m₀.store.closure f).body.statements)
      (ends : Value.apply o (n + 1) (.function f) args m₀ = .done v (m.leave m₀.frame))
      (last : ∀ q' c, At o ⟨n + 1, .apply (.function f) args, m₀⟩ q' c →
        q' < 0 :: r ∨ 0 :: r <+: q') : Unwinds o a b st v m (q ++ 0 :: r)

/-- A call catches the `return` of the body that it has entered. -/
theorem Inside.caught {n : Nat} {f : ClosureId} {args : List Value} {m₀ : Machine}
    (h : Inside o ⟨n, (m₀.store.closure f).task, m₀.enter (m₀.store.closure f) args⟩ p b)
    (hb : b.outcome o = .signal (.returned v) m)
    (hplan : Value.plan o (.function f) args m₀ =
      .body (m₀.store.closure f) args m₀ fun v m => .finish (.done v m)) :
    Value.apply o (n + 1) (.function f) args m₀ = .done v (m.leave m₀.frame) ∧
      ∀ q c, At o ⟨n + 1, .apply (.function f) args, m₀⟩ q c → q < 0 :: p ∨ 0 :: p <+: q := by
  have hbody : (m₀.store.closure f).task.eval o n (m₀.enter (m₀.store.closure f) args) =
      .signal (.returned v) m := h.outcome_eq hb
  refine ⟨?_, fun q c hc => ?_⟩
  · rw [Value.apply_succ, hplan, Plan.run, hbody]
    rfl
  · cases hc with
    | here => exact .inl (List.nil_lt_cons 0 p)
    | inside begins rest =>
      rw [Task.plan, hplan] at begins
      obtain - | - | - | ⟨-, ⟨⟩⟩ := begins
      obtain hlt | hprefix := h.lt_or_below hb rest
      · exact .inl (List.cons_lt_cons_iff.mpr (.inr ⟨rfl, hlt⟩))
      · exact .inr (List.cons_prefix_cons.mpr ⟨rfl, hprefix⟩)

/-- A `return` ends the call of the body in which it stands, and everything if there is none. -/
theorem At.unwinds (h : a.At o p b) (hb : b.Returns o v m st) : a.Unwinds o b st v m p := by
  induction h with
  | here a =>
    exact .whole (.here a) hb.mem_returns hb.outcome_eq fun q c _ => .inr List.nil_prefix
  | @inside n i p t t' m₀ m₁ b begins rest ih =>
    cases ih hb with
    | call call literal inside stands ends last =>
      have hcall := At.inside begins call
      exact .call hcall (hcall.defines _) inside stands ends last
    | whole inside stands ends last =>
      by_cases hcall : t.IsCall
      · obtain ⟨f, args, rfl⟩ := hcall
        obtain ⟨c, rfl, hplan⟩ | ⟨r, hplan, -⟩ := f.plan_cases o args m₀
        · rw [Task.plan, hplan] at begins
          obtain - | - | - | ⟨-, ⟨⟩⟩ := begins
          obtain ⟨hend, hlast⟩ := inside.caught hb.outcome_eq hplan
          exact .call (q := []) (.here _) (.made c rfl) inside stands hend hlast
        · rw [Task.plan, hplan] at begins
          cases begins
      · have hall : Inside o ⟨n + 1, t, m₀⟩ (i :: p) b := .begun hcall begins inside
        exact .whole hall (hall.returns_subset hb.mem_returns) (hall.outcome_eq hb.outcome_eq)
          fun q c hc => hall.lt_or_below hb.outcome_eq hc

/-- A `return` leaves exactly one function. Calls never end with a `return`, and neither does what has
none outside of the function literals in it. A `return` that is carried out ends the last call on the
way to it, which is the call of a function whose literal is the innermost one around the statement:
nothing else is evaluated before the call has its value. If there is no call on the way, it ends the
whole evaluation. So a program ends early when, and only when, a `return` is carried out that stands
outside of all function literals in it, and it is completed with the value of that. -/
theorem return_leaves_one (o : Options) :
    (∀ n f args m v m', Value.apply o n f args m ≠ .signal (.returned v) m') ∧
    (∀ n (t : Task) m v m', t.returns = [] → t.eval o n m ≠ .signal (.returned v) m') ∧
    (∀ a b p st v m, At o a p b → b.Returns o v m st → a.Unwinds o b st v m p) ∧
    ∀ fuel (p : Program) m v m',
      (Stmt.evalAll o fuel p none m = .signal (.returned v) m' ↔
        ∃ q b st, st ∈ Stmt.returnsAll p ∧ Inside o ⟨fuel, .stmts p none, m⟩ q b ∧
          b.Returns o v m' st) ∧
      (Stmt.evalAll o fuel p none m = .signal (.returned v) m' →
        Program.eval o fuel p m = some (.completed (some v), m')) := by
  refine ⟨Value.apply_ne_returned, fun n t m v m' ht => ?_, fun a b p st v m h hb => h.unwinds hb,
    fun fuel p m v m' => ⟨⟨fun h => ?_, ?_⟩, fun h => ?_⟩⟩
  · exact outcome_ne_returned (a := ⟨n, t, m⟩) ht
  · obtain ⟨q, b, st, hb, hst⟩ := exists_returns (a := ⟨fuel, .stmts p none, m⟩) h
    exact ⟨q, b, st, hb.returns_subset hst.mem_returns, hb, hst⟩
  · rintro ⟨q, b, st, -, hb, hst⟩
    exact hb.outcome_eq hst.outcome_eq
  · rw [Program.eval, h]
    rfl

/-- The function `fn(x) { for (;;) { [1, if (x) { return 7; }]; } }`, which never ends but for the
`return`. -/
def escaping : Expr :=
  let seven : Stmt := .ret (.int 7 .nowhere) .nowhere
  let pair : Expr :=
    .array [.int 1 .nowhere, .cond (.ident "x" .nowhere) ⟨[seven], .nowhere⟩ none .nowhere] .nowhere
  .function ["x"] ⟨[.forLoop none none none ⟨[.expr pair .nowhere], .nowhere⟩ .nowhere], .nowhere⟩
    .nowhere .nowhere

/-- The `return` in the loop ends the call `escaping(true)` with its value. The `return` of the program
around this call ends the program with the value of the call, so the second call is not evaluated. -/
theorem return_leaves_one_escaping :
    let called : Expr := .call escaping [.bool true .nowhere] .nowhere
    let seven : Stmt := .ret (.int 7 .nowhere) .nowhere
    let a : Moment := ⟨20, .stmts [.ret called .nowhere, .expr called .nowhere] none, .initial⟩
    (∃ b m, a.At {} [0, 0, 2, 0, 0, 0, 1, 0, 0, 0, 1, 0, 1, 0] b ∧ b.Returns {} (.int 7) m seven ∧
      a.Unwinds {} b seven (.int 7) m [0, 0, 2, 0, 0, 0, 1, 0, 0, 0, 1, 0, 1, 0]) ∧
    ∃ m, Program.eval {} 20 [.ret called .nowhere, .expr called .nowhere] .initial =
      some (.completed (some (.int 7)), m) := by
  intro called seven a
  obtain ⟨b, hb, hret⟩ : ∃ b : Moment, a.At {} [0, 0, 2, 0, 0, 0, 1, 0, 0, 0, 1, 0, 1, 0] b ∧
      b.Returns {} (.int 7) b.machine seven :=
    ⟨_, .inside .after <| .inside .after <| .inside (.later rfl (.later rfl .after)) <|
      .inside .body <| .inside .after <| .inside .after <| .inside (.later rfl .after) <|
      .inside .after <| .inside .after <| .inside .after <| .inside (.later rfl .after) <|
      .inside .after <| .inside (.later rfl .after) <| .inside .after <| .here _, .step rfl⟩
  exact ⟨⟨b, b.machine, hb, hret, (return_leaves_one {}).2.2.1 _ _ _ _ _ _ hb hret⟩, _,
    ((return_leaves_one {}).2.2.2 20 _ _ _ _).2 rfl⟩

end Moment

end MonkeyLang
