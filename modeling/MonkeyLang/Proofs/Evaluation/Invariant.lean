import MonkeyLang.Proofs.Evaluation.Kept
import MonkeyLang.Proofs.Evaluation.Moments

/-!
# Invariants of evaluation

What holds at every moment of an evaluation and when it ends. A property of machines may hold only as
long as certain things are evaluated, and it may say something else inside the body of a function than
outside of it. So an invariant has an index: `Fits i` are the tasks that may be evaluated under it and
`Holds i` is the property then. The body of a function has an index of its own, and when it is left
the property of the caller has to hold again.

## Main statements

* `Invariant.leaves`, `Invariant.reaches` : an invariant holds when an evaluation ends and at every
  moment that it comes to.
* `Kept.invariant` : a relation to the machine at the start that every change keeps is an invariant.
-/

namespace MonkeyLang

variable {α : Type} {o : Options}

/-- A property that single changes of a machine keep, apart from new functions and calls. -/
structure Stable (o : Options) (I : Machine → Prop) : Prop where
  bind : ∀ m x v, I m → I (m.bind x v)
  assign : ∀ m x v, I m → I (m.assign o.assign x v)
  put : ∀ m slot p, I m → I (m.put slot p)
  newArray : ∀ m items, I m → I { m with store := (m.store.addArray items).2 }
  newHash : ∀ m d, I m → I { m with store := (m.store.addHash d).2 }
  print : ∀ m line, I m → I (m.print line)

/-- The call of the function `c` with the arguments `args` is carried out in the machine. -/
structure Machine.Enters (o : Options) (m : Machine) (c : Closure) (args : List Value) : Prop where
  defined : ∃ id, c = m.store.closure id
  arity : c.params.length = args.length
  allowed : o.forbids m.depth = none

theorem Outcome.Leaves.leaveTo {r : Outcome (Option Value)} {I : Machine → Prop} {caller : FrameId}
    (h : r.Leaves fun m => I (m.leave caller)) : (r.leaveTo caller).Leaves I := by
  cases r with
  | signal s m => cases s <;> exact h
  | done | outOfFuel => exact h

/-- What holds of all functions in the store and of a new one holds of all with it. -/
theorem Store.forall_closure_addClosure {P : Closure → Prop} {s : Store} {c : Closure}
    (h : ∀ id, P (s.closure id)) (hc : P c) (id : ClosureId) :
    P ((s.addClosure c).2.closure id) := by
  simp only [addClosure, closure, Array.getD_eq_getD_getElem?, Array.getElem?_push]
  split
  · exact hc
  · exact Array.getD_eq_getD_getElem? ▸ h id

/-! ### Plans -/

namespace Plan

/-- All tasks of the plan have the property `F`. -/
def Within (F : Task → Prop) : Plan α → Prop
  | .finish _ => True
  | .after t _ next => F t ∧ ∀ a m, (next a m).Within F
  | .body _ _ _ next => ∀ v m, (next v m).Within F

/-- The property `I` holds wherever the plan begins something and where it ends, as long as what it
begins keeps it. -/
def Keeps (o : Options) (I : Machine → Prop) : Plan α → Prop
  | .finish r => r.Leaves I
  | .after _ m next => I m ∧ ∀ a m', I m' → (next a m').Keeps o I
  | .body c args m next => (I m ∧ m.Enters o c args) ∧ ∀ v m', I m' → (next v m').Keeps o I

theorem within_true (p : Plan α) : p.Within fun _ => True := by
  induction p with
  | finish => trivial
  | after _ _ _ ih => exact ⟨trivial, ih⟩
  | body _ _ _ _ ih => exact ih

section

variable {rec : (t : Task) → Machine → Outcome t.Result} {F : Task → Prop} {I : Machine → Prop}
  (hrec : ∀ t m, F t → I m → (rec t m).Leaves I)
  (hbody : ∀ c args m, I m → m.Enters o c args →
    ((rec c.task (m.enter c args)).leaveTo m.frame).Leaves I)
include hrec hbody

theorem Keeps.leaves {p : Plan α} (hp : p.Keeps o I) (hF : p.Within F) : (p.run rec).Leaves I := by
  induction p with
  | finish => exact hp
  | after t m next ih =>
    have ht := hrec t m hF.1 hp.1
    rw [run]
    cases hr : rec t m with
    | done a m' => exact ih a m' (hp.2 a m' (by rwa [hr] at ht)) (hF.2 a m')
    | signal | outOfFuel => rwa [hr] at ht
  | body c args m next ih =>
    have hc := hbody c args m hp.1.1 hp.1.2
    rw [run]
    cases hr : (rec c.task (m.enter c args)).leaveTo m.frame with
    | done v m' => exact ih v m' (hp.2 v m' (by rwa [hr] at hc)) (hF v m')
    | signal | outOfFuel => rwa [hr] at hc

/-- What the plan begins is one of its tasks or the body of a function. -/
theorem Keeps.begins {p : Plan α} {j : Nat} {t : Task} {m : Machine} (hp : p.Keeps o I)
    (hF : p.Within F) (h : p.Begins rec j t m) :
    (j = 0 ∧ F t ∧ I m) ∨
      ∃ c args m₀, j = 1 ∧ t = c.task ∧ m = m₀.enter c args ∧ I m₀ ∧ m₀.Enters o c args := by
  induction h with
  | after => exact .inl ⟨rfl, hF.1, hp.1⟩
  | @later t _ m m' _ a _ _ ends _ ih =>
    have ht := hrec t m hF.1 hp.1
    rw [ends] at ht
    exact ih (hp.2 a m' ht) (hF.2 a m')
  | @body c args m => exact .inr ⟨c, args, m, rfl, rfl, rfl, hp.1⟩
  | @left c args _ m m' _ v _ _ ends _ ih =>
    have hc := hbody c args m hp.1.1 hp.1.2
    rw [ends] at hc
    exact ih (hp.2 v m' hc) (hF v m')

end

end Plan

/-! ### The plans of the tasks -/

namespace Stable

variable {I : Machine → Prop} (hI : Stable o I) {m : Machine} (hm : I m)
include hI hm

theorem builtin (b : Builtin) (args : List Value) : (b.call args m).Leaves I := by
  have h : KeptByBuiltins fun m m' => I m → I m' := {
    refl := fun _ h => h
    trans := fun h h' hm => h' (h hm)
    newArray := fun m items => hI.newArray m items
    print := fun m line => hI.print m line }
  exact (h.call_leaves b args m).mono fun _ h => h hm

theorem exprPlan (e : Expr)
    (hfun : ∀ params body bare span, e = .function params body bare span →
      (m.newFunction params body).Leaves I) : (e.plan m).Keeps o I := by
  cases e with
  | int | bool | str => exact hm
  | ident x =>
    rw [Expr.plan]
    split
    · exact hm
    · split <;> exact hm
  | array items => exact ⟨hm, fun vs m' h => hI.newArray m' _ h⟩
  | hash entries => exact ⟨hm, fun d m' h => hI.newHash m' d h⟩
  | unary op e => exact ⟨hm, fun v m' h => .ofExcept h⟩
  | binary op left right => exact ⟨hm, fun v m₁ h₁ => ⟨h₁, fun w m₂ h₂ => .ofExcept h₂⟩⟩
  | cond test thenBlock elseBlock =>
    refine ⟨hm, fun v m' h => ?_⟩
    dsimp only
    split
    · exact ⟨h, fun w m'' h' => h'⟩
    · cases elseBlock with
      | none => exact h
      | some b => exact ⟨h, fun w m'' h' => h'⟩
  | function params body bare span => exact hfun params body bare span rfl
  | call callee args =>
    exact ⟨hm, fun f m₁ h₁ => ⟨h₁, fun vs m₂ h₂ => ⟨h₂, fun v m₃ h₃ => h₃⟩⟩⟩
  | index base place => exact ⟨hm, fun v m₁ h₁ => ⟨h₁, fun w m₂ h₂ => .ofExcept h₂⟩⟩
  | assign target value => exact ⟨hm, fun v m' h => h⟩

theorem assignPlan (target value : Expr) : (Expr.assignPlan o target value m).Keeps o I := by
  cases target with
  | ident x =>
    rw [Expr.assignPlan]
    split
    · exact ⟨hm, fun v m' h => hI.assign m' x v h⟩
    · exact hm
  | index base place =>
    refine ⟨hm, fun v m₁ h₁ => ⟨h₁, fun w m₂ h₂ => ?_⟩⟩
    dsimp only
    split
    · exact h₂
    next slot _ => exact ⟨h₂, fun u m₃ h₃ => hI.put m₃ slot ⟨w, u⟩ h₃⟩
  | _ => exact hm

theorem stmtPlan (s : Stmt) : (s.plan m).Keeps o I := by
  cases s with
  | letBind x value => exact ⟨hm, fun v m' h => hI.bind m' x v h⟩
  | ret value | expr value => exact ⟨hm, fun v m' h => h⟩
  | forLoop init =>
    cases init with
    | none => exact ⟨hm, fun v m' h => h⟩
    | some init => exact ⟨hm, fun _ m₁ h₁ => ⟨h₁, fun v m₂ h₂ => h₂⟩⟩

theorem callPlan (f : Value) (args : List Value) : (f.plan o args m).Keeps o I := by
  cases f with
  | function c =>
    rw [Value.plan]
    split
    · exact hm
    next arity =>
      split
      · exact hm
      next allowed =>
        exact ⟨⟨hm, ⟨c, rfl⟩, Decidable.not_not.1 arity, allowed⟩, fun v m' h => h⟩
  | builtin b => exact hI.builtin hm b args
  | _ => exact hm

/-- A property that single changes keep is kept by the plan of every task, if the function that it may
make keeps it. -/
theorem plan (t : Task)
    (hfun : ∀ params body bare span, t = .expr (.function params body bare span) →
      (m.newFunction params body).Leaves I) : (t.plan o m).Keeps o I := by
  cases t with
  | expr e => exact hI.exprPlan hm e fun params body bare span h => hfun params body bare span (h ▸ rfl)
  | exprs es =>
    cases es with
    | nil => exact hm
    | cons e es => exact ⟨hm, fun v m₁ h₁ => ⟨h₁, fun vs m₂ h₂ => h₂⟩⟩
  | entries es d =>
    cases es with
    | nil => exact hm
    | cons entry es =>
      refine ⟨hm, fun v m₁ h₁ => ?_⟩
      dsimp only
      split
      · exact h₁
      · exact ⟨h₁, fun w m₂ h₂ => ⟨h₂, fun d m₃ h₃ => h₃⟩⟩
  | part e =>
    cases e with
    | none => exact hm
    | some e => exact ⟨hm, fun v m' h => h⟩
  | assign target value => exact hI.assignPlan hm target value
  | stmt s => exact hI.stmtPlan hm s
  | stmts ss last =>
    cases ss with
    | nil => exact hm
    | cons s ss => exact ⟨hm, fun v m₁ h₁ => ⟨h₁, fun v m₂ h₂ => h₂⟩⟩
  | loop test after body last =>
    refine ⟨hm, fun v m₁ h₁ => ?_⟩
    dsimp only
    split
    · exact ⟨h₁, fun last m₂ h₂ => ⟨h₂, fun _ m₃ h₃ => ⟨h₃, fun v m₄ h₄ => h₄⟩⟩⟩
    · exact h₁
  | apply f args => exact hI.callPlan hm f args

end Stable

/-! ### Invariants -/

/-- An invariant of evaluation under the given options. The indices tell apart the places from which a
task may be evaluated. -/
structure Invariant {ι : Type} (o : Options) (Fits : ι → Task → Prop) (Holds : ι → Machine → Prop) :
    Prop where
  within : ∀ i t m, Fits i t → (t.plan o m).Within (Fits i)
  stable : ∀ i, Stable o (Holds i)
  function : ∀ i params body bare span m, Fits i (.expr (.function params body bare span)) →
    Holds i m → (m.newFunction params body).Leaves (Holds i)
  call : ∀ i c args m, Holds i m → m.Enters o c args →
    ∃ j, Fits j c.task ∧ Holds j (m.enter c args) ∧ ∀ m', Holds j m' → Holds i (m'.leave m.frame)

namespace Invariant

variable {ι : Type} {Fits : ι → Task → Prop} {Holds : ι → Machine → Prop}
  (hI : Invariant o Fits Holds)
include hI

theorem planKeeps {i : ι} {t : Task} {m : Machine} (ht : Fits i t) (hm : Holds i m) :
    (t.plan o m).Keeps o (Holds i) :=
  (hI.stable i).plan hm t fun params body bare span h =>
    hI.function i params body bare span m (h ▸ ht) hm

/-- An invariant holds when an evaluation ends, in whatever way. -/
theorem leaves (n : Nat) {i : ι} {t : Task} {m : Machine} (ht : Fits i t) (hm : Holds i m) :
    (t.eval o n m).Leaves (Holds i) := by
  induction n generalizing i t m with
  | zero =>
    rw [Task.eval_zero]
    trivial
  | succ n ih =>
    rw [Task.eval_succ]
    refine (hI.planKeeps ht hm).leaves (fun t m => ih) (fun c args m hm henter => ?_)
      (hI.within i t m ht)
    obtain ⟨j, htask, hin, hout⟩ := hI.call i c args m hm henter
    exact Outcome.Leaves.leaveTo ((ih htask hin).mono hout)

/-- An invariant holds again when the body of a function has been left. -/
theorem leaves_body (n : Nat) {i : ι} {c : Closure} {args : List Value} {m : Machine}
    (hm : Holds i m) (henter : m.Enters o c args) :
    ((c.task.eval o n (m.enter c args)).leaveTo m.frame).Leaves (Holds i) := by
  obtain ⟨j, htask, hin, hout⟩ := hI.call i c args m hm henter
  exact Outcome.Leaves.leaveTo ((hI.leaves n htask hin).mono hout)

/-- A moment begins tasks that fit, and bodies of functions. -/
theorem begins {n j : Nat} {i : ι} {t t' : Task} {m m' : Machine} (ht : Fits i t) (hm : Holds i m)
    (h : (t.plan o m).Begins (fun t m => t.eval o n m) j t' m') :
    (j = 0 ∧ Fits i t' ∧ Holds i m') ∨
      ∃ c args m₀, j = 1 ∧ t' = c.task ∧ m' = m₀.enter c args ∧ Holds i m₀ ∧ m₀.Enters o c args := by
  exact (hI.planKeeps ht hm).begins (fun t m => hI.leaves n)
    (fun c args m hm henter => hI.leaves_body n hm henter) (hI.within i t m ht) h

/-- An invariant holds at every moment that an evaluation comes to. -/
theorem reaches {i : ι} {a b : Moment} {k : Nat} (ha : Fits i a.task) (hm : Holds i a.machine)
    (h : a.Reaches o k b) : ∃ i', Fits i' b.task ∧ Holds i' b.machine := by
  induction h generalizing i with
  | refl => exact ⟨i, ha, hm⟩
  | next first _ ih =>
    obtain ⟨hb⟩ := first
    obtain ⟨-, ht, hm'⟩ | ⟨c, args, m₀, -, rfl, rfl, hm₀, henter⟩ := hI.begins ha hm hb
    · exact ih ht hm'
    · obtain ⟨i', ht, hm', -⟩ := hI.call i c args m₀ hm₀ henter
      exact ih ht hm'

end Invariant

/-- A relation to the machine at the start that every change keeps is an invariant, whatever is
evaluated. In the body of a function, the start is where the body is entered. -/
theorem Kept.invariant {R : Machine → Machine → Prop} (hR : Kept o R) :
    Invariant o (fun _ _ => True) R where
  within _ _ _ _ := Plan.within_true _
  stable _ := {
    bind := fun m x v h => hR.trans h (hR.bind m x v)
    assign := fun m x v h => hR.trans h (hR.assign m x v)
    put := fun m slot p h => hR.trans h (hR.put m slot p)
    newArray := fun m items h => hR.trans h (hR.newArray m items)
    newHash := fun m d h => hR.trans h (hR.newHash m d)
    print := fun m line h => hR.trans h (hR.print m line) }
  function _ params body _ _ m _ h := hR.trans h (hR.newFunction m ⟨params, body, m.frame⟩)
  call _ c args m h henter :=
    ⟨m.enter c args, trivial, hR.refl _,
      fun m' h' => hR.trans h (hR.call m c args m' henter.allowed h')⟩

end MonkeyLang
