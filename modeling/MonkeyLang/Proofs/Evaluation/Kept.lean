import MonkeyLang.Eval

/-!
# What evaluation keeps

A relation between the machine before an evaluation and the machine after it holds for every
evaluation if it holds for every single change and goes from change to change. The single changes
are few: a name is bound or assigned to, a slot is filled, something new is made, a line is printed.
A call is the evaluation of a body between entering and leaving a function.

`Kept` collects what has to be known of a relation, `KeptIn` what follows for all that is evaluated in
a number of steps, and there is one lemma for the step of each evaluator.

## Main statements

* `Kept.keptIn` : a relation that every change keeps is kept by every evaluation.
-/

namespace MonkeyLang

variable {α β : Type}

/-- If the evaluation ended, by a result or by a signal, it has left a machine with the property
`P`. -/
def Outcome.Leaves (o : Outcome α) (P : Machine → Prop) : Prop :=
  match o with
  | .done _ m => P m
  | .signal _ m => P m
  | .outOfFuel => True

/-- What a relation needs so that built-in functions keep it. -/
structure KeptByBuiltins (R : Machine → Machine → Prop) : Prop where
  refl : ∀ m, R m m
  trans : ∀ {m m' m''}, R m m' → R m' m'' → R m m''
  newArray : ∀ m items, R m { m with store := (m.store.addArray items).2 }
  print : ∀ m line, R m (m.print line)

/-- What a relation needs so that evaluation under the given options keeps it. -/
structure Kept (o : Options) (R : Machine → Machine → Prop) : Prop extends KeptByBuiltins R where
  bind : ∀ m x v, R m (m.bind x v)
  assign : ∀ m x v, R m (m.assign o.assign x v)
  put : ∀ m slot p, R m (m.put slot p)
  newHash : ∀ m d, R m { m with store := (m.store.addHash d).2 }
  newFunction : ∀ m c, R m { m with store := (m.store.addClosure c).2 }
  call : ∀ m c args m', o.forbids m.depth = none → R (m.enter c args) m' → R m (m'.leave m.frame)

namespace Outcome.Leaves

variable {P Q : Machine → Prop} {o : Outcome α}

theorem mono (h : o.Leaves P) (hQ : ∀ m, P m → Q m) : o.Leaves Q := by
  cases o with
  | done _ m => exact hQ m h
  | signal _ m => exact hQ m h
  | outOfFuel => trivial

theorem ofExcept {r : Except RuntimeError α} {m : Machine} (h : P m) :
    (Outcome.ofExcept r m).Leaves P := by
  cases r <;> exact h

end Outcome.Leaves

namespace KeptByBuiltins

variable {R : Machine → Machine → Prop} (hR : KeptByBuiltins R) {m : Machine}
include hR

/-- What follows goes on from the machine that has been left. -/
theorem andThen {r : Outcome α} {next : α → Machine → Outcome β} (h : r.Leaves (R m))
    (hn : ∀ a m', (next a m').Leaves (R m')) : (r.andThen next).Leaves (R m) := by
  cases r with
  | done a m' => exact (hn a m').mono fun m'' h' => hR.trans h h'
  | signal _ m' => exact h
  | outOfFuel => trivial

theorem map {r : Outcome α} {f : α → β} (h : r.Leaves (R m)) : (r.map f).Leaves (R m) :=
  hR.andThen h fun _ m' => hR.refl m'

/-- Built-in functions make arrays and print. -/
theorem call_leaves (b : Builtin) (args : List Value) (m : Machine) :
    (b.call args m).Leaves (R m) := by
  have hprint (vs : List Value) (m : Machine) :
      R m (vs.foldl (fun m v => m.print (m.store.render v)) m) := by
    induction vs generalizing m with
    | nil => exact hR.refl m
    | cons v vs ih => exact hR.trans (hR.print m _) (ih _)
  unfold Builtin.call
  split
  next => exact hR.refl m
  next =>
    unfold Builtin.run
    split <;> first | exact hR.refl m | exact hR.newArray m _ | exact hprint args m

end KeptByBuiltins

/-! ### The steps of evaluation -/

/-- What the evaluators keep in `n` steps. -/
structure KeptIn (o : Options) (R : Machine → Machine → Prop) (n : Nat) : Prop where
  expr : ∀ e m, (Expr.eval o n e m).Leaves (R m)
  exprs : ∀ es m, (Expr.evalAll o n es m).Leaves (R m)
  entries : ∀ es d m, (Expr.evalEntries o n es d m).Leaves (R m)
  part : ∀ e m, (Expr.evalPart o n e m).Leaves (R m)
  assign : ∀ target value m, (Expr.evalAssign o n target value m).Leaves (R m)
  stmt : ∀ s m, (Stmt.eval o n s m).Leaves (R m)
  stmts : ∀ ss last m, (Stmt.evalAll o n ss last m).Leaves (R m)
  loop : ∀ test after body last m, (Stmt.evalLoop o n test after body last m).Leaves (R m)
  apply : ∀ f args m, (Value.apply o n f args m).Leaves (R m)

namespace KeptIn

variable {o : Options} {R : Machine → Machine → Prop} {n : Nat}

theorem zero : KeptIn o R 0 := by
  constructor <;> intros <;> trivial

/-- A call leaves the machine as it is, or after a body, or as a built-in function does. -/
theorem apply_leaves (ih : KeptIn o R n) {m : Machine} {P : Machine → Prop} (f : Value)
    (args : List Value) (hstay : P m)
    (hbody : ∀ c m', o.forbids m.depth = none → R (m.enter c args) m' → P (m'.leave m.frame))
    (hbuiltin : ∀ b : Builtin, (b.call args m).Leaves P) :
    (Value.apply o (n + 1) f args m).Leaves P := by
  cases f with
  | function c =>
    rw [Value.apply]
    dsimp only
    split
    next => exact hstay
    next =>
      split
      next => exact hstay
      next hdepth =>
        have hrun := ih.stmts (m.store.closure c).body.statements none
          (m.enter (m.store.closure c) args)
        cases hend : Stmt.evalAll o n (m.store.closure c).body.statements none
            (m.enter (m.store.closure c) args) with
        | done v m' =>
          rw [hend] at hrun
          exact hbody _ m' hdepth hrun
        | signal s m' =>
          rw [hend] at hrun
          cases s <;> exact hbody _ m' hdepth hrun
        | outOfFuel => trivial
  | builtin b => exact hbuiltin b
  | _ => exact hstay

section Step

variable (hR : Kept o R) (ih : KeptIn o R n) (m : Machine)
include hR ih

theorem expr_succ (e : Expr) : (Expr.eval o (n + 1) e m).Leaves (R m) := by
  cases e with
  | int | bool | str => exact hR.refl m
  | ident x =>
    rw [Expr.eval]
    split
    next => exact hR.refl m
    next => split <;> exact hR.refl m
  | array items =>
    rw [Expr.eval]
    exact hR.andThen (ih.exprs items m) fun vs m' => hR.newArray m' _
  | hash entries =>
    rw [Expr.eval]
    exact hR.andThen (ih.entries entries .empty m) fun d m' => hR.newHash m' d
  | unary op e =>
    rw [Expr.eval]
    exact hR.andThen (ih.expr e m) fun v m' => .ofExcept (hR.refl m')
  | binary op left right =>
    rw [Expr.eval]
    exact hR.andThen (ih.expr left m) fun v m₁ =>
      hR.andThen (ih.expr right m₁) fun w m₂ => .ofExcept (hR.refl m₂)
  | cond test thenBlock elseBlock =>
    rw [Expr.eval]
    refine hR.andThen (ih.expr test m) fun v m' => ?_
    split
    next => exact hR.map (ih.stmts _ _ m')
    next =>
      split
      next => exact hR.map (ih.stmts _ _ m')
      next => exact hR.refl m'
  | function params body =>
    rw [Expr.eval]
    exact hR.newFunction m _
  | call callee args =>
    rw [Expr.eval]
    exact hR.andThen (ih.expr callee m) fun f m₁ =>
      hR.andThen (ih.exprs args m₁) fun vs m₂ => ih.apply f vs m₂
  | index base place =>
    rw [Expr.eval]
    exact hR.andThen (ih.expr base m) fun v m₁ =>
      hR.andThen (ih.expr place m₁) fun w m₂ => .ofExcept (hR.refl m₂)
  | assign target value =>
    rw [Expr.eval]
    exact ih.assign target value m

theorem exprs_succ (es : List Expr) : (Expr.evalAll o (n + 1) es m).Leaves (R m) := by
  cases es with
  | nil => exact hR.refl m
  | cons e es =>
    rw [Expr.evalAll]
    exact hR.andThen (ih.expr e m) fun v m' => hR.map (ih.exprs es m')

theorem entries_succ (es : List (Expr × Expr)) (d : Dict Key Pair) :
    (Expr.evalEntries o (n + 1) es d m).Leaves (R m) := by
  cases es with
  | nil => exact hR.refl m
  | cons entry es =>
    obtain ⟨key, value⟩ := entry
    rw [Expr.evalEntries]
    refine hR.andThen (ih.expr key m) fun v m₁ => ?_
    split
    next => exact hR.refl m₁
    next k _ => exact hR.andThen (ih.expr value m₁) fun w m₂ => ih.entries es _ m₂

theorem part_succ (e : Option Expr) : (Expr.evalPart o (n + 1) e m).Leaves (R m) := by
  cases e with
  | none => exact hR.refl m
  | some e =>
    rw [Expr.evalPart]
    exact hR.map (ih.expr e m)

theorem assign_succ (target value : Expr) :
    (Expr.evalAssign o (n + 1) target value m).Leaves (R m) := by
  cases target with
  | ident x =>
    rw [Expr.evalAssign]
    split
    next => exact hR.andThen (ih.expr value m) fun v m' => hR.assign m' x v
    next => exact hR.refl m
  | index base place =>
    rw [Expr.evalAssign]
    refine hR.andThen (ih.expr base m) fun v m₁ =>
      hR.andThen (ih.expr place m₁) fun w m₂ => ?_
    split
    next => exact hR.refl m₂
    next slot _ => exact hR.andThen (ih.expr value m₂) fun u m₃ => hR.put m₃ slot ⟨w, u⟩
  | _ => exact hR.refl m

theorem stmt_succ (s : Stmt) : (Stmt.eval o (n + 1) s m).Leaves (R m) := by
  cases s with
  | letBind x value =>
    rw [Stmt.eval]
    exact hR.andThen (ih.expr value m) fun v m' => hR.bind m' x v
  | ret value =>
    rw [Stmt.eval]
    exact hR.andThen (ih.expr value m) fun v m' => hR.refl m'
  | expr value =>
    rw [Stmt.eval]
    exact hR.map (ih.expr value m)
  | forLoop init test after body =>
    cases init with
    | none =>
      rw [Stmt.eval]
      exact ih.loop test after body none m
    | some init =>
      rw [Stmt.eval]
      exact hR.andThen (ih.stmt init m) fun _ m' => ih.loop test after body none m'

theorem stmts_succ (ss : List Stmt) (last : Option Value) :
    (Stmt.evalAll o (n + 1) ss last m).Leaves (R m) := by
  cases ss with
  | nil => exact hR.refl m
  | cons s ss =>
    rw [Stmt.evalAll]
    exact hR.andThen (ih.stmt s m) fun v m' => ih.stmts ss v m'

theorem loop_succ (test after : Option Expr) (body : Block) (last : Option Value) :
    (Stmt.evalLoop o (n + 1) test after body last m).Leaves (R m) := by
  rw [Stmt.evalLoop]
  refine hR.andThen (ih.part test m) fun v m₁ => ?_
  split
  next =>
    exact hR.andThen (ih.stmts body.statements none m₁) fun last m₂ =>
      hR.andThen (ih.part after m₂) fun _ m₃ => ih.loop test after body last m₃
  next => exact hR.refl m₁

theorem apply_succ (f : Value) (args : List Value) :
    (Value.apply o (n + 1) f args m).Leaves (R m) :=
  ih.apply_leaves f args (hR.refl m) (fun c m' hdepth h => hR.call m c args m' hdepth h)
    fun b => hR.call_leaves b args m

end Step

end KeptIn

/-- A relation that every change keeps is kept by every evaluation. -/
theorem Kept.keptIn {o : Options} {R : Machine → Machine → Prop} (hR : Kept o R) (n : Nat) :
    KeptIn o R n := by
  induction n with
  | zero => exact .zero
  | succ n ih =>
    exact {
      expr := fun e m => ih.expr_succ hR m e
      exprs := fun es m => ih.exprs_succ hR m es
      entries := fun es d m => ih.entries_succ hR m es d
      part := fun e m => ih.part_succ hR m e
      assign := fun target value m => ih.assign_succ hR m target value
      stmt := fun s m => ih.stmt_succ hR m s
      stmts := fun ss last m => ih.stmts_succ hR m ss last
      loop := fun test after body last m => ih.loop_succ hR m test after body last
      apply := fun f args m => ih.apply_succ hR m f args }

end MonkeyLang
