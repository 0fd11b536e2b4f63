import MonkeyLang.Eval

/-!
# Evaluation as a plan

The evaluators are many, but what one step of them does always has the same form: other things are
evaluated one after the other, each chosen by the results of those before it, or the body of a
function is, or there is a result. `Task` names all that can be evaluated, and `Task.plan` says of
each task what its first step is. A plan does not evaluate anything by itself; `Plan.run` carries it
out, given a way to evaluate tasks.

What is proved of all plans then holds of all evaluators.

## Main statements

* `Task.eval_succ` : evaluation with one more unit of fuel carries out the plan of the task.
-/

namespace MonkeyLang

variable {α β : Type}

/-! ### Tasks -/

/-- What can be evaluated. -/
inductive Task where
  /-- An expression. -/
  | expr (e : Expr)
  /-- Expressions, from left to right. -/
  | exprs (es : List Expr)
  /-- Entries of a hash literal, which are added to the dictionary `d`. -/
  | entries (es : List (Expr × Expr)) (d : Dict Key Pair)
  /-- A part of a loop's header, if it is there. -/
  | part (e : Option Expr)
  /-- An assignment. -/
  | assign (target value : Expr)
  /-- A statement. -/
  | stmt (s : Stmt)
  /-- Statements, one after the other. -/
  | stmts (ss : List Stmt) (last : Option Value)
  /-- The rounds of a loop that are still to come. -/
  | loop (test after : Option Expr) (body : Block) (last : Option Value)
  /-- The call of `f` with arguments. -/
  | apply (f : Value) (args : List Value)

namespace Task

/-- The type of the result of a task. -/
abbrev Result : Task → Type
  | .expr _ | .assign _ _ | .apply _ _ => Value
  | .exprs _ => List Value
  | .entries _ _ => Dict Key Pair
  | .part _ | .stmt _ | .stmts _ _ | .loop _ _ _ _ => Option Value

/-- The evaluation of a task in the given number of steps. -/
def eval (o : Options) (n : Nat) : (t : Task) → Machine → Outcome t.Result
  | .expr e, m => Expr.eval o n e m
  | .exprs es, m => Expr.evalAll o n es m
  | .entries es d, m => Expr.evalEntries o n es d m
  | .part e, m => Expr.evalPart o n e m
  | .assign target value, m => Expr.evalAssign o n target value m
  | .stmt s, m => Stmt.eval o n s m
  | .stmts ss last, m => Stmt.evalAll o n ss last m
  | .loop test after body last, m => Stmt.evalLoop o n test after body last m
  | .apply f args, m => Value.apply o n f args m

theorem eval_zero (o : Options) (t : Task) (m : Machine) : t.eval o 0 m = .outOfFuel := by
  cases t <;> rfl

end Task

/-! ### Plans -/

/-- What is to be done, up to a result of type `α`. -/
inductive Plan (α : Type) where
  /-- Ends with an outcome. -/
  | finish (outcome : Outcome α)
  /-- Evaluates the task `t` and goes on with its result. -/
  | after (t : Task) (m : Machine) (next : t.Result → Machine → Plan α)
  /-- Evaluates the body of the function `c`, leaves it and goes on with the value of the call. -/
  | body (c : Closure) (args : List Value) (m : Machine) (next : Value → Machine → Plan α)

/-- The outcome of a call, given that of the body. A `return` ends here, and in every case the
machine goes back to the frame `caller`. -/
def Outcome.leaveTo (caller : FrameId) : Outcome (Option Value) → Outcome Value
  | .done v m => .done (v.getD .null) (m.leave caller)
  | .signal (.returned v) m => .done v (m.leave caller)
  | .signal s m => .signal s (m.leave caller)
  | .outOfFuel => .outOfFuel

/-- What follows matters only after results that there are. -/
theorem Outcome.andThen_congr {r : Outcome α} {f g : α → Machine → Outcome β}
    (h : ∀ a m, r = .done a m → f a m = g a m) : r.andThen f = r.andThen g := by
  cases r with
  | done a m => exact h a m rfl
  | signal | outOfFuel => rfl

/-- The machine in which the body of `c` is evaluated, and the body. -/
abbrev Closure.task (c : Closure) : Task := .stmts c.body.statements none

/-- Carries out a plan, where `rec` evaluates tasks. -/
def Plan.run (rec : (t : Task) → Machine → Outcome t.Result) : Plan α → Outcome α
  | .finish r => r
  | .after t m next => (rec t m).andThen fun a m => (next a m).run rec
  | .body c args m next =>
    ((rec c.task (m.enter c args)).leaveTo m.frame).andThen fun v m => (next v m).run rec

/-- The plan of an expression. -/
def Expr.plan : Expr → Machine → Plan Value
  | .int value _, m => .finish (.done (.int value) m)
  | .bool value _, m => .finish (.done (.bool value) m)
  | .str text _, m => .finish (.done (.str text) m)
  | .ident x _, m =>
    match m.lookup x with
    | some v => .finish (.done v m)
    | none =>
      match Builtin.ofName? x with
      | some b => .finish (.done (.builtin b) m)
      | none => .finish (.fail (.identifierNotFound x) m)
  | .array items _, m => .after (.exprs items) m fun vs m => .finish (m.newArray vs.toArray)
  | .hash entries _, m => .after (.entries entries .empty) m fun d m => .finish (m.newHash d)
  | .unary op e _, m => .after (.expr e) m fun v m => .finish (.ofExcept (v.unary op) m)
  | .binary op left right _, m =>
    .after (.expr left) m fun v m =>
    .after (.expr right) m fun w m => .finish (.ofExcept (Value.binary op v w) m)
  | .cond test thenBlock elseBlock _, m =>
    .after (.expr test) m fun v m =>
      if v.isTruthy then
        .after (.stmts thenBlock.statements none) m fun v m => .finish (.done (v.getD .null) m)
      else
        match elseBlock with
        | some b => .after (.stmts b.statements none) m fun v m => .finish (.done (v.getD .null) m)
        | none => .finish (.done .null m)
  | .function params body _ _, m => .finish (m.newFunction params body)
  | .call callee args _, m =>
    .after (.expr callee) m fun f m =>
    .after (.exprs args) m fun vs m =>
    .after (.apply f vs) m fun v m => .finish (.done v m)
  | .index base place _, m =>
    .after (.expr base) m fun v m =>
    .after (.expr place) m fun w m => .finish (.ofExcept (m.store.read v w) m)
  | .assign target value _, m => .after (.assign target value) m fun v m => .finish (.done v m)

/-- The plan of an assignment. -/
def Expr.assignPlan (o : Options) : Expr → Expr → Machine → Plan Value
  | .ident x _, value, m =>
    if (m.lookup x).isSome then
      .after (.expr value) m fun v m => .finish (.done .null (m.assign o.assign x v))
    else .finish (.fail (.identifierNotFound x) m)
  | .index base place _, value, m =>
    .after (.expr base) m fun v m =>
    .after (.expr place) m fun w m =>
      match m.store.locate v w with
      | .error e => .finish (.fail e m)
      | .ok slot => .after (.expr value) m fun u m => .finish (.done .null (m.put slot ⟨w, u⟩))
  | _, _, m => .finish (.fail .invalidAssignmentTarget m)

/-- The plan of a statement. -/
def Stmt.plan : Stmt → Machine → Plan (Option Value)
  | .letBind x value _, m =>
    .after (.expr value) m fun v m => .finish (.done none (m.bind x v))
  | .ret value _, m => .after (.expr value) m fun v m => .finish (.signal (.returned v) m)
  | .expr value _, m => .after (.expr value) m fun v m => .finish (.done (some v) m)
  | .forLoop none test after body _, m =>
    .after (.loop test after body none) m fun v m => .finish (.done v m)
  | .forLoop (some init) test after body _, m =>
    .after (.stmt init) m fun _ m =>
    .after (.loop test after body none) m fun v m => .finish (.done v m)

/-- The plan of a call. -/
def Value.plan (o : Options) : Value → List Value → Machine → Plan Value
  | .function c, args, m =>
    let closure := m.store.closure c
    if closure.params.length ≠ args.length then
      .finish (.fail (.wrongArgumentCount args.length closure.params.length) m)
    else
      match o.forbids m.depth with
      | some limit => .finish (.fail (.recursionLimit limit) m)
      | none => .body closure args m fun v m => .finish (.done v m)
  | .builtin b, args, m => .finish (b.call args m)
  | v, _, m => .finish (.fail (.notCallable v.kind) m)

/-- The plan of a task. -/
def Task.plan (o : Options) : (t : Task) → Machine → Plan t.Result
  | .expr e, m => e.plan m
  | .exprs [], m => .finish (.done [] m)
  | .exprs (e :: es), m =>
    .after (.expr e) m fun v m => .after (.exprs es) m fun vs m => .finish (.done (v :: vs) m)
  | .entries [] d, m => .finish (.done d m)
  | .entries ((key, value) :: es) d, m =>
    .after (.expr key) m fun v m =>
      match v.key? with
      | none => .finish (.fail (.unhashable v.kind) m)
      | some k =>
        .after (.expr value) m fun w m =>
        .after (.entries es (d.insert k ⟨v, w⟩)) m fun d m => .finish (.done d m)
  | .part none, m => .finish (.done none m)
  | .part (some e), m => .after (.expr e) m fun v m => .finish (.done (some v) m)
  | .assign target value, m => Expr.assignPlan o target value m
  | .stmt s, m => s.plan m
  | .stmts [] last, m => .finish (.done last m)
  | .stmts (s :: ss) _, m =>
    .after (.stmt s) m fun v m => .after (.stmts ss v) m fun v m => .finish (.done v m)
  | .loop test after body last, m =>
    .after (.part test) m fun v m =>
      if (v.map Value.isTruthy).getD true then
        .after (.stmts body.statements none) m fun last m =>
        .after (.part after) m fun _ m =>
        .after (.loop test after body last) m fun v m => .finish (.done v m)
      else .finish (.done last m)
  | .apply f args, m => f.plan o args m

/-- The options matter to assignments to names, and to calls of functions with as many arguments as
they take. -/
theorem Task.plan_congr {o₁ o₂ : Options} (t : Task) (m : Machine)
    (hassign : ∀ x span value, t = .assign (.ident x span) value → o₁.assign = o₂.assign)
    (hcall : ∀ c args, t = .apply (.function c) args →
      (m.store.closure c).params.length = args.length → o₁.forbids m.depth = o₂.forbids m.depth) :
    t.plan o₁ m = t.plan o₂ m := by
  cases t with
  | exprs es => cases es <;> rfl
  | entries es d => cases es <;> rfl
  | part e => cases e <;> rfl
  | stmts ss last => cases ss <;> rfl
  | assign target value =>
    cases target with
    | ident x span => simp only [Task.plan, Expr.assignPlan, hassign x span value rfl]
    | _ => rfl
  | apply f args =>
    cases f with
    | function c =>
      simp only [Task.plan, Value.plan]
      split
      · rfl
      next arity => rw [hcall c args rfl (Decidable.not_not.1 arity)]
    | _ => rfl
  | expr | stmt | loop => rfl

/-! ### Carrying out the plan -/

section

variable (o : Options) (n : Nat)

@[simp] theorem Outcome.andThen_pure (r : Outcome α) : (r.andThen fun a m => .done a m) = r := by
  cases r <;> rfl

/-- Evaluation of an expression with one more unit of fuel carries out its plan. -/
theorem Expr.eval_succ (e : Expr) (m : Machine) :
    Expr.eval o (n + 1) e m = (e.plan m).run fun t m => t.eval o n m := by
  cases e with
  | ident x =>
    simp only [Expr.eval, Expr.plan]
    cases m.lookup x with
    | some v => rfl
    | none => cases Builtin.ofName? x <;> rfl
  | cond test thenBlock elseBlock =>
    simp only [Expr.eval, Expr.plan, Plan.run, Task.eval]
    refine Outcome.andThen_congr fun v m₁ _ => ?_
    split
    · rfl
    · cases elseBlock <;> rfl
  | call | assign => simp only [Expr.eval, Expr.plan, Plan.run, Task.eval, Outcome.andThen_pure]
  | _ => rfl

theorem Expr.evalAssign_succ (target value : Expr) (m : Machine) :
    Expr.evalAssign o (n + 1) target value m =
      (Expr.assignPlan o target value m).run fun t m => t.eval o n m := by
  cases target with
  | ident x =>
    simp only [Expr.evalAssign, Expr.assignPlan]
    split <;> rfl
  | index base place =>
    simp only [Expr.evalAssign, Expr.assignPlan, Plan.run, Task.eval]
    refine Outcome.andThen_congr fun v m₁ _ => Outcome.andThen_congr fun w m₂ _ => ?_
    split <;> simp_all only [Plan.run]
  | _ => rfl

theorem Stmt.eval_succ (s : Stmt) (m : Machine) :
    Stmt.eval o (n + 1) s m = (s.plan m).run fun t m => t.eval o n m := by
  cases s with
  | forLoop init test after body =>
    cases init <;>
      simp only [Stmt.eval, Stmt.plan, Plan.run, Task.eval, Outcome.andThen_pure]
  | _ => rfl

theorem Value.apply_succ (f : Value) (args : List Value) (m : Machine) :
    Value.apply o (n + 1) f args m = (f.plan o args m).run fun t m => t.eval o n m := by
  cases f with
  | function c =>
    simp only [Value.apply, Value.plan]
    split
    · rfl
    cases o.forbids m.depth with
    | some limit => rfl
    | none =>
      simp only [Plan.run, Task.eval, Outcome.andThen_pure]
      rfl
  | _ => rfl

/-- Evaluation with one more unit of fuel carries out the plan of the task. -/
theorem Task.eval_succ (t : Task) (m : Machine) :
    t.eval o (n + 1) m = (t.plan o m).run fun t m => t.eval o n m := by
  cases t with
  | expr e => exact Expr.eval_succ o n e m
  | exprs es => cases es <;> rfl
  | entries es d =>
    cases es with
    | nil => rfl
    | cons entry es =>
      simp only [Task.eval, Task.plan, Expr.evalEntries, Plan.run]
      refine Outcome.andThen_congr fun v m₁ _ => ?_
      cases v.key? with
      | none => rfl
      | some k => simp only [Plan.run, Outcome.andThen_pure]
  | part e => cases e <;> rfl
  | assign target value => exact Expr.evalAssign_succ o n target value m
  | stmt s => exact Stmt.eval_succ o n s m
  | stmts ss last =>
    cases ss with
    | nil => rfl
    | cons s ss => simp only [Task.eval, Task.plan, Stmt.evalAll, Plan.run, Outcome.andThen_pure]
  | loop test after body last =>
    simp only [Task.eval, Task.plan, Stmt.evalLoop, Plan.run]
    refine Outcome.andThen_congr fun v m₁ _ => ?_
    split
    · simp only [Plan.run, Outcome.andThen_pure]
    · rfl
  | apply f args => exact Value.apply_succ o n f args m

end

end MonkeyLang
