import MonkeyLang.Proofs.Evaluation.Invariant

/-!
# What plans are made of

What a task begins in its first step, bodies of functions apart, is there in the syntax: the parts of
an expression, of a statement, of a loop. `Task.PartOf` lists them, so a property of the syntax that
goes from a whole to its parts holds of all that a plan begins. The rounds of a loop are the one case
in which a part is no smaller than the whole.

A plan hands the machine on from one part to the next. It changes it at its very end only, together
with its result; if it ends with a signal of its own, the machine is the one that the last part has
left.

## Main definitions

* `Task.PartOf` : the parts of a task.
* `Plan.MadeOf` : a plan of such a form.

## Main statements

* `Task.plan_madeOf` : all plans are of this form.
-/

namespace MonkeyLang

namespace Task

/-- The task `p` is a part of the task `t`. -/
inductive PartOf : (p t : Task) → Prop where
  /-- The items of an array literal. -/
  | items {items : List Expr} {span : Span} : PartOf (.exprs items) (.expr (.array items span))
  /-- The entries of a hash literal. -/
  | entries {es : List (Expr × Expr)} {span : Span} :
      PartOf (.entries es .empty) (.expr (.hash es span))
  /-- The operand of a prefix operator. -/
  | operand {op : UnaryOp} {e : Expr} {span : Span} : PartOf (.expr e) (.expr (.unary op e span))
  /-- The left operand of an infix operator. -/
  | left {op : BinaryOp} {left right : Expr} {span : Span} :
      PartOf (.expr left) (.expr (.binary op left right span))
  /-- The right operand of an infix operator. -/
  | right {op : BinaryOp} {left right : Expr} {span : Span} :
      PartOf (.expr right) (.expr (.binary op left right span))
  /-- The condition of an `if` expression. -/
  | condition {test : Expr} {thenBlock : Block} {elseBlock : Option Block} {span : Span} :
      PartOf (.expr test) (.expr (.cond test thenBlock elseBlock span))
  /-- Its first block. -/
  | thenBlock {test : Expr} {thenBlock : Block} {elseBlock : Option Block} {span : Span} :
      PartOf (.stmts thenBlock.statements none) (.expr (.cond test thenBlock elseBlock span))
  /-- Its second block. -/
  | elseBlock {test : Expr} {thenBlock b : Block} {span : Span} :
      PartOf (.stmts b.statements none) (.expr (.cond test thenBlock (some b) span))
  /-- The callee of a call. -/
  | callee {callee : Expr} {args : List Expr} {span : Span} :
      PartOf (.expr callee) (.expr (.call callee args span))
  /-- The arguments of a call. -/
  | args {callee : Expr} {args : List Expr} {span : Span} :
      PartOf (.exprs args) (.expr (.call callee args span))
  /-- The call itself, when callee and arguments are known. -/
  | application {callee : Expr} {args : List Expr} {span : Span} {f : Value} {vs : List Value} :
      PartOf (.apply f vs) (.expr (.call callee args span))
  /-- The base of an index expression. -/
  | base {base place : Expr} {span : Span} : PartOf (.expr base) (.expr (.index base place span))
  /-- The index of an index expression. -/
  | place {base place : Expr} {span : Span} : PartOf (.expr place) (.expr (.index base place span))
  /-- An assignment, as an expression. -/
  | assignment {target value : Expr} {span : Span} :
      PartOf (.assign target value) (.expr (.assign target value span))
  /-- The first of several expressions. -/
  | head {e : Expr} {es : List Expr} : PartOf (.expr e) (.exprs (e :: es))
  /-- The other expressions. -/
  | tail {e : Expr} {es : List Expr} : PartOf (.exprs es) (.exprs (e :: es))
  /-- The key of the first of several entries. -/
  | key {key value : Expr} {es : List (Expr × Expr)} {d : Dict Key Pair} :
      PartOf (.expr key) (.entries ((key, value) :: es) d)
  /-- The value of the first of several entries. -/
  | value {key value : Expr} {es : List (Expr × Expr)} {d : Dict Key Pair} :
      PartOf (.expr value) (.entries ((key, value) :: es) d)
  /-- The other entries. -/
  | otherEntries {entry : Expr × Expr} {es : List (Expr × Expr)} {d d' : Dict Key Pair} :
      PartOf (.entries es d') (.entries (entry :: es) d)
  /-- A part of a loop's header that is there. -/
  | header {e : Expr} : PartOf (.expr e) (.part (some e))
  /-- The right-hand side of an assignment. -/
  | assigned {target value : Expr} : PartOf (.expr value) (.assign target value)
  /-- The base of an index expression that is assigned to. -/
  | targetBase {base place value : Expr} {span : Span} :
      PartOf (.expr base) (.assign (.index base place span) value)
  /-- The index of an index expression that is assigned to. -/
  | targetPlace {base place value : Expr} {span : Span} :
      PartOf (.expr place) (.assign (.index base place span) value)
  /-- The value that `let` binds. -/
  | bound {x : String} {e : Expr} {span : Span} : PartOf (.expr e) (.stmt (.letBind x e span))
  /-- The value that `return` gives. -/
  | returned {e : Expr} {span : Span} : PartOf (.expr e) (.stmt (.ret e span))
  /-- The expression that a statement is. -/
  | statement {e : Expr} {span : Span} : PartOf (.expr e) (.stmt (.expr e span))
  /-- What a loop begins with. -/
  | init {init : Stmt} {test after : Option Expr} {body : Block} {span : Span} :
      PartOf (.stmt init) (.stmt (.forLoop (some init) test after body span))
  /-- The rounds of a loop. -/
  | rounds {init : Option Stmt} {test after : Option Expr} {body : Block} {span : Span} :
      PartOf (.loop test after body none) (.stmt (.forLoop init test after body span))
  /-- The first of several statements. -/
  | first {s : Stmt} {ss : List Stmt} {last : Option Value} :
      PartOf (.stmt s) (.stmts (s :: ss) last)
  /-- The other statements. -/
  | others {s : Stmt} {ss : List Stmt} {last last' : Option Value} :
      PartOf (.stmts ss last') (.stmts (s :: ss) last)
  /-- The condition of a loop. -/
  | test {test after : Option Expr} {body : Block} {last : Option Value} :
      PartOf (.part test) (.loop test after body last)
  /-- The body of a loop. -/
  | body {test after : Option Expr} {body : Block} {last : Option Value} :
      PartOf (.stmts body.statements none) (.loop test after body last)
  /-- What is done after each round. -/
  | after {test after : Option Expr} {body : Block} {last : Option Value} :
      PartOf (.part after) (.loop test after body last)
  /-- The rounds after the next one. -/
  | again {test after : Option Expr} {body : Block} {last last' : Option Value} :
      PartOf (.loop test after body last') (.loop test after body last)

end Task

/-! ### The form of a plan -/

/-- The plan is made of tasks with the property `F` and of bodies of functions. The first is begun in
the machine `m`, the others in the machine that the one before has left. If the plan ends with a signal
of its own, that is in such a machine, too, and it never runs out of fuel by itself. -/
def Plan.MadeOf {α : Type} (F : Task → Prop) : Machine → Plan α → Prop
  | _, .finish (.done _ _) => True
  | m, .finish (.signal _ m') => m' = m
  | _, .finish .outOfFuel => False
  | m, .after t m' next => m' = m ∧ F t ∧ ∀ a m'', (next a m'').MadeOf F m''
  | m, .body _ _ m' next => m' = m ∧ ∀ v m'', (next v m'').MadeOf F m''

namespace Plan.MadeOf

variable {α : Type} {F G : Task → Prop} {m : Machine} {p : Plan α}

theorem ofExcept (r : Except RuntimeError α) : (Plan.finish (.ofExcept r m)).MadeOf F m := by
  cases r with
  | ok result => trivial
  | error e => rfl

/-- A built-in function that refuses its arguments, or ends the program, changes nothing. -/
theorem call (b : Builtin) (args : List Value) : (Plan.finish (b.call args m)).MadeOf F m := by
  unfold Builtin.call
  split
  · rfl
  · unfold Builtin.run
    split <;> first | exact trivial | rfl

theorem mono (h : ∀ t, F t → G t) (hp : p.MadeOf F m) : p.MadeOf G m := by
  induction p generalizing m with
  | finish r => cases r <;> exact hp
  | after t m' next ih => exact ⟨hp.1, h t hp.2.1, fun a m'' => ih a m'' (hp.2.2 a m'')⟩
  | body c args m' next ih => exact ⟨hp.1, fun v m'' => ih v m'' (hp.2 v m'')⟩

theorem within (hp : p.MadeOf F m) : p.Within F := by
  induction p generalizing m with
  | finish => trivial
  | after t m' next ih => exact ⟨hp.2.1, fun a m'' => ih a m'' (hp.2.2 a m'')⟩
  | body c args m' next ih => exact fun v m'' => ih v m'' (hp.2 v m'')

end Plan.MadeOf

namespace Task

variable {o : Options} {m : Machine}

theorem exprPlan_madeOf (e : Expr) : (e.plan m).MadeOf (·.PartOf (.expr e)) m := by
  cases e with
  | int | bool | str | function => trivial
  | ident x =>
    rw [Expr.plan]
    split
    · trivial
    · split
      · trivial
      · rfl
  | array => exact ⟨rfl, .items, fun _ _ => trivial⟩
  | hash => exact ⟨rfl, .entries, fun _ _ => trivial⟩
  | unary => exact ⟨rfl, .operand, fun _ _ => .ofExcept _⟩
  | binary => exact ⟨rfl, .left, fun _ _ => ⟨rfl, .right, fun _ _ => .ofExcept _⟩⟩
  | cond test thenBlock elseBlock =>
    refine ⟨rfl, .condition, fun v _ => ?_⟩
    dsimp only
    split
    · exact ⟨rfl, .thenBlock, fun _ _ => trivial⟩
    · cases elseBlock with
      | none => trivial
      | some b => exact ⟨rfl, .elseBlock, fun _ _ => trivial⟩
  | call =>
    exact ⟨rfl, .callee, fun _ _ => ⟨rfl, .args, fun _ _ => ⟨rfl, .application, fun _ _ => trivial⟩⟩⟩
  | index => exact ⟨rfl, .base, fun _ _ => ⟨rfl, .place, fun _ _ => .ofExcept _⟩⟩
  | assign => exact ⟨rfl, .assignment, fun _ _ => trivial⟩

theorem assignPlan_madeOf (target value : Expr) :
    (Expr.assignPlan o target value m).MadeOf (·.PartOf (.assign target value)) m := by
  cases target with
  | ident x =>
    rw [Expr.assignPlan]
    split
    · exact ⟨rfl, .assigned, fun _ _ => trivial⟩
    · rfl
  | index base place =>
    refine ⟨rfl, .targetBase, fun _ _ => ⟨rfl, .targetPlace, fun _ _ => ?_⟩⟩
    dsimp only
    split
    · rfl
    · exact ⟨rfl, .assigned, fun _ _ => trivial⟩
  | _ => rfl

theorem stmtPlan_madeOf (s : Stmt) : (s.plan m).MadeOf (·.PartOf (.stmt s)) m := by
  cases s with
  | letBind => exact ⟨rfl, .bound, fun _ _ => trivial⟩
  | ret => exact ⟨rfl, .returned, fun _ _ => rfl⟩
  | expr => exact ⟨rfl, .statement, fun _ _ => trivial⟩
  | forLoop init =>
    cases init with
    | none => exact ⟨rfl, .rounds, fun _ _ => trivial⟩
    | some init => exact ⟨rfl, .init, fun _ _ => ⟨rfl, .rounds, fun _ _ => trivial⟩⟩

theorem callPlan_madeOf (F : Task → Prop) (f : Value) (args : List Value) :
    (f.plan o args m).MadeOf F m := by
  cases f with
  | function c =>
    rw [Value.plan]
    split
    · rfl
    · split
      · rfl
      · exact ⟨rfl, fun _ _ => trivial⟩
  | builtin b => exact .call b args
  | _ => rfl

/-- The plan of a task is made of parts of the task. -/
theorem plan_madeOf (t : Task) : (t.plan o m).MadeOf (·.PartOf t) m := by
  cases t with
  | expr e => exact exprPlan_madeOf e
  | exprs es =>
    cases es with
    | nil => trivial
    | cons e es => exact ⟨rfl, .head, fun _ _ => ⟨rfl, .tail, fun _ _ => trivial⟩⟩
  | entries es d =>
    cases es with
    | nil => trivial
    | cons entry es =>
      refine ⟨rfl, .key, fun v _ => ?_⟩
      dsimp only
      split
      · rfl
      · exact ⟨rfl, .value, fun _ _ => ⟨rfl, .otherEntries, fun _ _ => trivial⟩⟩
  | part e =>
    cases e with
    | none => trivial
    | some e => exact ⟨rfl, .header, fun _ _ => trivial⟩
  | assign target value => exact assignPlan_madeOf target value
  | stmt s => exact stmtPlan_madeOf s
  | stmts ss last =>
    cases ss with
    | nil => trivial
    | cons s ss => exact ⟨rfl, .first, fun _ _ => ⟨rfl, .others, fun _ _ => trivial⟩⟩
  | loop test after body last =>
    refine ⟨rfl, .test, fun v _ => ?_⟩
    dsimp only
    split
    · exact ⟨rfl, .body, fun _ _ => ⟨rfl, .after, fun _ _ => ⟨rfl, .again, fun _ _ => trivial⟩⟩⟩
    · trivial
  | apply f args => exact callPlan_madeOf _ f args

/-- A property that goes from a task to its parts holds of all that its plan begins, bodies of
functions apart. -/
theorem plan_within {F : Task → Prop} {t : Task} (h : ∀ p, p.PartOf t → F p) :
    (t.plan o m).Within F :=
  (t.plan_madeOf.mono h).within

end Task

end MonkeyLang
