import MonkeyLang.Builtin.Call
import MonkeyLang.Store.Index
import MonkeyLang.Value.Operation

/-!
# Evaluation

Programs are evaluated by walking over their tree. Operands, arguments, items and entries are
evaluated from left to right, and a signal ends everything up to the call or the program that
catches it. What an assignment needs is looked at before its right-hand side is evaluated.

A statement may have no value: `let` has none, a block without statements has none, and a loop whose
body never ran has none. Where a value is needed, null stands for it.

Every step takes one unit of fuel, so evaluation is defined for programs that never end, too: for
those, no amount of fuel is enough.

## Main definitions

* `Expr.eval`, `Stmt.eval`, `Value.apply` : expressions, statements and calls.
* `Program.eval` : a program, and how it ended.
-/

namespace MonkeyLang

mutual

/-- The value of an expression. -/
def Expr.eval (o : Options) : Nat → Expr → Machine → Outcome Value
  | 0, _, _ => .outOfFuel
  | _ + 1, .int value _, m => .done (.int value) m
  | _ + 1, .bool value _, m => .done (.bool value) m
  | _ + 1, .str text _, m => .done (.str text) m
  | _ + 1, .ident x _, m =>
    match m.lookup x with
    | some v => .done v m
    | none =>
      match Builtin.ofName? x with
      | some b => .done (.builtin b) m
      | none => .fail (.identifierNotFound x) m
  | n + 1, .array items _, m =>
    (Expr.evalAll o n items m).andThen fun vs m => m.newArray vs.toArray
  | n + 1, .hash entries _, m =>
    (Expr.evalEntries o n entries .empty m).andThen fun d m => m.newHash d
  | n + 1, .unary op e _, m => (Expr.eval o n e m).andThen fun v m => .ofExcept (v.unary op) m
  | n + 1, .binary op left right _, m =>
    (Expr.eval o n left m).andThen fun v m =>
    (Expr.eval o n right m).andThen fun w m => .ofExcept (Value.binary op v w) m
  | n + 1, .cond test thenBlock elseBlock _, m =>
    (Expr.eval o n test m).andThen fun v m =>
      if v.isTruthy then (Stmt.evalAll o n thenBlock.statements none m).map (·.getD .null)
      else
        match elseBlock with
        | some b => (Stmt.evalAll o n b.statements none m).map (·.getD .null)
        | none => .done .null m
  | _ + 1, .function params body _ _, m => m.newFunction params body
  | n + 1, .call callee args _, m =>
    (Expr.eval o n callee m).andThen fun f m =>
    (Expr.evalAll o n args m).andThen fun vs m => Value.apply o n f vs m
  | n + 1, .index base place _, m =>
    (Expr.eval o n base m).andThen fun v m =>
    (Expr.eval o n place m).andThen fun w m => .ofExcept (m.store.read v w) m
  | n + 1, .assign target value _, m => Expr.evalAssign o n target value m

/-- The values of expressions. -/
def Expr.evalAll (o : Options) : Nat → List Expr → Machine → Outcome (List Value)
  | 0, _, _ => .outOfFuel
  | _ + 1, [], m => .done [] m
  | n + 1, e :: es, m =>
    (Expr.eval o n e m).andThen fun v m => (Expr.evalAll o n es m).map (v :: ·)

/-- The dictionary `d` with the entries of a hash literal. -/
def Expr.evalEntries (o : Options) :
    Nat → List (Expr × Expr) → Dict Key Pair → Machine → Outcome (Dict Key Pair)
  | 0, _, _, _ => .outOfFuel
  | _ + 1, [], d, m => .done d m
  | n + 1, (key, value) :: entries, d, m =>
    (Expr.eval o n key m).andThen fun v m =>
      match v.key? with
      | none => .fail (.unhashable v.kind) m
      | some k =>
        (Expr.eval o n value m).andThen fun w m =>
          Expr.evalEntries o n entries (d.insert k ⟨v, w⟩) m

/-- The value of a part of a loop's header, if it is there. -/
def Expr.evalPart (o : Options) : Nat → Option Expr → Machine → Outcome (Option Value)
  | 0, _, _ => .outOfFuel
  | _ + 1, none, m => .done none m
  | n + 1, some e, m => (Expr.eval o n e m).map some

/-- The assignment of the value of `value` to `target`. -/
def Expr.evalAssign (o : Options) : Nat → Expr → Expr → Machine → Outcome Value
  | 0, _, _, _ => .outOfFuel
  | n + 1, .ident x _, value, m =>
    if (m.lookup x).isSome then
      (Expr.eval o n value m).andThen fun v m => .done .null (m.assign o.assign x v)
    else .fail (.identifierNotFound x) m
  | n + 1, .index base place _, value, m =>
    (Expr.eval o n base m).andThen fun v m =>
    (Expr.eval o n place m).andThen fun w m =>
      match m.store.locate v w with
      | .error e => .fail e m
      | .ok slot => (Expr.eval o n value m).andThen fun u m => .done .null (m.put slot ⟨w, u⟩)
  | _ + 1, _, _, m => .fail .invalidAssignmentTarget m

/-- The value of a statement, if it has one. -/
def Stmt.eval (o : Options) : Nat → Stmt → Machine → Outcome (Option Value)
  | 0, _, _ => .outOfFuel
  | n + 1, .letBind x value _, m =>
    (Expr.eval o n value m).andThen fun v m => .done none (m.bind x v)
  | n + 1, .ret value _, m =>
    (Expr.eval o n value m).andThen fun v m => .signal (.returned v) m
  | n + 1, .expr value _, m => (Expr.eval o n value m).map some
  | n + 1, .forLoop none test after body _, m => Stmt.evalLoop o n test after body none m
  | n + 1, .forLoop (some init) test after body _, m =>
    (Stmt.eval o n init m).andThen fun _ m => Stmt.evalLoop o n test after body none m

/-- The value of the last of the statements, `last` if there are none. -/
def Stmt.evalAll (o : Options) :
    Nat → List Stmt → Option Value → Machine → Outcome (Option Value)
  | 0, _, _, _ => .outOfFuel
  | _ + 1, [], last, m => .done last m
  | n + 1, s :: ss, _, m =>
    (Stmt.eval o n s m).andThen fun v m => Stmt.evalAll o n ss v m

/-- The rounds of a loop that are still to come, after one whose body had the value `last`. -/
def Stmt.evalLoop (o : Options) :
    Nat → Option Expr → Option Expr → Block → Option Value → Machine → Outcome (Option Value)
  | 0, _, _, _, _, _ => .outOfFuel
  | n + 1, test, after, body, last, m =>
    (Expr.evalPart o n test m).andThen fun v m =>
      if (v.map Value.isTruthy).getD true then
        (Stmt.evalAll o n body.statements none m).andThen fun last m =>
        (Expr.evalPart o n after m).andThen fun _ m => Stmt.evalLoop o n test after body last m
      else .done last m

/-- The value of the call of `f` with the arguments `args`. -/
def Value.apply (o : Options) : Nat → Value → List Value → Machine → Outcome Value
  | 0, _, _, _ => .outOfFuel
  | n + 1, .function c, args, m =>
    let closure := m.store.closure c
    if closure.params.length ≠ args.length then
      .fail (.wrongArgumentCount args.length closure.params.length) m
    else
      match o.forbids m.depth with
      | some limit => .fail (.recursionLimit limit) m
      | none =>
        let caller := m.frame
        match Stmt.evalAll o n closure.body.statements none (m.enter closure args) with
        | .done v m => .done (v.getD .null) (m.leave caller)
        | .signal (.returned v) m => .done v (m.leave caller)
        | .signal s m => .signal s (m.leave caller)
        | .outOfFuel => .outOfFuel
  | _ + 1, .builtin b, args, m => b.call args m
  | _ + 1, v, _, m => .fail (.notCallable v.kind) m

end

/-- How a program ended. -/
inductive Ending where
  /-- With the value of its last statement, if that has one, or with that of a `return`. -/
  | completed (value : Option Value)
  /-- With a runtime error. -/
  | failed (error : RuntimeError)
  /-- With a call of `exit`. -/
  | exited (code : Nat)
  deriving DecidableEq

/-- How a signal ends a program that nothing encloses. -/
def Signal.ending : Signal → Ending
  | .returned v => .completed (some v)
  | .failed e => .failed e
  | .exited code => .exited code

/-- How the program ends within the given number of steps, and the machine that it leaves. -/
def Program.eval (o : Options) (fuel : Nat) (p : Program) (m : Machine) :
    Option (Ending × Machine) :=
  match Stmt.evalAll o fuel p none m with
  | .done v m => some (.completed v, m)
  | .signal s m => some (s.ending, m)
  | .outOfFuel => none

/-- A number of steps that no program makes in the lifetime of a computer, `2^62`. -/
def ampleFuel : Nat := 0x4000000000000000

end MonkeyLang
