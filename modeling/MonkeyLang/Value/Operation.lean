import MonkeyLang.RuntimeError
import MonkeyLang.Value

/-!
# Operations on values

What the operators do to values that have been evaluated.

Integers have the arithmetic of 64-bit two's complement, in which results that do not fit wrap around
and division truncates toward zero, and the comparisons. Strings can be joined and nothing else.
Any other two values can be tested for being the same; every further operator needs two values of
one kind and knows none.
-/

namespace MonkeyLang

namespace Value

/-- The value of a prefix operator on `v`. -/
def unary (op : UnaryOp) (v : Value) : Except RuntimeError Value :=
  match op, v with
  | .neg, .int a => .ok (.int (-a))
  | .neg, v => .error (.unknownUnary .neg v.kind)
  | .not, .bool b => .ok (.bool !b)
  | .not, .null => .ok (.bool true)
  | .not, .int a => .ok (.bool (a == 0))
  | .not, _ => .ok (.bool false)

/-- The value of an infix operator on two integers. -/
def integerBinary (op : BinaryOp) (a b : Int64) : Except RuntimeError Value :=
  match op with
  | .add => .ok (.int (a + b))
  | .sub => .ok (.int (a - b))
  | .mul => .ok (.int (a * b))
  | .div => if b == 0 then .error .divisionByZero else .ok (.int (a / b))
  | .eq => .ok (.bool (a == b))
  | .notEq => .ok (.bool (a != b))
  | .lt => .ok (.bool (a < b))
  | .gt => .ok (.bool (b < a))

/-- The value of an infix operator on `v` and `w`. -/
def binary (op : BinaryOp) (v w : Value) : Except RuntimeError Value :=
  match v, w with
  | .int a, .int b => integerBinary op a b
  | .str s, .str t =>
    match op with
    | .add => .ok (.str (s ++ t))
    | op => .error (.unknownInfix .string op .string)
  | v, w =>
    match op with
    | .eq => .ok (.bool (v.same w))
    | .notEq => .ok (.bool !(v.same w))
    | op =>
      if v.kind = w.kind then .error (.unknownInfix v.kind op w.kind)
      else .error (.typeMismatch v.kind op w.kind)

end Value

end MonkeyLang
