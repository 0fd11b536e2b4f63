import MonkeyLang.Operator
import MonkeyLang.Token

/-!
# Binding powers

The ways to go on with an expression that has been read, how tightly each of them binds it, and the
tokens that start them.

## Main definitions

* `Precedence` : the binding powers, in order.
* `Extension` : the ways to go on, with `Extension.precedence` and `Extension.ofToken?`.
-/

namespace MonkeyLang

/-- Binding powers, from the weakest to the tightest. -/
inductive Precedence where
  /-- A whole expression. -/
  | lowest
  /-- `=`. -/
  | assign
  /-- `==` and `!=`. -/
  | equals
  /-- `<` and `>`. -/
  | lessGreater
  /-- `+` and `-`. -/
  | sum
  /-- `*` and `/`. -/
  | product
  /-- A prefix operator and its operand. -/
  | unary
  /-- A call. -/
  | call
  /-- An index expression. -/
  | index
  deriving DecidableEq

/-- The place of a binding power in their order. -/
def Precedence.rank : Precedence → Nat
  | .lowest => 0
  | .assign => 1
  | .equals => 2
  | .lessGreater => 3
  | .sum => 4
  | .product => 5
  | .unary => 6
  | .call => 7
  | .index => 8

/-- The ways to go on with an expression. -/
inductive Extension where
  /-- An assignment to it. -/
  | assign
  /-- An infix operator that has it on the left. -/
  | binary (op : BinaryOp)
  /-- A call of it. -/
  | call
  /-- An index into it. -/
  | index
  deriving DecidableEq

namespace Extension

/-- How tightly the expression is bound. -/
def precedence : Extension → Precedence
  | .assign => .assign
  | .binary .eq | .binary .notEq => .equals
  | .binary .lt | .binary .gt => .lessGreater
  | .binary .add | .binary .sub => .sum
  | .binary .mul | .binary .div => .product
  | .call => .call
  | .index => .index

/-- The way to go on that a token of the given kind starts. -/
def ofToken? : TokenKind → Option Extension
  | .assign => some .assign
  | .plus => some (.binary .add)
  | .minus => some (.binary .sub)
  | .star => some (.binary .mul)
  | .slash => some (.binary .div)
  | .eqEq => some (.binary .eq)
  | .notEq => some (.binary .notEq)
  | .lt => some (.binary .lt)
  | .gt => some (.binary .gt)
  | .lparen => some .call
  | .lbracket => some .index
  | _ => none

end Extension

end MonkeyLang
