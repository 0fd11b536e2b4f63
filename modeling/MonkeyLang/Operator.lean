/-!
# Operators

The prefix and infix operators of expressions and the symbols they are written with.
-/

namespace MonkeyLang

/-- The operators written before their operand. -/
inductive UnaryOp where
  /-- `!`. -/
  | not
  /-- `-`. -/
  | neg
  deriving DecidableEq

/-- The operators written between their operands. -/
inductive BinaryOp where
  /-- `+`. -/
  | add
  /-- `-`. -/
  | sub
  /-- `*`. -/
  | mul
  /-- `/`. -/
  | div
  /-- `==`. -/
  | eq
  /-- `!=`. -/
  | notEq
  /-- `<`. -/
  | lt
  /-- `>`. -/
  | gt
  deriving DecidableEq

/-- The symbol of a prefix operator. -/
def UnaryOp.symbol : UnaryOp → String
  | .not => "!"
  | .neg => "-"

namespace BinaryOp

/-- The symbol of an infix operator. -/
def symbol : BinaryOp → String
  | .add => "+"
  | .sub => "-"
  | .mul => "*"
  | .div => "/"
  | .eq => "=="
  | .notEq => "!="
  | .lt => "<"
  | .gt => ">"

/-- Whether the operator compares for equality, which any two values allow. -/
def isEquality : BinaryOp → Bool
  | .eq | .notEq => true
  | _ => false

end BinaryOp

end MonkeyLang
