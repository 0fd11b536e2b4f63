import MonkeyLang.Kind
import MonkeyLang.Operator

/-!
# Runtime errors

What can go wrong while a program is evaluated, and the words in which it is reported.
-/

namespace MonkeyLang

/-- The kinds of runtime error. -/
inductive RuntimeError where
  /-- A function was called with `got` arguments and takes `want`. -/
  | wrongArgumentCount (got want : Nat)
  /-- A built-in function got an argument of the kind `got`; if it takes one kind only, that is
  `expected`. -/
  | unsupportedArgument (builtin : String) (expected : Option Kind) (got : Kind)
  /-- Operands of different kinds. -/
  | typeMismatch (left : Kind) (op : BinaryOp) (right : Kind)
  /-- An infix operator that operands of these kinds do not have. -/
  | unknownInfix (left : Kind) (op : BinaryOp) (right : Kind)
  /-- A prefix operator that operands of this kind do not have. -/
  | unknownUnary (op : UnaryOp) (operand : Kind)
  /-- A name that nothing is bound to. -/
  | identifierNotFound (name : String)
  /-- A call of something that is no function. -/
  | notCallable (kind : Kind)
  /-- An index that an array does not have. -/
  | indexOutOfRange
  /-- A key, given as it is rendered, that a hash does not have. -/
  | keyNotFound (key : String)
  /-- A key of a kind that cannot be one. -/
  | unhashable (kind : Kind)
  /-- An index into something that has none. -/
  | indexNotSupported (kind : Kind)
  /-- A division by zero. -/
  | divisionByZero
  /-- An assignment to something other than a name or an index expression. -/
  | invalidAssignmentTarget
  /-- More calls inside each other than `limit`. -/
  | recursionLimit (limit : Nat)
  deriving DecidableEq

/-- The words in which the error is reported. -/
def RuntimeError.message : RuntimeError → String
  | .wrongArgumentCount got want => s!"wrong number of arguments. got={got}, want={want}"
  | .unsupportedArgument builtin (some expected) got =>
    "argument to `" ++ builtin ++ "` must be " ++ expected.name ++ ", got " ++ got.name
  | .unsupportedArgument builtin none got =>
    "argument to `" ++ builtin ++ "` not supported, got " ++ got.name
  | .typeMismatch left op right => s!"type mismatch: {left.name} {op.symbol} {right.name}"
  | .unknownInfix left op right => s!"unknown operator: {left.name} {op.symbol} {right.name}"
  | .unknownUnary op operand => s!"unknown operator: {op.symbol}{operand.name}"
  | .identifierNotFound name => s!"identifier not found: {name}"
  | .notCallable kind => s!"{kind.name}: is not callable"
  | .indexOutOfRange => "array index out of range"
  | .keyNotFound key => s!"key not found: {key}"
  | .unhashable kind => s!"unusable as hash key: {kind.name}"
  | .indexNotSupported kind => s!"index operator not supported: {kind.name}"
  | .divisionByZero => "division by zero"
  | .invalidAssignmentTarget => "invalid assignment target"
  | .recursionLimit limit => s!"maximum call depth of {limit} exceeded"

end MonkeyLang
