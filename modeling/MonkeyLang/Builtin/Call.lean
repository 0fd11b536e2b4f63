import MonkeyLang.Machine
import MonkeyLang.Store.Render

/-!
# Calls of built-in functions

What the functions of the language do. The number of arguments is looked at before their kinds, and
an argument that is refused is described by the kinds that the signature of the function gives.
-/

namespace MonkeyLang

/-- The error that an argument of the kind `got` is refused by a parameter. -/
def ArgKind.refusal (builtin : String) (got : Kind) : ArgKind → RuntimeError
  | .only expected => .unsupportedArgument builtin (some expected) got
  | _ => .unsupportedArgument builtin none got

namespace Builtin

/-- The error that the argument `v` at the given position is refused. -/
def refusal (b : Builtin) (position : Nat) (v : Value) : RuntimeError :=
  (b.signature.params.getD position .any).refusal b.name v.kind

/-- The error that there are `got` arguments, unless the function takes so many. -/
def countError? (b : Builtin) (got : Nat) : Option RuntimeError :=
  match b.signature.arity with
  | .exactly want => if got = want then none else some (.wrongArgumentCount got want)
  | .variadic => none

/-- A number of bytes or items as an integer of the language, `2^63 - 1` at most. -/
def count (n : Nat) : Value := .int (Int64.ofNat (min n 0x7FFFFFFFFFFFFFFF))

/-- The outcome of the function on arguments that are as many as it takes. -/
def run (b : Builtin) (args : List Value) (m : Machine) : Outcome Value :=
  match b, args with
  | .len, .str s :: _ => .done (count s.utf8ByteSize) m
  | .len, .array a :: _ => .done (count (m.store.array a).size) m
  | .len, v :: _ => .fail (b.refusal 0 v) m
  | .push, .array a :: v :: _ => m.newArray ((m.store.array a).push v)
  | .push, v :: _ => .fail (b.refusal 0 v) m
  | .print, vs => .done .null (vs.foldl (fun m v => m.print (m.store.render v)) m)
  | .exit, _ => .signal (.exited 0) m
  | .len, [] | .push, [] => .done .null m

/-- The outcome of a call of the function. -/
def call (b : Builtin) (args : List Value) (m : Machine) : Outcome Value :=
  match b.countError? args.length with
  | some e => .fail e m
  | none => b.run args m

end Builtin

end MonkeyLang
