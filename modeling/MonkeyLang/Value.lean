import MonkeyLang.Builtin

/-!
# Values

The values of the language. Integers, booleans, strings, null and built-in functions are their own
content. Arrays, hashes and functions are places in a store, so that two values can be the same
container, and a change made through one is seen through the other.

## Main definitions

* `Value`, `Value.kind`, `Value.isTruthy`.
* `Key`, `Value.key?` : what hashes are indexed by.
* `Pair` : an entry of a hash.
-/

namespace MonkeyLang

/-- The place of an array in the store. -/
abbrev ArrayId := Nat

/-- The place of a hash in the store. -/
abbrev HashId := Nat

/-- The place of a function in the store. -/
abbrev ClosureId := Nat

/-- Values. -/
inductive Value where
  /-- An integer. -/
  | int (value : Int64)
  /-- `true` or `false`. -/
  | bool (value : Bool)
  /-- A string. -/
  | str (text : String)
  /-- Null. -/
  | null
  /-- An array. -/
  | array (id : ArrayId)
  /-- A hash. -/
  | hash (id : HashId)
  /-- A function that a program has defined. -/
  | function (id : ClosureId)
  /-- A function of the language. -/
  | builtin (b : Builtin)
  deriving DecidableEq, Inhabited

/-- What the entries of a hash are filed under. Integers, booleans and strings never meet. -/
inductive Key where
  /-- An integer. -/
  | int (value : Int64)
  /-- `true` or `false`. -/
  | bool (value : Bool)
  /-- A string, by its content. -/
  | str (text : String)
  deriving DecidableEq

/-- An entry of a hash. It is filed under the key of its key value and keeps that value, too. -/
structure Pair where
  /-- The value whose key the entry is filed under. -/
  key : Value
  /-- The value that is found there. -/
  value : Value
  deriving DecidableEq

namespace Value

/-- The kind of the value. -/
def kind : Value → Kind
  | .int _ => .integer
  | .bool _ => .boolean
  | .str _ => .string
  | .null => .null
  | .array _ => .array
  | .hash _ => .hash
  | .function _ => .function
  | .builtin _ => .builtin

/-- Whether a condition with this value holds: all do but zero, `false` and null. -/
def isTruthy : Value → Bool
  | .int value => value != 0
  | .bool value => value
  | .null => false
  | _ => true

/-- The key that the value is, if it is one. -/
def key? : Value → Option Key
  | .int value => some (.int value)
  | .bool value => some (.bool value)
  | .str text => some (.str text)
  | _ => none

/-- Whether two values are one: scalars by content, containers and functions by place. -/
def same (v w : Value) : Bool := v == w

end Value

end MonkeyLang
