import MonkeyLang.Kind

/-!
# Built-in functions

The four functions of the language: their names, how many arguments they take and of what kinds. A
program may bind their names to something else.
-/

namespace MonkeyLang

/-- The functions of the language. -/
inductive Builtin where
  /-- The number of bytes of a string or of items of an array. -/
  | len
  /-- A new array with one more item. -/
  | push
  /-- Writes its arguments, one on a line. -/
  | print
  /-- Ends the program. -/
  | exit
  deriving DecidableEq

/-- How many arguments a function takes. -/
inductive Arity where
  /-- Just so many. -/
  | exactly (count : Nat)
  /-- Any number. -/
  | variadic
  deriving DecidableEq

/-- The kinds that an argument may have. -/
inductive ArgKind where
  /-- All kinds. -/
  | any
  /-- One kind. -/
  | only (kind : Kind)
  /-- Several kinds. -/
  | oneOf (kinds : List Kind)
  deriving DecidableEq

/-- What a function takes. -/
structure Signature where
  /-- The name of the function. -/
  name : String
  /-- How many arguments it takes. -/
  arity : Arity
  /-- The kinds of its first arguments. -/
  params : List ArgKind
  deriving DecidableEq

namespace Builtin

/-- All functions of the language. -/
def all : List Builtin := [.len, .push, .print, .exit]

/-- What the function takes. -/
def signature : Builtin → Signature
  | .len => ⟨"len", .exactly 1, [.oneOf [.string, .array]]⟩
  | .push => ⟨"push", .exactly 2, [.only .array, .any]⟩
  | .print => ⟨"print", .variadic, []⟩
  | .exit => ⟨"exit", .exactly 0, []⟩

/-- The name of the function. -/
def name (b : Builtin) : String := b.signature.name

/-- The function with the given name. -/
def ofName? (name : String) : Option Builtin := all.find? (·.name == name)

/-- Every function is found under its name. -/
theorem ofName?_name (b : Builtin) : ofName? b.name = some b := by
  cases b <;> decide

end Builtin

end MonkeyLang
