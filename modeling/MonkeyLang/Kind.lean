/-!
# Kinds of values

The eight kinds of values and the names by which messages call them.
-/

namespace MonkeyLang

/-- The kinds of values. -/
inductive Kind where
  /-- 64-bit integers. -/
  | integer
  /-- `true` and `false`. -/
  | boolean
  /-- Strings. -/
  | string
  /-- The value of things that have no other. -/
  | null
  /-- Arrays. -/
  | array
  /-- Hashes. -/
  | hash
  /-- Functions that a program has defined. -/
  | function
  /-- Functions of the language. -/
  | builtin
  deriving DecidableEq

namespace Kind

/-- All kinds. -/
def all : List Kind := [.integer, .boolean, .string, .null, .array, .hash, .function, .builtin]

/-- What messages call the kind. -/
def name : Kind → String
  | .integer => "INTEGER"
  | .boolean => "BOOLEAN"
  | .string => "STRING"
  | .null => "NULL"
  | .array => "ARRAY"
  | .hash => "HASH"
  | .function => "FUNCTION"
  | .builtin => "BUILTIN"

end Kind

end MonkeyLang
