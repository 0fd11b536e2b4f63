import MonkeyLang.Store
import MonkeyLang.Text.Separated

/-!
# Rendering

The text of a value as `print` writes it. Strings stand for themselves, without quotes. Arrays and
hashes show what is in them; one that is inside itself is cut off there.

A container that is being rendered is open. Every further level opens one more container of the
store, so the number of containers bounds the number of levels.

## Main definitions

* `Store.render` : the text of a value.
-/

namespace MonkeyLang

namespace Store

/-- The text of a value inside the `opened` containers, at most `levels` levels deep. -/
def renderIn (s : Store) : (levels : Nat) → (opened : List Value) → Value → String
  | _, _, .int value => toString value.toInt
  | _, _, .bool value => toString value
  | _, _, .str text => text
  | _, _, .null => "null"
  | 0, _, .array _ => "[...]"
  | levels + 1, opened, .array a =>
    if opened.contains (.array a) then "[...]"
    else
      let items := (s.array a).toList.map (s.renderIn levels (.array a :: opened))
      "[" ++ separated ", " items ++ "]"
  | 0, _, .hash _ => "\x7b...\x7d"
  | levels + 1, opened, .hash h =>
    if opened.contains (.hash h) then "\x7b...\x7d"
    else
      let entries := (s.hash h).entries.map fun (_, p) =>
        s.renderIn levels (.hash h :: opened) p.key ++ ": " ++
          s.renderIn levels (.hash h :: opened) p.value
      "\x7b" ++ separated ", " entries ++ "\x7d"
  | _, _, .function c => "fn(" ++ separated ", " (s.closure c).params ++ ") \x7b ... \x7d"
  | _, _, .builtin _ => "builtin function"

/-- A number of levels that no value goes beyond: one for each container. -/
def levels (s : Store) : Nat := s.arrays.size + s.hashes.size + 1

/-- The text of a value. -/
def render (s : Store) (v : Value) : String := s.renderIn s.levels [] v

end Store

end MonkeyLang
