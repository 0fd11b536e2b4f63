/-!
# Blank text

The characters with the property *White_Space*, and texts made of nothing else. An interactive
session passes over a line that is blank.
-/

namespace MonkeyLang.Blank

/-- A character with the property *White_Space*: 25 in all. -/
def isBlank (c : Char) : Bool :=
  let n := c.toNat
  (0x09 ≤ n && n ≤ 0x0D) || n == 0x20 || n == 0x85 || n == 0xA0 || n == 0x1680 ||
    (0x2000 ≤ n && n ≤ 0x200A) || n == 0x2028 || n == 0x2029 || n == 0x202F || n == 0x205F ||
    n == 0x3000

/-- A text without any character that is not blank; the empty text is one. -/
def isBlankText (s : String) : Bool := s.toList.all isBlank

end MonkeyLang.Blank
