import MonkeyLang.Text.Numeral
import MonkeyLang.Text.NonPrinting

/-!
# Quoted text

A text or a character written between quotes, so that every character of it can be seen: string
literals in canonical form and the characters named by messages are written this way.

The backslash, the quote that delimits, NUL, tab, line feed and carriage return are written as a
backslash and one character. Every other character that does not print is written as its code point
in braces; the rest stand for themselves.

## Main definitions

* `Quoted.character` : one character as it is written between quotes of a given kind.
* `Quoted.text`, `Quoted.single` : a text between double quotes, a character between single quotes.
-/

namespace MonkeyLang.Quoted

/-- The code point of `c` in braces, after a backslash and the letter u. -/
def codePoint (c : Char) : String := "\\u\x7b" ++ Numeral.hex c.toNat ++ "\x7d"

/-- How `c` is written between two `quote`s. -/
def character (quote c : Char) : String :=
  if c == '\x00' then "\\0"
  else if c == '\t' then "\\t"
  else if c == '\r' then "\\r"
  else if c == '\n' then "\\n"
  else if c == '\\' then "\\\\"
  else if c == quote then "\\" ++ quote.toString
  else if NonPrinting.isNonPrinting c then codePoint c
  else c.toString

/-- The characters `cs` as they are written between two `quote`s. -/
def characters (quote : Char) : List Char → String
  | [] => ""
  | c :: cs => character quote c ++ characters quote cs

/-- The text `s` between double quotes. -/
def text (s : String) : String := "\"" ++ characters '"' s.toList ++ "\""

/-- The character `c` between single quotes. -/
def single (c : Char) : String := "'" ++ character '\'' c ++ "'"

end MonkeyLang.Quoted
