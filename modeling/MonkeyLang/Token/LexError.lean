import MonkeyLang.Span
import MonkeyLang.Text.Quoted

/-!
# Lexical errors

What can be wrong with the spelling of a source text, where, and in which words it is reported.
-/

namespace MonkeyLang

namespace LexError

/-- The kinds of misspelling. -/
inductive Cause where
  /-- A character that no word starts with. -/
  | unexpectedChar (c : Char)
  /-- A string literal without its closing quote. -/
  | unterminatedString
  /-- A backslash in a string literal before the character `c`, which it cannot escape. -/
  | invalidEscape (c : Char)
  /-- An integer literal, given by its digits, whose value needs more than 64 bits. -/
  | intOverflow (literal : String)
  deriving DecidableEq

/-- The words in which a misspelling is reported. -/
def Cause.message : Cause → String
  | .unexpectedChar c => "unexpected character " ++ Quoted.single c
  | .unterminatedString => "unterminated string literal"
  | .invalidEscape c => "unknown escape sequence `\\" ++ c.toString ++ "` in string literal"
  | .intOverflow literal => "integer literal `" ++ literal ++ "` does not fit in 64 bits"

end LexError

/-- A misspelling at its place in the source. -/
structure LexError where
  /-- What is wrong. -/
  cause : LexError.Cause
  /-- The bytes that are wrong. -/
  span : Span
  deriving DecidableEq

/-- The words in which the error is reported. -/
def LexError.message (e : LexError) : String := e.cause.message

end MonkeyLang
