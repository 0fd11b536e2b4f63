import MonkeyLang.Program.Parser
import MonkeyLang.Program.Printer

/-!
# Listings

What the command line shows of the front end: the tokens of a file, and the program in it in
canonical form, each followed by the errors.
-/

namespace MonkeyLang

/-- The name of a kind of token in listings, without what the token carries. -/
def TokenKind.tag : TokenKind → String
  | .int _ => "Int"
  | .str _ => "String"
  | .ident _ => "Ident"
  | .fnKw => "Fn"
  | .letKw => "Let"
  | .trueKw => "True"
  | .falseKw => "False"
  | .ifKw => "If"
  | .elseKw => "Else"
  | .returnKw => "Return"
  | .forKw => "For"
  | .breakKw => "Break"
  | .continueKw => "Continue"
  | .assign => "Eq"
  | .plus => "Plus"
  | .minus => "Minus"
  | .star => "Star"
  | .slash => "Slash"
  | .bang => "Bang"
  | .lt => "Lt"
  | .gt => "Gt"
  | .eqEq => "EqEq"
  | .notEq => "NotEq"
  | .comma => "Comma"
  | .semicolon => "Semicolon"
  | .colon => "Colon"
  | .lparen => "LParen"
  | .rparen => "RParen"
  | .lbrace => "LBrace"
  | .rbrace => "RBrace"
  | .lbracket => "LBracket"
  | .rbracket => "RBracket"
  | .invalid => "Error"
  | .eof => "Eof"

/-- A kind of token in a listing, with what the token carries. -/
def TokenKind.described : TokenKind → String
  | .int value => "Int(" ++ toString value.toInt ++ ")"
  | .str text => "String(" ++ Quoted.text text ++ ")"
  | .ident name => "Ident(" ++ name ++ ")"
  | k => k.tag

namespace Listing

/-- The lines, each with its line feed. -/
def lines (ls : List String) : String := (ls.map (· ++ "\n")).foldl (· ++ ·) ""

/-- The tokens of `source`, the text of the file `path`, one on a line, and the errors. -/
def tokens (path source : String) : String :=
  let lexed := lex source
  lines [s!"Tokens for '{path}' ({lexed.tokens.length} tokens):"] ++
    lines (lexed.tokens.map fun t => s!"  {t.kind.described} @ {t.span}") ++
    (if lexed.hasErrors then
      lines ("" :: "Errors:" :: lexed.errors.map fun e => s!"  {e.span}: {e.message}")
    else "")

/-- The program in `source`, the text of the file `path`, in canonical form, and the errors. -/
def program (path source : String) : String :=
  let parsed := Program.ofSource source
  lines [s!"Parse result for '{path}':", s!"  Statements: {parsed.program.length}",
      s!"  Errors: {parsed.errors.length}"] ++
    (if parsed.program.isEmpty then ""
    else lines ("" :: "Program:" :: parsed.program.map fun s => s!"  {s.display}")) ++
    (if parsed.hasErrors then
      lines ("" :: "Errors:" :: parsed.errors.map fun e => s!"  {e.located path source}")
    else "")

end Listing

end MonkeyLang
