import MonkeyLang.Token.Cursor
import MonkeyLang.Token.LexError

/-!
# Parse errors

What can be wrong with the order of the words of a program, where, and inside which construct. A
parse error names the token that cannot stand where it stands.
-/

namespace MonkeyLang

/-- The constructs that an error can be inside of. -/
inductive Construct where
  /-- A `let` statement. -/
  | letStatement
  /-- A `return` statement. -/
  | returnStatement
  /-- A `for` loop. -/
  | forLoop
  /-- A block. -/
  | block
  /-- Any expression. -/
  | expression
  /-- An `if` expression. -/
  | ifExpression
  /-- A function literal. -/
  | functionLiteral
  /-- The parameters of a function literal. -/
  | functionParams
  /-- A call. -/
  | functionCall
  /-- An array literal. -/
  | arrayLiteral
  /-- A hash literal. -/
  | hashLiteral
  /-- An index expression. -/
  | indexExpression
  /-- An expression in parentheses. -/
  | grouping
  deriving DecidableEq

/-- What messages call the construct. -/
def Construct.description : Construct → String
  | .letStatement => "a let statement"
  | .returnStatement => "a return statement"
  | .forLoop => "a for loop"
  | .block => "a block"
  | .expression => "an expression"
  | .ifExpression => "an if expression"
  | .functionLiteral => "a function literal"
  | .functionParams => "function parameters"
  | .functionCall => "a function call"
  | .arrayLiteral => "an array literal"
  | .hashLiteral => "a hash literal"
  | .indexExpression => "an index expression"
  | .grouping => "a parenthesized expression"

namespace ParseError

/-- The kinds of error. -/
inductive Cause where
  /-- A token other than the one that has to come. -/
  | unexpectedToken (expected found : String)
  /-- A keyword that no construct uses yet. -/
  | reservedKeyword (keyword : String)
  /-- An error in the spelling. -/
  | lexical (error : LexError)
  deriving DecidableEq

/-- The words in which an error is reported. -/
def Cause.message : Cause → String
  | .unexpectedToken expected found => "expected " ++ expected ++ ", found " ++ found
  | .reservedKeyword keyword => "`" ++ keyword ++ "` is reserved and cannot be used yet"
  | .lexical error => error.message

end ParseError

/-- An error at its place in the source. -/
structure ParseError where
  /-- What is wrong. -/
  cause : ParseError.Cause
  /-- The token that is wrong. -/
  span : Span
  /-- The innermost construct around it, if it is known. -/
  context : Option Construct := none
  deriving DecidableEq

namespace ParseError

/-- The words in which the error is reported, with the construct around it. -/
def message (e : ParseError) : String :=
  match e.context with
  | some construct => e.cause.message ++ " while parsing " ++ construct.description
  | none => e.cause.message

/-- The error inside `construct`, unless a construct further in is known. -/
def within (e : ParseError) (construct : Construct) : ParseError :=
  { e with context := e.context <|> some construct }

/-- An error in the spelling, reported by the parser. -/
def ofLexError (e : LexError) : ParseError := { cause := .lexical e, span := e.span }

/-- The error that something else than `expected` is at the cursor. -/
def unexpected (c : Cursor) (expected : String) : ParseError :=
  { cause := .unexpectedToken expected c.kind.displayName, span := c.span }

/-- The line that reports an error in the file `path` with the text `source`. -/
def located (e : ParseError) (path source : String) : String :=
  let p := e.span.position source
  s!"{path}:{p.line}:{p.column}: error: {e.message}"

end ParseError

end MonkeyLang
