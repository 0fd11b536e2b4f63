import MonkeyLang.Span

/-!
# Tokens

The words of the language: literals and identifiers, which carry what they stand for, keywords,
operators and delimiters, which are written in one way only, and two kinds that no text spells, for
input that is no word and for the end of the input.

## Main definitions

* `TokenKind`, `Token` : a kind of word, and a word at its place in the source.
* `TokenKind.displayName` : what messages call a kind; the spelling of a word written in one way.
* `TokenKind.keyword?` : the keyword that a name spells.
-/

namespace MonkeyLang

/-- The kinds of words. -/
inductive TokenKind where
  /-- An integer literal. -/
  | int (value : Int64)
  /-- A string literal, with its escapes resolved. -/
  | str (text : String)
  /-- An identifier. -/
  | ident (name : String)
  /-- `fn`. -/
  | fnKw
  /-- `let`. -/
  | letKw
  /-- `true`. -/
  | trueKw
  /-- `false`. -/
  | falseKw
  /-- `if`. -/
  | ifKw
  /-- `else`. -/
  | elseKw
  /-- `return`. -/
  | returnKw
  /-- `for`. -/
  | forKw
  /-- `break`, which no construct uses yet. -/
  | breakKw
  /-- `continue`, which no construct uses yet. -/
  | continueKw
  /-- `=`. -/
  | assign
  /-- `+`. -/
  | plus
  /-- `-`. -/
  | minus
  /-- `*`. -/
  | star
  /-- `/`. -/
  | slash
  /-- `!`. -/
  | bang
  /-- `<`. -/
  | lt
  /-- `>`. -/
  | gt
  /-- `==`. -/
  | eqEq
  /-- `!=`. -/
  | notEq
  /-- `,`. -/
  | comma
  /-- `;`. -/
  | semicolon
  /-- `:`. -/
  | colon
  /-- `(`. -/
  | lparen
  /-- `)`. -/
  | rparen
  /-- `{`. -/
  | lbrace
  /-- `}`. -/
  | rbrace
  /-- `[`. -/
  | lbracket
  /-- `]`. -/
  | rbracket
  /-- Input that is no word; a lexical error tells why. -/
  | invalid
  /-- The end of the input. -/
  | eof
  deriving DecidableEq

namespace TokenKind

/-- Whether a kind is no integer literal is plain to see: there is no need to try all integers. -/
instance (k : TokenKind) : Decidable (∀ v : Int64, k = .int v → False) :=
  match k with
  | .int v => .isFalse fun h => h v rfl
  | .str _ | .ident _ | .fnKw | .letKw | .trueKw | .falseKw | .ifKw | .elseKw | .returnKw | .forKw
  | .breakKw | .continueKw | .assign | .plus | .minus | .star | .slash | .bang | .lt | .gt | .eqEq
  | .notEq | .comma | .semicolon | .colon | .lparen | .rparen | .lbrace | .rbrace | .lbracket
  | .rbracket | .invalid | .eof => .isTrue fun _ => nofun

/-- What messages call the kind. -/
def displayName : TokenKind → String
  | .int _ => "integer"
  | .str _ => "string"
  | .ident _ => "identifier"
  | .fnKw => "fn"
  | .letKw => "let"
  | .trueKw => "true"
  | .falseKw => "false"
  | .ifKw => "if"
  | .elseKw => "else"
  | .returnKw => "return"
  | .forKw => "for"
  | .breakKw => "break"
  | .continueKw => "continue"
  | .assign => "="
  | .plus => "+"
  | .minus => "-"
  | .star => "*"
  | .slash => "/"
  | .bang => "!"
  | .lt => "<"
  | .gt => ">"
  | .eqEq => "=="
  | .notEq => "!="
  | .comma => ","
  | .semicolon => ";"
  | .colon => ":"
  | .lparen => "("
  | .rparen => ")"
  | .lbrace => "\x7b"
  | .rbrace => "\x7d"
  | .lbracket => "["
  | .rbracket => "]"
  | .invalid => "invalid token"
  | .eof => "end of file"

/-- Whether the kind is a keyword that no construct uses yet. -/
def isReserved : TokenKind → Bool
  | .breakKw | .continueKw => true
  | _ => false

/-- The keyword that `name` spells, if it spells one. -/
def keyword? (name : String) : Option TokenKind :=
  match name with
  | "fn" => some .fnKw
  | "let" => some .letKw
  | "true" => some .trueKw
  | "false" => some .falseKw
  | "if" => some .ifKw
  | "else" => some .elseKw
  | "return" => some .returnKw
  | "for" => some .forKw
  | "break" => some .breakKw
  | "continue" => some .continueKw
  | _ => none

/-- The text that the word adds to the names of a program: identifiers and string literals do. -/
def name? : TokenKind → Option String
  | .str text => some text
  | .ident name => some name
  | _ => none

end TokenKind

/-- A word at its place in the source. -/
structure Token where
  /-- What kind of word it is. -/
  kind : TokenKind
  /-- The bytes that it takes up. -/
  span : Span
  deriving DecidableEq

/-- The end of an input whose end is not marked. -/
def Token.endOfInput : Token := ⟨.eof, .nowhere⟩

end MonkeyLang
