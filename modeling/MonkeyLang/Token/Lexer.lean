import MonkeyLang.Token
import MonkeyLang.Token.LexError
import MonkeyLang.Text.Numeral

/-!
# The lexer

A source text is cut into lexemes from left to right, each the longest that the characters at hand
allow: a run of blanks, a comment, a word, a numeral, a string literal with or without its closing
quote, an operator or a delimiter, and one stray character where nothing else fits. Blanks and
comments are dropped. Every other lexeme becomes one token; what is misspelt becomes an invalid token
or, for an escape in a string literal, a token as good as can be had, and is reported besides.

## Main definitions

* `Lexeme.first` : the lexeme at the front of a text.
* `lex` : the tokens of a source with the marker of its end, and the errors in it.

## Main statements

* `Lexeme.text_append_rest` : a lexeme and what follows it are the text that was cut.
* `Lexeme.length_rest_lt` : a lexeme is never empty, so cutting comes to an end.
-/

namespace MonkeyLang

/-! ### Classes of characters -/

/-- The blanks between words: space, tab, carriage return and line feed. -/
def isSpace (c : Char) : Bool := c == ' ' || c == '\t' || c == '\r' || c == '\n'

/-- The characters that a word may start with: the 52 letters of ASCII and the underscore. -/
def isWordStart (c : Char) : Bool :=
  ('a' ≤ c && c ≤ 'z') || ('A' ≤ c && c ≤ 'Z') || c == '_'

/-- The characters that a word may go on with. -/
def isWordPart (c : Char) : Bool := isWordStart c || Numeral.isDigit c

/-- The operator or delimiter written with the character `c` alone. -/
def symbol? (c : Char) : Option TokenKind :=
  match c with
  | '=' => some .assign
  | '+' => some .plus
  | '-' => some .minus
  | '*' => some .star
  | '/' => some .slash
  | '!' => some .bang
  | '<' => some .lt
  | '>' => some .gt
  | ',' => some .comma
  | ';' => some .semicolon
  | ':' => some .colon
  | '(' => some .lparen
  | ')' => some .rparen
  | '{' => some .lbrace
  | '}' => some .rbrace
  | '[' => some .lbracket
  | ']' => some .rbracket
  | _ => none

/-- The operator written with the characters `c` and `d`. -/
def symbolPair? (c d : Char) : Option TokenKind :=
  if d == '=' then
    if c == '=' then some .eqEq
    else if c == '!' then some .notEq
    else none
  else none

/-! ### String literals -/

/-- The body of a string literal at the front of the text, and what follows it: the longest run of
characters other than the quote and of pairs of a backslash and any character. -/
def splitBody : List Char → List Char × List Char
  | [] => ([], [])
  | '"' :: cs => ([], '"' :: cs)
  | ['\\'] => ([], ['\\'])
  | '\\' :: c :: cs => ('\\' :: c :: (splitBody cs).1, (splitBody cs).2)
  | c :: cs => (c :: (splitBody cs).1, (splitBody cs).2)

/-- A body and what follows it are the text that was split. -/
theorem splitBody_append (cs : List Char) : (splitBody cs).1 ++ (splitBody cs).2 = cs := by
  fun_induction splitBody cs <;> simp_all

/-- The character that a backslash and `c` stand for. -/
def escape? (c : Char) : Option Char :=
  match c with
  | 'n' => some '\n'
  | 't' => some '\t'
  | '"' => some '"'
  | '\\' => some '\\'
  | _ => none

/-- The characters that the body of a string literal stands for. An escape that stands for nothing
stays as it is written. -/
def unescape : List Char → List Char
  | '\\' :: c :: cs =>
    match escape? c with
    | some d => d :: unescape cs
    | none => '\\' :: c :: unescape cs
  | c :: cs => c :: unescape cs
  | [] => []

/-- The escapes that stand for nothing in the body of a string literal that starts at `offset`. -/
def invalidEscapes (offset : Nat) : List Char → List LexError
  | '\\' :: c :: cs =>
    let stop := offset + 1 + c.utf8Size
    match escape? c with
    | some _ => invalidEscapes stop cs
    | none => ⟨.invalidEscape c, .ofRange offset stop⟩ :: invalidEscapes stop cs
  | c :: cs => invalidEscapes (offset + c.utf8Size) cs
  | [] => []

/-! ### Lexemes -/

/-- What a lexeme is. -/
inductive Shape where
  /-- A run of blanks, or a comment. -/
  | gap
  /-- A keyword or an identifier. -/
  | word
  /-- A run of digits. -/
  | numeral
  /-- A string literal with the given body between its quotes. -/
  | closedString (body : List Char)
  /-- A string literal that lacks its closing quote. -/
  | openString
  /-- An operator or a delimiter. -/
  | symbol (kind : TokenKind)
  /-- A character that no word starts with. -/
  | stray (c : Char)

/-- A lexeme cut from the front of a text. -/
structure Lexeme where
  /-- What the lexeme is. -/
  shape : Shape
  /-- The characters of the lexeme. -/
  text : List Char
  /-- The characters that follow it. -/
  rest : List Char

namespace Lexeme

/-- The lexeme of the given shape that goes on after `c` as long as `p` holds. -/
def run (shape : Shape) (p : Char → Bool) (c : Char) (cs : List Char) : Lexeme :=
  ⟨shape, c :: cs.takeWhile p, cs.dropWhile p⟩

/-- The string literal whose opening quote is before `cs`. -/
def stringLiteral (cs : List Char) : Lexeme :=
  match splitBody cs with
  | (body, '"' :: rest) => ⟨.closedString body, '"' :: (body ++ ['"']), rest⟩
  | (body, rest) => ⟨.openString, '"' :: body, rest⟩

/-- The lexeme of the single character `c`. -/
def single (c : Char) (cs : List Char) : Lexeme :=
  match symbol? c with
  | some kind => ⟨.symbol kind, [c], cs⟩
  | none => ⟨.stray c, [c], cs⟩

/-- The lexeme that starts with `c` and is no word, numeral or string literal. -/
def punctuation (c : Char) : List Char → Lexeme
  | [] => single c []
  | d :: cs =>
    if c == '/' && d == '/' then run .gap (· != '\n') c (d :: cs)
    else
      match symbolPair? c d with
      | some kind => ⟨.symbol kind, [c, d], cs⟩
      | none => single c (d :: cs)

/-- The longest lexeme at the front of the text `c :: cs`. -/
def first (c : Char) (cs : List Char) : Lexeme :=
  if isSpace c then run .gap isSpace c cs
  else if isWordStart c then run .word isWordPart c cs
  else if Numeral.isDigit c then run .numeral Numeral.isDigit c cs
  else if c == '"' then stringLiteral cs
  else punctuation c cs

theorem stringLiteral_text_append_rest (cs : List Char) :
    (stringLiteral cs).text ++ (stringLiteral cs).rest = '"' :: cs := by
  have whole := splitBody_append cs
  unfold stringLiteral
  split <;> next h => rw [h] at whole; simpa using whole

/-- A lexeme and what follows it are the text that was cut. -/
theorem text_append_rest (c : Char) (cs : List Char) :
    (first c cs).text ++ (first c cs).rest = c :: cs := by
  have single_eq (cs : List Char) : (single c cs).text ++ (single c cs).rest = c :: cs := by
    unfold single
    split <;> rfl
  have run_eq (shape : Shape) (p : Char → Bool) (cs : List Char) :
      (run shape p c cs).text ++ (run shape p c cs).rest = c :: cs := by
    simp [run, List.takeWhile_append_dropWhile]
  unfold first
  split
  · exact run_eq ..
  split
  · exact run_eq ..
  split
  · exact run_eq ..
  split
  next quote => rw [stringLiteral_text_append_rest, show c = '"' by simpa using quote]
  · unfold punctuation
    split
    · exact single_eq _
    split
    · exact run_eq ..
    split
    · rfl
    · exact single_eq _

/-- A lexeme starts with the character that it was cut at. -/
theorem exists_text_eq_cons (c : Char) (cs : List Char) : ∃ ds, (first c cs).text = c :: ds := by
  have single_eq (cs : List Char) : (single c cs).text = [c] := by
    unfold single
    split <;> rfl
  unfold first
  split
  · exact ⟨_, rfl⟩
  split
  · exact ⟨_, rfl⟩
  split
  · exact ⟨_, rfl⟩
  split
  next quote =>
    have c_eq : c = '"' := by simpa using quote
    unfold stringLiteral
    split <;> exact ⟨_, by rw [c_eq]⟩
  · unfold punctuation
    split
    · exact ⟨_, single_eq _⟩
    split
    · exact ⟨_, rfl⟩
    split
    · exact ⟨_, rfl⟩
    · exact ⟨_, single_eq _⟩

/-- A lexeme takes at least one character away. -/
theorem length_rest_lt (c : Char) (cs : List Char) :
    (first c cs).rest.length < (c :: cs).length := by
  obtain ⟨ds, h⟩ := exists_text_eq_cons c cs
  rw [← text_append_rest c cs, h]
  simp only [List.length_append, List.length_cons]
  omega

end Lexeme

/-! ### Tokens -/

/-- The tokens of a text and the errors in it, both in source order. -/
structure Lexed where
  /-- The tokens; the last one marks the end of the input. -/
  tokens : List Token
  /-- The lexical errors. -/
  errors : List LexError

namespace Lexed

/-- Whether there is any error. -/
def hasErrors (l : Lexed) : Bool := !l.errors.isEmpty

/-- The texts that the tokens add to the names of a program. -/
def names (l : Lexed) : List String := l.tokens.filterMap (·.kind.name?)

end Lexed

/-- The largest integer that an integer literal may denote, `2^63 - 1`. -/
def maxInteger : Nat := 0x7FFFFFFFFFFFFFFF

/-- The kind of token that a lexeme at the span `span` is, none for a gap, and the errors in it. -/
def Lexeme.read (l : Lexeme) (span : Span) : Option TokenKind × List LexError :=
  match l.shape with
  | .gap => (none, [])
  | .word =>
    let name := String.ofList l.text
    (some ((TokenKind.keyword? name).getD (.ident name)), [])
  | .numeral =>
    let value := Numeral.value l.text
    if value ≤ maxInteger then (some (.int (Int64.ofNat value)), [])
    else (some .invalid, [⟨.intOverflow (String.ofList l.text), span⟩])
  | .closedString body =>
    (some (.str (String.ofList (unescape body))), invalidEscapes (span.start + 1) body)
  | .openString => (some .invalid, [⟨.unterminatedString, span⟩])
  | .symbol kind => (some kind, [])
  | .stray c => (some .invalid, [⟨.unexpectedChar c, span⟩])

/-- The tokens and errors of the characters that start at the byte `offset` of a source. -/
def lexFrom (offset : Nat) : List Char → Lexed
  | [] => ⟨[⟨.eof, .ofRange offset offset⟩], []⟩
  | c :: cs =>
    let l := Lexeme.first c cs
    let stop := offset + byteLength l.text
    let span := Span.ofRange offset stop
    let (kind?, errors) := l.read span
    let later := lexFrom stop l.rest
    match kind? with
    | some kind => ⟨⟨kind, span⟩ :: later.tokens, errors ++ later.errors⟩
    | none => ⟨later.tokens, errors ++ later.errors⟩
termination_by cs => cs.length
decreasing_by exact Lexeme.length_rest_lt c cs

/-- The tokens of `source` and the errors in it. -/
def lex (source : String) : Lexed := lexFrom 0 source.toList

end MonkeyLang
