import Mathlib.Algebra.Group.Nat.Defs
import MonkeyLang.Token

/-!
# The words of the language

How words are spelt, and how a text is cut into words and gaps. Nothing here says how to find them.

A gap is a run of blanks or a comment. The next piece of a text is the gap at its front, if there is
one. If not, it is the longest word at its front, and where no word starts it is one character, which
is an invalid token. A text that ends without the closing quote of a string literal gets an invalid
token for the literal, which is therefore among the words.

## Main definitions

* `Lexical.Spells` : the words, with their kinds.
* `Lexical.Next` : the next piece of a text.
* `Lexical.Cut` : a text cut into pieces, and `Lexical.words`, the tokens that these make.
-/

namespace MonkeyLang.Lexical

/-! ### Characters -/

/-- Space, tab, carriage return and line feed. -/
def Blank (c : Char) : Prop := c = ' ' ∨ c = '\t' ∨ c = '\r' ∨ c = '\n'

/-- A letter of ASCII, or the underscore. -/
def Letter (c : Char) : Prop := 'a' ≤ c ∧ c ≤ 'z' ∨ 'A' ≤ c ∧ c ≤ 'Z' ∨ c = '_'

/-- A decimal digit. -/
def Digit (c : Char) : Prop := '0' ≤ c ∧ c ≤ '9'

/-- The number that decimal digits denote. -/
def number (cs : List Char) : Nat := Nat.ofDigitChars 10 cs 0

/-! ### Words -/

/-- The keywords. -/
def keywords : List TokenKind :=
  [.fnKw, .letKw, .trueKw, .falseKw, .ifKw, .elseKw, .returnKw, .forKw, .breakKw, .continueKw]

/-- The operators and delimiters. -/
def symbols : List TokenKind :=
  [.eqEq, .assign, .notEq, .bang, .plus, .minus, .star, .slash, .lt, .gt, .comma, .semicolon,
    .colon, .lparen, .rparen, .lbrace, .rbrace, .lbracket, .rbracket]

/-- The escapes of string literals: the character after the backslash, and what the two stand
for. -/
def escapes : List (Char × Char) := [('n', '\n'), ('t', '\t'), ('"', '"'), ('\\', '\\')]

/-- `Body cs ds`: between the quotes of a string literal, `cs` stands for the text `ds`. -/
inductive Body : List Char → List Char → Prop where
  /-- The empty text. -/
  | nil : Body [] []
  /-- A character that stands for itself. -/
  | plain {c : Char} {cs ds : List Char} :
      c ≠ '"' → c ≠ '\\' → Body cs ds → Body (c :: cs) (c :: ds)
  /-- An escape. -/
  | escape {c d : Char} {cs ds : List Char} :
      (c, d) ∈ escapes → Body cs ds → Body ('\\' :: c :: cs) (d :: ds)
  /-- A backslash before any other character; both stay. -/
  | unknown {c : Char} {cs ds : List Char} :
      (∀ d, (c, d) ∉ escapes) → Body cs ds → Body ('\\' :: c :: cs) ('\\' :: c :: ds)

/-- `Spells cs k`: the characters `cs` are a word of the kind `k`. -/
inductive Spells : List Char → TokenKind → Prop where
  /-- A keyword. -/
  | keyword {k : TokenKind} : k ∈ keywords → Spells k.displayName.toList k
  /-- An operator or a delimiter. -/
  | symbol {k : TokenKind} : k ∈ symbols → Spells k.displayName.toList k
  /-- An identifier: a letter, then letters and digits, and no keyword. -/
  | ident {c : Char} {cs : List Char} : Letter c → (∀ d ∈ cs, Letter d ∨ Digit d) →
      (∀ k ∈ keywords, k.displayName.toList ≠ c :: cs) →
        Spells (c :: cs) (.ident (String.ofList (c :: cs)))
  /-- A run of digits whose value is an integer of 64 bits. -/
  | int {cs : List Char} {v : Int64} : cs ≠ [] → (∀ c ∈ cs, Digit c) → v.toInt = number cs →
      Spells cs (.int v)
  /-- A run of digits whose value is too large. -/
  | tooLarge {cs : List Char} : cs ≠ [] → (∀ c ∈ cs, Digit c) → 2 ^ 63 ≤ number cs →
      Spells cs .invalid
  /-- A string literal. -/
  | closed {cs ds : List Char} : Body cs ds →
      Spells ('"' :: (cs ++ ['"'])) (.str (String.ofList ds))
  /-- A string literal without its closing quote. -/
  | unclosed {cs ds : List Char} : Body cs ds → Spells ('"' :: cs) .invalid

/-- `Gap cs rest`: the characters `cs` before `rest` are blanks or a comment, up to its end. -/
inductive Gap : List Char → List Char → Prop where
  /-- A run of blanks, as long as it goes on. -/
  | blanks {cs rest : List Char} : cs ≠ [] → (∀ c ∈ cs, Blank c) → (∀ c ∈ rest.head?, ¬ Blank c) →
      Gap cs rest
  /-- A comment, up to the end of the line. -/
  | comment {cs rest : List Char} : (∀ c ∈ cs, c ≠ '\n') → (∀ c ∈ rest.head?, c = '\n') →
      Gap ('/' :: '/' :: cs) rest

/-! ### Pieces -/

/-- `Next cs rest k?`: the next piece of a text is `cs`, before `rest`; it is a token of the kind
`k?`, or a gap. -/
inductive Next : List Char → List Char → Option TokenKind → Prop where
  /-- A gap. -/
  | gap {cs rest : List Char} : Gap cs rest → Next cs rest none
  /-- The longest word, where there is no gap. -/
  | word {cs rest : List Char} {k : TokenKind} :
      (∀ ds es, Gap ds es → cs ++ rest ≠ ds ++ es) → Spells cs k →
      (∀ ds es k', Spells ds k' → cs ++ rest = ds ++ es → ds.length ≤ cs.length) →
        Next cs rest (some k)
  /-- One character, where there is neither a gap nor a word. -/
  | stray {c : Char} {rest : List Char} :
      (∀ ds es, Gap ds es → c :: rest ≠ ds ++ es) →
      (∀ ds es k, Spells ds k → c :: rest ≠ ds ++ es) → Next [c] rest (some .invalid)

/-- A piece of a text. -/
structure Piece where
  /-- Its characters. -/
  text : List Char
  /-- The kind of token that it makes; a gap makes none. -/
  kind? : Option TokenKind

/-- `Cut cs ps`: the pieces of the text `cs` are `ps`. -/
inductive Cut : List Char → List Piece → Prop where
  /-- The empty text has no pieces. -/
  | nil : Cut [] []
  /-- The next piece, and the pieces of the rest. -/
  | cons {cs rest : List Char} {k? : Option TokenKind} {ps : List Piece} :
      Next cs rest k? → Cut rest ps → Cut (cs ++ rest) (⟨cs, k?⟩ :: ps)

/-- The tokens that the pieces make, when the first piece starts at the byte `offset`. -/
def words (offset : Nat) : List Piece → List Token
  | [] => []
  | p :: ps =>
    let stop := offset + byteLength p.text
    match p.kind? with
    | some k => ⟨k, ⟨offset, stop⟩⟩ :: words stop ps
    | none => words stop ps

/-- Whether the byte `offset` of the text is the first one of a character, or its end. -/
def Boundary (cs : List Char) (offset : Nat) : Prop :=
  ∃ ds es, cs = ds ++ es ∧ byteLength ds = offset

end MonkeyLang.Lexical
