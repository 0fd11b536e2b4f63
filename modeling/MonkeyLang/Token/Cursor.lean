import MonkeyLang.Token

/-!
# Cursors

A cursor reads a list of tokens from front to back. It never moves past an end marker, and a list
without one reads as if one stood behind it.
-/

namespace MonkeyLang

/-- A place in a list of tokens. -/
structure Cursor where
  /-- How many tokens have been consumed. -/
  position : Nat
  /-- The span of the token consumed last. -/
  previous : Span
  /-- The tokens that have not been consumed. -/
  rest : List Token

namespace Cursor

/-- The cursor at the front of a list. -/
def ofTokens (tokens : List Token) : Cursor := ⟨0, .nowhere, tokens⟩

/-- The token at the cursor. -/
def current (c : Cursor) : Token := c.rest.headD Token.endOfInput

/-- The kind of the token at the cursor. -/
def kind (c : Cursor) : TokenKind := c.current.kind

/-- The span of the token at the cursor. -/
def span (c : Cursor) : Span := c.current.span

/-- Whether the cursor is at the end of the input. -/
def atEnd (c : Cursor) : Bool := c.kind == .eof

/-- The cursor behind the current token, or where it is at the end of the input. -/
def advance (c : Cursor) : Cursor :=
  match c.rest with
  | [] => c
  | t :: ts => if t.kind == .eof then c else ⟨c.position + 1, t.span, ts⟩

/-- The cursor behind the current token if that is of the kind `k`, and whether it is. -/
def eat (c : Cursor) (k : TokenKind) : Bool × Cursor :=
  if c.kind == k then (true, c.advance) else (false, c)

/-- At the end of the input nothing is consumed. -/
theorem advance_eq_self {c : Cursor} (h : c.atEnd = true) : c.advance = c := by
  unfold advance
  split
  · rfl
  next t ts rest =>
    have : (t.kind == .eof) = true := by simpa [atEnd, kind, current, rest] using h
    simp [this]

end Cursor

end MonkeyLang
