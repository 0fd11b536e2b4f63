import MonkeyLang.Text.Numeral

/-!
# Spans

A span is a half-open range of byte offsets into a source text. Offsets are kept below `2^32`: a
range that does not fit either collapses onto the last offset (`Span.ofRange`) or is refused
(`Span.tryOfRange`).

## Main definitions

* `Span.merge` : the smallest span that covers two spans.
* `Span.position` : the line and column at which a span starts.
-/

namespace MonkeyLang

/-- The number of bytes that the characters `cs` take up in UTF-8, and `n` more. -/
def byteLengthFrom (n : Nat) (cs : List Char) : Nat := cs.foldl (fun n c => n + c.utf8Size) n

/-- The number of bytes that the characters `cs` take up in UTF-8. -/
def byteLength (cs : List Char) : Nat := byteLengthFrom 0 cs

theorem byteLengthFrom_eq (n : Nat) (cs : List Char) :
    byteLengthFrom n cs = n + byteLength cs := by
  induction cs generalizing n with
  | nil => rfl
  | cons c cs ih =>
    have first : byteLengthFrom n (c :: cs) = byteLengthFrom (n + c.utf8Size) cs := rfl
    have alone : byteLength (c :: cs) = byteLengthFrom (0 + c.utf8Size) cs := rfl
    rw [first, alone, ih, ih]
    omega

@[simp] theorem byteLength_nil : byteLength [] = 0 := rfl

@[simp] theorem byteLength_cons (c : Char) (cs : List Char) :
    byteLength (c :: cs) = c.utf8Size + byteLength cs := by
  have alone : byteLength (c :: cs) = byteLengthFrom (0 + c.utf8Size) cs := rfl
  rw [alone, byteLengthFrom_eq]
  omega

@[simp] theorem byteLength_append (cs ds : List Char) :
    byteLength (cs ++ ds) = byteLength cs + byteLength ds := by
  induction cs with
  | nil => simp
  | cons c cs ih => simp [ih, Nat.add_assoc]

/-- A line and a column of a text, both counted from one; columns count characters. -/
structure Position where
  /-- One more than the number of line feeds before the position. -/
  line : Nat
  /-- One more than the number of characters since the last line feed. -/
  column : Nat
  deriving DecidableEq

namespace Position

/-- Where a text starts. -/
def origin : Position := ⟨1, 1⟩

/-- The position after one more character. -/
def next (p : Position) (c : Char) : Position :=
  if c == '\n' then ⟨p.line + 1, 1⟩ else ⟨p.line, p.column + 1⟩

/-- The position after the characters `cs`. -/
def after (p : Position) (cs : List Char) : Position := cs.foldl next p

/-- The position `offset` bytes further on in `cs`, the end of `cs` at the latest. An offset that
falls inside a character has no position of its own and gets `whole`. -/
def advance (whole : Position) : Nat → Position → List Char → Position
  | _, p, [] => p
  | offset, p, c :: cs =>
    if offset = 0 then p
    else if c.utf8Size ≤ offset then advance whole (offset - c.utf8Size) (p.next c) cs
    else whole

end Position

/-- Why a range of offsets is not a span. -/
inductive SpanError where
  /-- The first offset is too large. -/
  | startTooLarge (offset : Nat)
  /-- The offset after the last is too large. -/
  | stopTooLarge (offset : Nat)
  deriving DecidableEq

/-- The text of a refusal, with the offset in hexadecimal. -/
def SpanError.message : SpanError → String
  | .startTooLarge offset => s!"span start 0x{Numeral.hex offset} exceeds u32::MAX"
  | .stopTooLarge offset => s!"span end 0x{Numeral.hex offset} exceeds u32::MAX"

/-- The half-open range of the byte offsets from `start` up to but without `stop`. -/
structure Span where
  /-- The first offset of the range. -/
  start : Nat
  /-- The offset after the last one of the range. -/
  stop : Nat
  deriving DecidableEq, Inhabited

namespace Span

/-- The largest offset that a span can hold, `2^32 - 1`. -/
def maxOffset : Nat := 0xFFFFFFFF

/-- The span of things that stand nowhere in a source. -/
def nowhere : Span := ⟨0, 0⟩

/-- The span from `start` to `stop`; offsets that are too large become the largest one. -/
def ofRange (start stop : Nat) : Span := ⟨min start maxOffset, min stop maxOffset⟩

/-- The span from `start` to `stop`, if both offsets fit. -/
def tryOfRange (start stop : Nat) : Except SpanError Span :=
  if maxOffset < start then .error (.startTooLarge start)
  else if maxOffset < stop then .error (.stopTooLarge stop)
  else .ok ⟨start, stop⟩

/-- The empty span at `offset`. -/
def point (offset : Nat) : Span := ⟨offset, offset⟩

/-- The number of bytes in the span; none if it ends before it starts. -/
def length (s : Span) : Nat := s.stop - s.start

/-- Whether the span holds no byte. -/
def isEmpty (s : Span) : Bool := s.stop ≤ s.start

/-- Whether `offset` is one of the offsets of the span. -/
def contains (s : Span) (offset : Nat) : Bool := s.start ≤ offset && offset < s.stop

/-- The smallest span that covers `s` and `t`. -/
def merge (s t : Span) : Span := ⟨min s.start t.start, max s.stop t.stop⟩

/-- The line and column of `source` at which the span starts. -/
def position (s : Span) (source : String) : Position :=
  let cs := source.toList
  Position.advance (Position.origin.after cs) s.start Position.origin cs

instance : ToString Span := ⟨fun s => s!"{s.start}..{s.stop}"⟩

end Span

end MonkeyLang
