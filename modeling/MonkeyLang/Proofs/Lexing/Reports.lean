import MonkeyLang.Proofs.Display.Lexes
import MonkeyLang.Proofs.Lexing.Places

/-!
# What the lexical errors are about

There are two sorts of lexical errors. An error about a word belongs to an invalid token at the same
place, and every invalid token has one. An error about an escape belongs to a string literal, which
is a token like any other: it is about a backslash and the character behind it, and both stay in the
text of the literal. Every escape that stands for nothing has one such error.

Whether a backslash in a string literal starts an escape depends on what is before it. It does if the
characters before it could stand between quotes alone, so that none of them takes the backslash away.

## Main definitions

* `Lexical.Covers` : the characters at a place.
* `Lexical.Literal` : the string literals of a text.
* `Lexical.Unknown` : the escapes in a string literal that stand for nothing.
* `Lexed.Accounted` : whether errors and tokens belong together.

## Main statements

* `mem_invalidEscapes_iff` : the escapes that are reported in one string literal.
* `lex_accounted` : the errors and the tokens of a source.
-/

namespace MonkeyLang

/-- Whether the error is about an escape in a string literal. -/
def LexError.isEscape (e : LexError) : Bool :=
  match e.cause with
  | .invalidEscape _ => true
  | _ => false

namespace Lexical

/-- `Covers offset cs s ds`: in the text `cs`, which starts at the byte `offset`, the characters at the
span `s` are `ds`. -/
def Covers (offset : Nat) (cs : List Char) (s : Span) (ds : List Char) : Prop :=
  ∃ before after, cs = before ++ (ds ++ after) ∧
    s = ⟨offset + byteLength before, offset + byteLength (before ++ ds)⟩

/-- `Literal offset cs t text body`: the token is a string literal of the text `cs`, which starts at
the byte `offset`. Between its quotes stands `body`, which stands for `text`. -/
structure Literal (offset : Nat) (cs : List Char) (t : Token) (text : String) (body : List Char) :
    Prop where
  kind : t.kind = .str text
  covers : Covers offset cs t.span ('"' :: (body ++ ['"']))
  body : Body body text.toList

/-- `Unknown body pre c`: behind `pre`, the body of a string literal has a backslash and the character
`c`, which are an escape that stands for nothing. What is before them is a body itself, so the
backslash is not the second half of an escape. -/
def Unknown (body pre : List Char) (c : Char) : Prop :=
  (∃ post, body = pre ++ '\\' :: c :: post) ∧ (∃ ts, Body pre ts) ∧ ∀ d, (c, d) ∉ escapes

/-- The place of a backslash and the character `c` behind the characters `pre` of a body that starts
at the byte `start`. -/
def escapeSpan (start : Nat) (pre : List Char) (c : Char) : Span :=
  ⟨start + byteLength pre, start + byteLength (pre ++ ['\\', c])⟩

/-! ### Escapes in one string literal -/

section Escapes

variable {start : Nat} {body pre : List Char} {c d : Char}

theorem escapeSpan_append (ds : List Char) :
    escapeSpan start (ds ++ pre) c = escapeSpan (start + byteLength ds) pre c := by
  simp [escapeSpan, Nat.add_assoc]

theorem not_unknown_nil : ¬ Unknown [] pre c := by
  rintro ⟨⟨post, h⟩, -⟩
  simp at h

/-- A character that stands for itself takes no part in an escape. -/
theorem unknown_plain_iff (hquote : c ≠ '"') (hback : c ≠ '\\') :
    Unknown (c :: body) pre d ↔ ∃ pre', pre = c :: pre' ∧ Unknown body pre' d := by
  constructor
  · rintro ⟨⟨post, h⟩, ⟨ts, hpre⟩, hd⟩
    cases hpre with
    | nil => exact absurd (List.cons.inj h).1 hback
    | plain _ _ hpre =>
      simp only [List.cons_append, List.cons.injEq] at h
      obtain ⟨rfl, h⟩ := h
      exact ⟨_, rfl, ⟨post, h⟩, ⟨_, hpre⟩, hd⟩
    | escape _ _ | unknown _ _ => exact absurd (List.cons.inj h).1 hback
  · rintro ⟨pre', rfl, ⟨post, rfl⟩, ⟨ts, hpre⟩, hd⟩
    exact ⟨⟨post, rfl⟩, ⟨_, .plain hquote hback hpre⟩, hd⟩

/-- A backslash takes the next character away. -/
theorem unknown_pair_iff :
    Unknown ('\\' :: c :: body) pre d ↔
      (pre = [] ∧ d = c ∧ ∀ e, (c, e) ∉ escapes) ∨
        ∃ pre', pre = '\\' :: c :: pre' ∧ Unknown body pre' d := by
  constructor
  · rintro ⟨⟨post, h⟩, ⟨ts, hpre⟩, hd⟩
    cases hpre with
    | nil =>
      simp only [List.nil_append, List.cons.injEq, true_and] at h
      obtain ⟨rfl, -⟩ := h
      exact .inl ⟨rfl, rfl, hd⟩
    | plain _ hback _ => exact absurd (List.cons.inj h).1.symm hback
    | escape _ hpre | unknown _ hpre =>
      simp only [List.cons_append, List.cons.injEq, true_and] at h
      obtain ⟨rfl, h⟩ := h
      exact .inr ⟨_, rfl, ⟨post, h⟩, ⟨_, hpre⟩, hd⟩
  · rintro (⟨rfl, rfl, hd⟩ | ⟨pre', rfl, ⟨post, rfl⟩, ⟨ts, hpre⟩, hd⟩)
    · exact ⟨⟨body, rfl⟩, ⟨_, .nil⟩, hd⟩
    · -- The pair is a part of a body, whether it stands for something or not.
      refine ⟨⟨post, rfl⟩, ?_, hd⟩
      by_cases hc : ∃ e, (c, e) ∈ escapes
      · obtain ⟨e, he⟩ := hc
        exact ⟨_, .escape he hpre⟩
      · exact ⟨_, .unknown (fun e he => hc ⟨e, he⟩) hpre⟩

/-- Escapes that are behind the characters `ds` of a body, and those in the rest of it. -/
theorem exists_escape_behind_iff {P : List Char → Char → Prop} (ds : List Char) {e : LexError} :
    (∃ pre c, (∃ pre', pre = ds ++ pre' ∧ P pre' c) ∧
        e = ⟨.invalidEscape c, escapeSpan start pre c⟩) ↔
      ∃ pre c, P pre c ∧ e = ⟨.invalidEscape c, escapeSpan (start + byteLength ds) pre c⟩ := by
  constructor
  · rintro ⟨pre, c, ⟨pre', rfl, hP⟩, rfl⟩
    exact ⟨pre', c, hP, by rw [escapeSpan_append]⟩
  · rintro ⟨pre, c, hP, rfl⟩
    exact ⟨ds ++ pre, c, ⟨pre, rfl, hP⟩, by rw [escapeSpan_append]⟩

/-- The errors in the body of a string literal are about its escapes that stand for nothing. -/
theorem mem_invalidEscapes_iff {ts : List Char} {e : LexError} (h : Body body ts)
    (hmax : start + byteLength body ≤ Span.maxOffset) :
    e ∈ invalidEscapes start body ↔
      ∃ pre c, Unknown body pre c ∧ e = ⟨.invalidEscape c, escapeSpan start pre c⟩ := by
  -- A body is taken apart as the lexer does it: what is further on is behind a character or a pair.
  induction h generalizing start with
  | nil => simp [invalidEscapes, not_unknown_nil]
  | @plain c body ts hquote hback _ ih =>
    simp only [byteLength_cons] at hmax
    simp only [unknown_plain_iff hquote hback]
    rw [invalidEscapes_cons hback, ih (by omega)]
    simpa using (exists_escape_behind_iff [c]).symm
  | @escape c d body ts hmem _ ih =>
    have hknown : ¬ ∀ e, (c, e) ∉ escapes := fun hnone => hnone d hmem
    have hpair : start + 1 + c.utf8Size = start + byteLength ['\\', c] := Nat.add_assoc start 1 _
    simp only [byteLength_cons, byteLength_nil] at hmax hpair
    simp only [unknown_pair_iff, hknown, and_false, false_or]
    simp only [invalidEscapes, escape?_eq_some_iff.2 hmem]
    rw [ih (by omega), hpair]
    simpa using (exists_escape_behind_iff ['\\', c]).symm
  | @unknown c body ts hnone _ ih =>
    have hpair : start + 1 + c.utf8Size = start + byteLength ['\\', c] := Nat.add_assoc start 1 _
    simp only [byteLength_cons, byteLength_nil] at hmax hpair
    have hspan : Span.ofRange start (start + 1 + c.utf8Size) = escapeSpan start [] c := by
      rw [ofRange_eq (by omega) (by omega), hpair]
      simp [escapeSpan]
    simp only [unknown_pair_iff, or_and_right, exists_or]
    simp only [invalidEscapes, escape?_eq_none_iff.2 hnone, List.mem_cons, hspan]
    rw [ih (by omega), hpair]
    refine or_congr ?_ (by simpa using (exists_escape_behind_iff ['\\', c]).symm)
    simp [hnone]

end Escapes

/-! ### Tokens and errors of a part -/

section Parts

variable {offset : Nat} {cs ds es : List Char} {s : Span} {t : Token} {text : String}
  {body : List Char}

theorem Covers.before (h : Covers offset cs s ds) (es : List Char) : Covers offset (cs ++ es) s ds := by
  obtain ⟨front, back, rfl, hs⟩ := h
  exact ⟨front, back ++ es, by simp, hs⟩

theorem Covers.behind (h : Covers (offset + byteLength es) cs s ds) : Covers offset (es ++ cs) s ds := by
  obtain ⟨front, back, rfl, rfl⟩ := h
  exact ⟨es ++ front, back, by simp, by simp [Nat.add_assoc]⟩

theorem Literal.before (h : Literal offset cs t text body) (es : List Char) :
    Literal offset (cs ++ es) t text body :=
  ⟨h.kind, h.covers.before es, h.body⟩

theorem Literal.behind (h : Literal (offset + byteLength es) cs t text body) :
    Literal offset (es ++ cs) t text body :=
  ⟨h.kind, h.covers.behind, h.body⟩

end Parts

end Lexical

open Lexical

/-- The tokens and errors `l` of the text `cs`, which starts at the byte `offset`, belong together. -/
structure Lexed.Accounted (offset : Nat) (cs : List Char) (l : Lexed) : Prop where
  /-- The errors about words are about the invalid tokens. -/
  invalid : (l.errors.filter (!·.isEscape)).map (·.span) =
    (l.tokens.filter (·.kind == .invalid)).map (·.span)
  /-- The errors about escapes are about escapes in the string literals. -/
  escape : ∀ e ∈ l.errors, e.isEscape = true → ∃ t ∈ l.tokens, ∃ text body pre c,
    Literal offset cs t text body ∧ Unknown body pre c ∧
      e = ⟨.invalidEscape c, escapeSpan (t.span.start + 1) pre c⟩
  /-- The escapes in the string literals have errors about them. -/
  literal : ∀ t ∈ l.tokens, ∀ text, t.kind = .str text → ∃ body, Literal offset cs t text body ∧
    ∀ pre c, Unknown body pre c →
      ⟨.invalidEscape c, escapeSpan (t.span.start + 1) pre c⟩ ∈ l.errors

namespace Lexed.Accounted

variable {offset : Nat} {cs ds : List Char} {l m : Lexed} {span : Span} {k : TokenKind}

/-- A text before another one. -/
theorem append (h : l.Accounted offset cs) (h' : m.Accounted (offset + byteLength cs) ds) :
    (⟨l.tokens ++ m.tokens, l.errors ++ m.errors⟩ : Lexed).Accounted offset (cs ++ ds) := by
  constructor
  · simp only [List.filter_append, List.map_append, h.invalid, h'.invalid]
  · intro e he hesc
    obtain he | he := List.mem_append.1 he
    · obtain ⟨t, ht, text, body, pre, c, hlit, hrest⟩ := h.escape e he hesc
      exact ⟨t, List.mem_append_left _ ht, text, body, pre, c, hlit.before ds, hrest⟩
    · obtain ⟨t, ht, text, body, pre, c, hlit, hrest⟩ := h'.escape e he hesc
      exact ⟨t, List.mem_append_right _ ht, text, body, pre, c, hlit.behind, hrest⟩
  · intro t ht text hk
    obtain ht | ht := List.mem_append.1 ht
    · obtain ⟨body, hlit, hall⟩ := h.literal t ht text hk
      exact ⟨body, hlit.before ds, fun pre c hu => List.mem_append_left _ (hall pre c hu)⟩
    · obtain ⟨body, hlit, hall⟩ := h'.literal t ht text hk
      exact ⟨body, hlit.behind, fun pre c hu => List.mem_append_right _ (hall pre c hu)⟩

/-- A gap. -/
theorem gap : (⟨[], []⟩ : Lexed).Accounted offset cs := ⟨rfl, by simp, by simp⟩

/-- A word that is no string literal. -/
theorem word (hk : k ≠ .invalid) (hstr : ∀ text, k ≠ .str text) :
    (⟨[⟨k, span⟩], []⟩ : Lexed).Accounted offset cs := by
  refine ⟨by simp [hk], by simp, fun t ht text htext => ?_⟩
  obtain rfl := List.mem_singleton.1 ht
  exact absurd htext (hstr text)

/-- An invalid token with its error. -/
theorem misspelt {e : LexError} (he : e.isEscape = false) :
    (⟨[⟨.invalid, e.span⟩], [e]⟩ : Lexed).Accounted offset cs := by
  refine ⟨by simp [he], fun e' he' hesc => ?_, fun t ht text htext => ?_⟩
  · obtain rfl := List.mem_singleton.1 he'
    rw [he] at hesc
    cases hesc
  · obtain rfl := List.mem_singleton.1 ht
    cases htext

/-- A string literal with the errors about its escapes. -/
theorem string {body ts : List Char} (hbody : Body body ts)
    (hspan : span = ⟨offset, offset + byteLength ('"' :: (body ++ ['"']))⟩)
    (hmax : span.stop ≤ Span.maxOffset) :
    (⟨[⟨.str (String.ofList ts), span⟩], invalidEscapes (span.start + 1) body⟩ : Lexed).Accounted
      offset ('"' :: (body ++ ['"'])) := by
  have hlit : Literal offset ('"' :: (body ++ ['"'])) ⟨.str (String.ofList ts), span⟩
      (String.ofList ts) body :=
    ⟨rfl, ⟨[], [], by simp, by simp [hspan]⟩, by simpa using hbody⟩
  have hmem (e : LexError) : e ∈ invalidEscapes (span.start + 1) body ↔
      ∃ pre c, Unknown body pre c ∧
        e = ⟨.invalidEscape c, escapeSpan (span.start + 1) pre c⟩ := by
    refine mem_invalidEscapes_iff hbody ?_
    have hquote : '"'.utf8Size = 1 := rfl
    simp only [hspan, byteLength_cons, byteLength_append, byteLength_nil] at hmax ⊢
    omega
  constructor
  · have hnone : (invalidEscapes (span.start + 1) body).filter (!·.isEscape) = [] := by
      refine List.filter_eq_nil_iff.2 fun e he => ?_
      obtain ⟨pre, c, -, rfl⟩ := (hmem e).1 he
      simp [LexError.isEscape]
    simp [hnone]
  · intro e he _
    obtain ⟨pre, c, hu, rfl⟩ := (hmem e).1 he
    exact ⟨_, List.mem_singleton_self _, _, _, pre, c, hlit, hu, rfl⟩
  · intro t ht text htext
    obtain rfl := List.mem_singleton.1 ht
    obtain rfl := TokenKind.str.inj htext
    exact ⟨body, hlit, fun pre c hu => (hmem _).2 ⟨pre, c, hu, rfl⟩⟩

end Lexed.Accounted

/-! ### Tokens and errors of a lexeme -/

namespace Lexeme

variable {c : Char} {cs : List Char}

/-- The body of a string literal is made of characters and escapes. -/
theorem body_of_closedString {body : List Char}
    (h : (first c cs).shape = .closedString body) : Body body (unescape body) := by
  have hnext := first_next c cs .nowhere
  have hread : ((first c cs).read .nowhere).1 = some (.str (String.ofList (unescape body))) := by
    rw [read, h]
  rw [hread] at hnext
  generalize hk : TokenKind.str (String.ofList (unescape body)) = k at hnext
  generalize htext : (first c cs).text = text at hnext
  cases hnext with
  | stray _ _ => cases hk
  | word _ hspells _ =>
    rw [← htext, text_of_closedString h] at hspells
    subst hk
    obtain ⟨bs, ts, hbs, hcs, -⟩ | ⟨-, hk⟩ := hspells.of_quote
    · rwa [List.append_cancel_right hcs, hbs.unescape_eq]
    · cases hk

/-- A symbol is an operator or a delimiter. -/
theorem mem_symbols_of_shape {k : TokenKind} (h : (first c cs).shape = .symbol k) : k ∈ symbols := by
  have hsingle {cs : List Char} (h : (single c cs).shape = .symbol k) : k ∈ symbols := by
    unfold single at h
    split at h
    next hsym =>
      obtain rfl := Shape.symbol.inj h
      exact (symbol?_eq_some_iff.1 hsym).1
    next => cases h
  unfold first at h
  split at h
  · cases h
  split at h
  · cases h
  split at h
  · cases h
  split at h
  · unfold stringLiteral at h
    split at h <;> cases h
  · unfold punctuation at h
    split at h
    · exact hsingle h
    split at h
    · cases h
    split at h
    next hpair =>
      obtain rfl := Shape.symbol.inj h
      exact (symbolPair?_eq_some_iff.1 hpair).1
    next => exact hsingle h

/-- The token of a lexeme and the errors in it belong together. -/
theorem read_accounted {offset : Nat} {span : Span}
    (hspan : span = ⟨offset, offset + byteLength (first c cs).text⟩)
    (hmax : span.stop ≤ Span.maxOffset) :
    (⟨(((first c cs).read span).1.map (⟨·, span⟩)).toList, ((first c cs).read span).2⟩ :
      Lexed).Accounted offset (first c cs).text := by
  unfold read
  cases hshape : (first c cs).shape with
  | gap => exact .gap
  | word =>
    dsimp only
    cases hkey : TokenKind.keyword? (String.ofList (first c cs).text) with
    | none => exact .word (by simp) (by simp)
    | some k =>
      obtain ⟨hk, -⟩ := keyword?_eq_some_iff.1 hkey
      refine .word ?_ fun text => ?_ <;> rintro rfl <;> simp [keywords] at hk
  | numeral =>
    dsimp only
    split
    · exact .word (by simp) (by simp)
    · exact .misspelt (e := ⟨.intOverflow _, span⟩) rfl
  | closedString body =>
    have htext := text_of_closedString hshape
    rw [htext] at hspan ⊢
    exact .string (body_of_closedString hshape) hspan hmax
  | openString => exact .misspelt (e := ⟨.unterminatedString, span⟩) rfl
  | symbol k =>
    have hk := mem_symbols_of_shape hshape
    refine .word ?_ fun text => ?_ <;> rintro rfl <;> simp [symbols] at hk
  | stray d => exact .misspelt (e := ⟨.unexpectedChar d, span⟩) rfl

end Lexeme

/-- The first lexeme of a text, and the tokens and errors of the rest. -/
theorem Lexed.Accounted.cons_first {c : Char} {cs : List Char} {offset stop : Nat} {span : Span}
    {l : Lexed} (h : l.Accounted stop (Lexeme.first c cs).rest)
    (hstop : stop = offset + byteLength (Lexeme.first c cs).text) (hspan : span = ⟨offset, stop⟩)
    (hmax : stop ≤ Span.maxOffset) :
    (⟨(((Lexeme.first c cs).read span).1.map (⟨·, span⟩)).toList ++ l.tokens,
      ((Lexeme.first c cs).read span).2 ++ l.errors⟩ : Lexed).Accounted offset (c :: cs) := by
  subst hspan
  have hfirst := @Lexeme.read_accounted c cs offset ⟨offset, stop⟩ (by rw [hstop]) hmax
  rw [← Lexeme.text_append_rest c cs]
  exact hfirst.append (hstop ▸ h)

theorem lexFrom_accounted {offset : Nat} {cs : List Char}
    (h : offset + byteLength cs ≤ Span.maxOffset) : (lexFrom offset cs).Accounted offset cs := by
  fun_induction lexFrom offset cs with
  | case1 offset => exact .word (by simp) (by simp)
  | case2 offset c cs l stop span errors later k hread ih =>
    have hlen : byteLength (c :: cs) = byteLength l.text + byteLength l.rest :=
      byteLength_first c cs
    have hspan : span = ⟨offset, stop⟩ := ofRange_eq (Nat.le_add_right _ _) (by omega)
    have hcons := (ih (by omega)).cons_first rfl hspan (by omega)
    rwa [hread] at hcons
  | case3 offset c cs l stop span errors later hread ih =>
    have hlen : byteLength (c :: cs) = byteLength l.text + byteLength l.rest :=
      byteLength_first c cs
    have hspan : span = ⟨offset, stop⟩ := ofRange_eq (Nat.le_add_right _ _) (by omega)
    have hcons := (ih (by omega)).cons_first rfl hspan (by omega)
    rwa [hread] at hcons

/-! ### Tokens and errors of a source -/

/-- An escape in a string literal is a backslash and a character inside the literal. -/
theorem Lexical.Literal.escape {offset : Nat} {cs body pre : List Char} {t : Token} {text : String}
    {c : Char} (h : Literal offset cs t text body) (hu : Unknown body pre c) :
    Covers offset cs (escapeSpan (t.span.start + 1) pre c) ['\\', c] ∧
      t.span.start < (escapeSpan (t.span.start + 1) pre c).start ∧
      (escapeSpan (t.span.start + 1) pre c).stop < t.span.stop := by
  obtain ⟨before, after, rfl, hspan⟩ := h.covers
  obtain ⟨⟨post, rfl⟩, -⟩ := hu
  have hquote : '"'.utf8Size = 1 := rfl
  refine ⟨⟨before ++ '"' :: pre, post ++ '"' :: after, by simp, ?_⟩, ?_, ?_⟩
  · simp only [hspan, escapeSpan, byteLength_append, byteLength_cons, hquote, Span.mk.injEq]
    omega
  · simp only [escapeSpan]
    omega
  · simp only [hspan, escapeSpan, byteLength_append, byteLength_cons, byteLength_nil, hquote]
    omega

/-- Of errors in strict order, only one is at a place. -/
theorem filter_span_eq {es : List LexError} {e : LexError}
    (h : es.Pairwise fun d e => d.span.start < e.span.start) (he : e ∈ es) :
    es.filter (·.span == e.span) = [e] := by
  have hnodup : es.Nodup := by
    refine h.imp ?_
    rintro d _ hlt rfl
    exact Nat.lt_irrefl _ hlt
  have hsame : ∀ d ∈ es, (d.span == e.span) = (d == e) := by
    intro d hd
    rw [Bool.eq_iff_iff, beq_iff_eq, beq_iff_eq]
    refine ⟨fun hspan => eq_of_start_eq h hd he (by rw [hspan]), ?_⟩
    rintro rfl
    rfl
  calc es.filter (·.span == e.span) = es.filter (· == e) := List.filter_congr hsame
    _ = List.replicate (es.count e) e := List.filter_beq e
    _ = [e] := by rw [hnodup.count, if_pos he, List.replicate_one]

/-- Errors and tokens of a source belong together. The errors that are not about escapes are those of
the invalid tokens, in the same order and at the same places. An error about an escape is about a
backslash and the character behind it, inside a string literal where they stand for nothing. A string
literal stands for the characters between its quotes with every escape of the language resolved, and
each of its other escapes is the matter of one error. The errors are in the order of their places. -/
theorem lex_accounted {source : String} (h : source.utf8ByteSize < 2 ^ 32) :
    ((lex source).errors.filter (!·.isEscape)).map (·.span) =
      ((lex source).tokens.filter (·.kind == .invalid)).map (·.span) ∧
    (∀ c s, ⟨.invalidEscape c, s⟩ ∈ (lex source).errors →
      Covers 0 source.toList s ['\\', c] ∧
      ∃ t ∈ (lex source).tokens, ∃ text body pre, Literal 0 source.toList t text body ∧
        Unknown body pre c ∧ s = escapeSpan (t.span.start + 1) pre c ∧
        t.span.start < s.start ∧ s.stop < t.span.stop) ∧
    (∀ t ∈ (lex source).tokens, ∀ text, t.kind = .str text →
      ∃ body, Literal 0 source.toList t text body ∧ ∀ pre c, Unknown body pre c →
        (lex source).errors.filter (·.span == escapeSpan (t.span.start + 1) pre c) =
          [⟨.invalidEscape c, escapeSpan (t.span.start + 1) pre c⟩]) ∧
    (lex source).errors.Pairwise fun d e => d.span.start < e.span.start := by
  have hsize := byteLength_toList source
  have hmax : Span.maxOffset + 1 = 2 ^ 32 := by decide
  have hall : (lex source).Accounted 0 source.toList := lexFrom_accounted (by omega)
  have hsorted := (lex_placed h).errors
  refine ⟨hall.invalid, fun c s he => ?_, fun t ht text hk => ?_, hsorted⟩
  · obtain ⟨t, ht, text, body, pre, d, hlit, hu, heq⟩ := hall.escape _ he rfl
    simp only [LexError.mk.injEq, LexError.Cause.invalidEscape.injEq] at heq
    obtain ⟨rfl, rfl⟩ := heq
    obtain ⟨hcovers, hinside⟩ := hlit.escape hu
    exact ⟨hcovers, t, ht, text, body, pre, hlit, hu, rfl, hinside⟩
  · obtain ⟨body, hlit, hmem⟩ := hall.literal t ht text hk
    exact ⟨body, hlit, fun pre c hu => filter_span_eq hsorted (hmem pre c hu)⟩

/-- A string literal with runs of backslashes before `n` and before a character of two bytes, a
character that starts no word, a number that is too large and a literal without its closing quote. -/
def misspelt : String := "\"\\q\\\\n\\\\\\é\" § 9223372036854775808 \"\\x"

/-- There are two escapes that stand for nothing in the misspelt text, and three invalid tokens. -/
theorem lex_misspelt_accounted :
    misspelt.utf8ByteSize < 2 ^ 32 ∧
    (lex misspelt).errors.map (·.span) = [⟨1, 3⟩, ⟨8, 11⟩, ⟨13, 15⟩, ⟨16, 35⟩, ⟨36, 39⟩] ∧
    ((lex misspelt).errors.filter (!·.isEscape)).map (·.span) =
      ((lex misspelt).tokens.filter (·.kind == .invalid)).map (·.span) ∧
    (Covers 0 misspelt.toList ⟨8, 11⟩ ['\\', 'é'] ∧
      ∃ t ∈ (lex misspelt).tokens, ∃ text body pre, Literal 0 misspelt.toList t text body ∧
        Unknown body pre 'é' ∧ ⟨8, 11⟩ = escapeSpan (t.span.start + 1) pre 'é' ∧
        t.span.start < 8 ∧ 11 < t.span.stop) ∧
    ∃ body, Literal 0 misspelt.toList ⟨.str "\\q\\n\\\\é", ⟨0, 12⟩⟩ "\\q\\n\\\\é" body ∧
      ∀ pre c, Unknown body pre c →
        (lex misspelt).errors.filter (·.span == escapeSpan 1 pre c) =
          [⟨.invalidEscape c, escapeSpan 1 pre c⟩] := by
  obtain ⟨hinvalid, hescape, hliteral, -⟩ := @lex_accounted misspelt (by decide)
  exact ⟨by decide, by decide +kernel, hinvalid, hescape 'é' ⟨8, 11⟩ (by decide +kernel),
    hliteral ⟨.str "\\q\\n\\\\é", ⟨0, 12⟩⟩ (by decide +kernel) _ rfl⟩

end MonkeyLang
