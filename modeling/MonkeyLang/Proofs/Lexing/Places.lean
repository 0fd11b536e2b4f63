import Mathlib.Data.List.Induction
import Mathlib.Data.List.Pairwise
import MonkeyLang.Proofs.Lexing.Escapes

/-!
# Places in a source

Tokens and lexical errors are at places between characters. The tokens are in the order of their
places and so are the errors, and no two of one sort start at the same place. A token and an error
start at the same place only if the token is what the error is about; an invalid escape is further on
in its string literal. So all the places that a lexed source names are told apart by where they start.

A place between characters has a line and a column, and the further on a place is, the later is its
position.

## Main definitions

* `Lexed.spans` : the places of the tokens and the errors.
* `Position.Before` : the order of positions, by lines and then by columns.

## Main statements

* `lex_placed` : the places of the tokens and the errors of a source.
* `Position.after_eq` : what lines and columns count.
-/

namespace MonkeyLang

open MonkeyLang.Lexical

/-! ### Tokens and errors -/

/-- The places of the tokens and of the errors. -/
def Lexed.spans (l : Lexed) : List Span := l.tokens.map (·.span) ++ l.errors.map (·.span)

/-- The tokens and errors `l` are those of the characters `cs`, which start at the byte `offset`: both
are in order, a token and an error that start together have the same span, and everything starts
between characters. -/
structure Lexed.Placed (offset : Nat) (cs : List Char) (l : Lexed) : Prop where
  tokens : l.tokens.Pairwise fun t u => t.span.start < u.span.start
  errors : l.errors.Pairwise fun d e => d.span.start < e.span.start
  together : ∀ t ∈ l.tokens, ∀ e ∈ l.errors, t.span.start = e.span.start → t.span = e.span
  places : ∀ s ∈ l.spans, ∃ n, Boundary cs n ∧ s.start = offset + n

/-- Of things in strict order, no two start at the same place. -/
theorem eq_of_start_eq {α : Type} {span : α → Span} {xs : List α} {x y : α}
    (h : xs.Pairwise fun x y => (span x).start < (span y).start) (hx : x ∈ xs) (hy : y ∈ xs)
    (heq : (span x).start = (span y).start) : x = y := by
  have hsymm : Std.Symm fun x y => (span x).start = (span y).start → x = y :=
    ⟨fun _ _ h heq => (h heq.symm).symm⟩
  have hall : xs.Pairwise fun x y => (span x).start = (span y).start → x = y :=
    h.imp fun hlt heq => absurd heq (Nat.ne_of_lt hlt)
  exact hall.forall_of_forall (fun _ _ _ => rfl) hx hy heq

/-- The text of a string literal is its body between quotes. -/
theorem Lexeme.text_of_closedString {c : Char} {cs body : List Char}
    (h : (first c cs).shape = .closedString body) :
    (first c cs).text = '"' :: (body ++ ['"']) := by
  have hsingle (cs : List Char) : (single c cs).shape ≠ .closedString body := by
    unfold single
    split <;> simp
  unfold first at h ⊢
  split at h
  · cases h
  split at h
  · cases h
  split at h
  · cases h
  split at h
  next hspace hword hdigit hquote =>
    rw [if_neg hspace, if_neg hword, if_neg hdigit, if_pos hquote]
    unfold stringLiteral at h ⊢
    split at h
    · cases h
      rfl
    · cases h
  · exfalso
    unfold punctuation at h
    split at h
    · exact hsingle _ h
    split at h
    · cases h
    split at h
    · cases h
    · exact hsingle _ h

/-- The errors in a lexeme are in order and inside it, and one that starts with it has its span. -/
theorem Lexeme.read_placed {c : Char} {cs : List Char} {span : Span}
    (hstop : span.stop = span.start + byteLength (first c cs).text)
    (hmax : span.stop ≤ Span.maxOffset) :
    ((first c cs).read span).2.Pairwise (fun d e => d.span.start < e.span.start) ∧
      ∀ e ∈ ((first c cs).read span).2, StartsIn span.start (first c cs).text e.span ∧
        (span.start = e.span.start → span = e.span) := by
  have htext : (first c cs).text ≠ [] := by
    obtain ⟨ds, hds⟩ := exists_text_eq_cons c cs
    simp [hds]
  -- An error about the whole lexeme.
  have hwhole (cause : LexError.Cause) :
      [LexError.mk cause span].Pairwise (fun d e => d.span.start < e.span.start) ∧
        ∀ e ∈ [LexError.mk cause span], StartsIn span.start (first c cs).text e.span ∧
          (span.start = e.span.start → span = e.span) := by
    refine ⟨List.pairwise_singleton _ _, fun e he => ?_⟩
    obtain rfl := List.mem_singleton.mp he
    exact ⟨.front htext rfl, fun _ => rfl⟩
  unfold read
  cases hshape : (first c cs).shape with
  | gap | word | symbol => exact ⟨.nil, by simp⟩
  | numeral =>
    dsimp only
    split
    · exact ⟨.nil, by simp⟩
    · exact hwhole _
  | openString | stray => exact hwhole _
  | closedString body =>
    have hbody := text_of_closedString hshape
    simp only [hbody, byteLength_cons, byteLength_append, byteLength_nil] at hstop
    have hquote : '"'.utf8Size = 1 := rfl
    obtain ⟨hsorted, hplaces⟩ := @invalidEscapes_placed (span.start + 1) body (by omega)
    refine ⟨hsorted, fun e he => ⟨?_, fun heq => ?_⟩⟩
    · rw [hbody]
      exact .after ['"'] ((hplaces e he).append ['"'])
    · exact absurd (hplaces e he).bounds.1 (by omega)

namespace Lexed.Placed

variable {offset : Nat} {text rest : List Char} {l : Lexed} {span : Span} {es : List LexError}

theorem le_start (h : l.Placed offset rest) : ∀ s ∈ l.spans, offset ≤ s.start := by
  intro s hs
  obtain ⟨n, -, hn⟩ := h.places s hs
  omega

/-- A lexeme at the front, which is a token or is dropped. -/
theorem cons (h : l.Placed (offset + byteLength text) rest) (htext : text ≠ [])
    (hspan : span.start = offset)
    (hsorted : es.Pairwise fun d e => d.span.start < e.span.start)
    (hes : ∀ e ∈ es, StartsIn offset text e.span ∧ (span.start = e.span.start → span = e.span))
    (k? : Option TokenKind) :
    (⟨(k?.map (⟨·, span⟩)).toList ++ l.tokens, es ++ l.errors⟩ : Lexed).Placed offset
      (text ++ rest) := by
  have hpos := byteLength_pos htext
  have hmine : ∀ t ∈ (k?.map (Token.mk · span)).toList, t.span = span := by
    cases k? <;> simp
  have htoken : ∀ t ∈ l.tokens, offset + byteLength text ≤ t.span.start := fun t ht =>
    h.le_start _ (List.mem_append_left _ (List.mem_map_of_mem ht))
  have herror : ∀ e ∈ l.errors, offset + byteLength text ≤ e.span.start := fun e he =>
    h.le_start _ (List.mem_append_right _ (List.mem_map_of_mem he))
  constructor
  · refine List.pairwise_append.mpr ⟨by cases k? <;> simp, h.tokens, fun t ht u hu => ?_⟩
    rw [hmine t ht, hspan]
    exact Nat.lt_of_lt_of_le (by omega) (htoken u hu)
  · refine List.pairwise_append.mpr ⟨hsorted, h.errors, fun d hd e he => ?_⟩
    exact Nat.lt_of_lt_of_le (hes d hd).1.bounds.2 (herror e he)
  · intro t ht e he heq
    obtain ht | ht := List.mem_append.mp ht <;> obtain he | he := List.mem_append.mp he
    · rw [hmine t ht] at heq ⊢
      exact (hes e he).2 heq
    · have := herror e he
      rw [hmine t ht] at heq
      omega
    · have := htoken t ht
      have := (hes e he).1.bounds.2
      omega
    · exact h.together t ht e he heq
  · intro s hs
    have hlater (hs : s ∈ l.spans) : ∃ n, Boundary (text ++ rest) n ∧ s.start = offset + n := by
      obtain ⟨n, ⟨ds, es, rfl, rfl⟩, hn⟩ := h.places s hs
      exact ⟨_, ⟨text ++ ds, es, by simp, rfl⟩, by rw [hn, byteLength_append, Nat.add_assoc]⟩
    simp only [spans, List.map_append, List.mem_append] at hs hlater
    obtain (hs | hs) | (hs | hs) := hs
    · obtain ⟨t, ht, rfl⟩ := List.mem_map.mp hs
      exact ⟨0, ⟨[], _, rfl, rfl⟩, by rw [hmine t ht, hspan]; rfl⟩
    · exact hlater (.inl hs)
    · obtain ⟨e, he, rfl⟩ := List.mem_map.mp hs
      obtain ⟨ds, fs, rfl, -, hstart⟩ := (hes e he).1
      exact ⟨_, ⟨ds, fs ++ rest, by simp, rfl⟩, hstart⟩
    · exact hlater (.inr hs)

/-- The first lexeme of a text, and the tokens and errors of the rest. -/
theorem cons_first {c : Char} {cs : List Char} {stop : Nat}
    (h : l.Placed stop (Lexeme.first c cs).rest)
    (hstop : stop = offset + byteLength (Lexeme.first c cs).text) (hspan : span = ⟨offset, stop⟩)
    (hmax : stop ≤ Span.maxOffset) :
    (⟨(((Lexeme.first c cs).read span).1.map (⟨·, span⟩)).toList ++ l.tokens,
      ((Lexeme.first c cs).read span).2 ++ l.errors⟩ : Lexed).Placed offset (c :: cs) := by
  have htext : (Lexeme.first c cs).text ≠ [] := by
    obtain ⟨ds, hds⟩ := Lexeme.exists_text_eq_cons c cs
    simp [hds]
  subst hspan
  obtain ⟨hsorted, hplaces⟩ := @Lexeme.read_placed c cs ⟨offset, stop⟩ hstop hmax
  rw [← Lexeme.text_append_rest c cs]
  exact (hstop ▸ h).cons htext rfl hsorted hplaces _

/-- Places of tokens and errors that start together are the same. -/
theorem span_eq_of_start_eq (h : l.Placed offset rest) {s t : Span} (hs : s ∈ l.spans)
    (ht : t ∈ l.spans) (heq : s.start = t.start) : s = t := by
  obtain hs | hs := List.mem_append.mp hs <;> obtain ht | ht := List.mem_append.mp ht <;>
    obtain ⟨x, hx, rfl⟩ := List.mem_map.mp hs <;> obtain ⟨y, hy, rfl⟩ := List.mem_map.mp ht
  · rw [eq_of_start_eq h.tokens hx hy heq]
  · exact h.together x hx y hy heq
  · exact (h.together y hy x hx heq.symm).symm
  · rw [eq_of_start_eq h.errors hx hy heq]

end Lexed.Placed

theorem lexFrom_placed {offset : Nat} {cs : List Char}
    (h : offset + byteLength cs ≤ Span.maxOffset) : (lexFrom offset cs).Placed offset cs := by
  fun_induction lexFrom offset cs with
  | case1 offset =>
    have hoffset : Span.ofRange offset offset = ⟨offset, offset⟩ := ofRange_eq (Nat.le_refl _) h
    rw [hoffset]
    refine ⟨List.pairwise_singleton _ _, .nil, by simp, fun s hs => ?_⟩
    obtain rfl : s = ⟨offset, offset⟩ := by simpa [Lexed.spans] using hs
    exact ⟨0, ⟨[], [], rfl, rfl⟩, rfl⟩
  | case2 offset c cs l stop span errors later k hread ih =>
    have hlen : byteLength (c :: cs) = byteLength l.text + byteLength l.rest :=
      byteLength_first c cs
    have hspan : span = ⟨offset, stop⟩ := ofRange_eq (Nat.le_add_right _ _) (by omega)
    have hcons := (ih (by omega)).cons_first rfl hspan (by omega)
    rwa [hread] at hcons
  | case3 offset c cs l stop span errors later hread ih =>
    have hlen : byteLength (c :: cs) = byteLength l.text + byteLength l.rest :=
      byteLength_first c cs
    have hspan : span = ⟨offset, stop⟩ := ofRange_eq (Nat.le_add_right _ _) (by omega)
    have hcons := (ih (by omega)).cons_first rfl hspan (by omega)
    rwa [hread] at hcons

/-- The places of the tokens and the errors of a source. -/
theorem lex_placed {source : String} (h : source.utf8ByteSize < 2 ^ 32) :
    (lex source).Placed 0 source.toList := by
  have hsize := byteLength_toList source
  have hmax : Span.maxOffset + 1 = 2 ^ 32 := by decide
  exact lexFrom_placed (by omega)

/-! ### Lines and columns -/

namespace Position

/-- The position comes before another one: it is on an earlier line, or further to the left. -/
def Before (p q : Position) : Prop := p.line < q.line ∨ p.line = q.line ∧ p.column < q.column

theorem Before.trans {p q r : Position} (h : p.Before q) (h' : q.Before r) : p.Before r := by
  unfold Before at *
  omega

theorem before_next (p : Position) (c : Char) : p.Before (p.next c) := by
  unfold next
  split
  · exact .inl (Nat.lt_succ_self _)
  · exact .inr ⟨rfl, Nat.lt_succ_self _⟩

/-- Every character takes the position further. -/
theorem before_after (p : Position) {cs : List Char} (h : cs ≠ []) : p.Before (p.after cs) := by
  induction cs generalizing p with
  | nil => exact absurd rfl h
  | cons c cs ih =>
    by_cases hcs : cs = []
    · subst hcs
      exact p.before_next c
    · exact (p.before_next c).trans (ih _ hcs)

theorem after_append (p : Position) (cs ds : List Char) :
    p.after (cs ++ ds) = (p.after cs).after ds := List.foldl_append

/-- Lines count line feeds, and columns the characters since the last of them, both from one. -/
theorem after_eq (cs : List Char) :
    origin.after cs = ⟨cs.count '\n' + 1, (cs.reverse.takeWhile (· ≠ '\n')).length + 1⟩ := by
  induction cs using List.reverseRecOn with
  | nil => rfl
  | append_singleton cs c ih =>
    have hlast : (origin.after cs).after [c] = (origin.after cs).next c := rfl
    rw [after_append, hlast, ih, next]
    by_cases hc : c = '\n' <;> simp [hc]

/-- A place between characters has the position after all the characters before it. -/
theorem advance_byteLength (whole p : Position) (ds es : List Char) :
    advance whole (byteLength ds) p (ds ++ es) = p.after ds := by
  induction ds generalizing p with
  | nil => cases es <;> rfl
  | cons d ds ih =>
    have hpos := d.utf8Size_pos
    have hle : d.utf8Size ≤ byteLength (d :: ds) := by simp
    have hsub : byteLength (d :: ds) - d.utf8Size = byteLength ds := by simp
    rw [List.cons_append, advance, if_neg (by omega), if_pos hle, hsub, ih]
    rfl

end Position

namespace Span

variable {source : String} {s t : Span}

theorem position_eq {ds es : List Char} (hsource : source.toList = ds ++ es)
    (hs : byteLength ds = s.start) : s.position source = Position.origin.after ds := by
  rw [position, hsource, ← hs]
  exact Position.advance_byteLength _ _ _ _

/-- Of two places between characters, the one further on has the later position. -/
theorem position_before (hs : Boundary source.toList s.start) (ht : Boundary source.toList t.start)
    (hlt : s.start < t.start) : (s.position source).Before (t.position source) := by
  obtain ⟨ds, es, hds, hs⟩ := hs
  obtain ⟨fs, gs, hfs, ht⟩ := ht
  rw [position_eq hds hs, position_eq hfs ht]
  -- What stands before the second place starts with what stands before the first.
  obtain ⟨xs, rfl, -⟩ | ⟨xs, rfl, -⟩ := List.append_eq_append_iff.mp (hds.symm.trans hfs)
  · rw [Position.after_append]
    refine Position.before_after _ ?_
    rintro rfl
    simp only [List.append_nil] at ht
    omega
  · rw [byteLength_append] at hs
    omega

end Span

end MonkeyLang
