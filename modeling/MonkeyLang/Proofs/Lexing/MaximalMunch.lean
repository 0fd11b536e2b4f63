import MonkeyLang.Proofs.Lexing.Cutting

/-!
# The lexer takes the longest word

From the beginning of a source to its end, gaps are passed over and the longest word that the
characters spell becomes the next token. The tokens and the gaps make up the source, and the spans
of the tokens say where.

Offsets are kept below four gigabytes, so this is about the sources that are not longer.

## Main statements

* `exists_cut` : the tokens of a text are those of its pieces.
* `lex_takes_longest` : the same for a source, with what it means for the spans.
-/

namespace MonkeyLang.Lexical

theorem byteLength_toList (s : String) : byteLength s.toList = s.utf8ByteSize := by
  have hsum : ∀ cs : List Char, cs.utf8Encode.size = byteLength cs := by
    intro cs
    induction cs with
    | nil => rfl
    | cons c cs ih =>
      rw [← List.singleton_append, List.utf8Encode_append, ByteArray.size_append, ih,
        List.utf8Encode_singleton, List.size_toByteArray, String.length_utf8EncodeChar,
        List.singleton_append, byteLength_cons]
  rw [← hsum, String.utf8Encode_toList]
  rfl

theorem byteLength_pos {cs : List Char} (h : cs ≠ []) : 0 < byteLength cs := by
  cases cs with
  | nil => exact absurd rfl h
  | cons c cs =>
    rw [byteLength_cons]
    exact Nat.add_pos_left c.utf8Size_pos _

/-- A range that ends in time is a span. -/
theorem ofRange_eq {start stop : Nat} (h : start ≤ stop) (hstop : stop ≤ Span.maxOffset) :
    Span.ofRange start stop = ⟨start, stop⟩ := by
  rw [Span.ofRange, Nat.min_eq_left (Nat.le_trans h hstop), Nat.min_eq_left hstop]

/-! ### The tokens of a text -/

theorem byteLength_first (c : Char) (cs : List Char) :
    byteLength (c :: cs) =
      byteLength (Lexeme.first c cs).text + byteLength (Lexeme.first c cs).rest := by
  rw [← byteLength_append, Lexeme.text_append_rest]

/-- The first lexeme of a text, and the pieces of the rest. -/
theorem Cut.first {c : Char} {cs : List Char} {ps : List Piece} {k? : Option TokenKind}
    {span : Span} (hread : ((Lexeme.first c cs).read span).1 = k?)
    (h : Cut (Lexeme.first c cs).rest ps) : Cut (c :: cs) (⟨(Lexeme.first c cs).text, k?⟩ :: ps) := by
  rw [← Lexeme.text_append_rest c cs, ← hread]
  exact .cons (first_next c cs span) h

/-- The tokens of a text are those that its pieces make, and the marker of its end. -/
theorem exists_cut {offset : Nat} {cs : List Char} (h : offset + byteLength cs ≤ Span.maxOffset) :
    ∃ ps, Cut cs ps ∧ (lexFrom offset cs).tokens =
      words offset ps ++ [⟨.eof, ⟨offset + byteLength cs, offset + byteLength cs⟩⟩] := by
  fun_induction lexFrom offset cs with
  | case1 offset => exact ⟨[], .nil, by simpa [words] using ofRange_eq (Nat.le_refl _) h⟩
  | case2 offset c cs l stop span errors later k hread ih =>
    have hlen : byteLength (c :: cs) = byteLength l.text + byteLength l.rest :=
      byteLength_first c cs
    obtain ⟨ps, hps, htokens⟩ := ih (by omega)
    refine ⟨⟨l.text, some k⟩ :: ps, .first (congrArg Prod.fst hread) hps, ?_⟩
    have hspan : span = ⟨offset, stop⟩ := ofRange_eq (Nat.le_add_right _ _) (by omega)
    rw [hlen, ← Nat.add_assoc]
    exact (congrArg (⟨k, span⟩ :: ·) htokens).trans (by rw [hspan])
  | case3 offset c cs l stop span errors later hread ih =>
    have hlen : byteLength (c :: cs) = byteLength l.text + byteLength l.rest :=
      byteLength_first c cs
    obtain ⟨ps, hps, htokens⟩ := ih (by omega)
    refine ⟨⟨l.text, none⟩ :: ps, .first (congrArg Prod.fst hread) hps, ?_⟩
    rw [hlen, ← Nat.add_assoc]
    exact htokens

/-! ### Where the tokens are -/

/-- Pieces make up the text that they are cut from. -/
theorem Cut.flatMap_text {cs : List Char} {ps : List Piece} (h : Cut cs ps) :
    ps.flatMap (·.text) = cs := by
  induction h with
  | nil => rfl
  | cons _ _ ih => rw [List.flatMap_cons, ih]

/-- No word is the marker of the end. -/
theorem Spells.ne_eof {cs : List Char} {k : TokenKind} (h : Spells cs k) : k ≠ .eof := by
  rintro rfl
  generalize hk : TokenKind.eof = k at h
  cases h with
  | keyword h | symbol h =>
    subst hk
    exact absurd h (by decide)
  | _ => cases hk

theorem Next.ne_eof {cs rest : List Char} {k : TokenKind} (h : Next cs rest (some k)) :
    k ≠ .eof := by
  cases h with
  | word _ hk _ => exact hk.ne_eof
  | stray _ _ => decide

/-- A token of a text that starts at the byte `offset` is where some of its characters are. -/
theorem Cut.exists_of_mem_words {offset : Nat} {cs : List Char} {ps : List Piece} {t : Token}
    (h : Cut cs ps) (ht : t ∈ words offset ps) :
    t.kind ≠ .eof ∧ ∃ ds es fs, cs = ds ++ es ++ fs ∧ es ≠ [] ∧
      t.span = ⟨offset + byteLength ds, offset + byteLength (ds ++ es)⟩ := by
  induction h generalizing offset with
  | nil => cases ht
  | @cons text rest k? ps hnext _ ih =>
    have later (ht : t ∈ words (offset + byteLength text) ps) :
        t.kind ≠ .eof ∧ ∃ ds es fs, text ++ rest = ds ++ es ++ fs ∧ es ≠ [] ∧
          t.span = ⟨offset + byteLength ds, offset + byteLength (ds ++ es)⟩ := by
      obtain ⟨hk, ds, es, fs, rfl, hne, hspan⟩ := ih ht
      exact ⟨hk, text ++ ds, es, fs, by simp, hne, by simp [hspan, Nat.add_assoc]⟩
    cases k? with
    | none => exact later ht
    | some k =>
      obtain rfl | ht := List.mem_cons.1 ht
      · exact ⟨hnext.ne_eof, [], text, rest, by simp, hnext.ne_nil, by simp⟩
      · exact later ht

/-- Tokens are one after the other. -/
theorem Cut.pairwise_words {cs : List Char} {ps : List Piece} (h : Cut cs ps) (offset : Nat) :
    (words offset ps).Pairwise fun t u => t.span.stop ≤ u.span.start := by
  induction h generalizing offset with
  | nil => exact .nil
  | @cons text rest k? ps _ hps ih =>
    cases k? with
    | none => exact ih _
    | some k =>
      refine .cons (fun u hu => ?_) (ih _)
      obtain ⟨-, ds, es, fs, -, -, hspan⟩ := hps.exists_of_mem_words hu
      simp [hspan]

/-- The lexer takes the longest word. For every source of less than four gigabytes there is one way
to cut it into gaps, longest words and characters that start no word. The lexer answers with the
tokens of these pieces and one marker at the end. The pieces make up the source, so the tokens are
not empty, one after the other, and between characters. -/
theorem lex_takes_longest (source : String) (h : source.utf8ByteSize < 2 ^ 32) :
    ∃ ps, Cut source.toList ps ∧ (∀ qs, Cut source.toList qs → qs = ps) ∧
      (lex source).tokens =
        words 0 ps ++ [⟨.eof, ⟨source.utf8ByteSize, source.utf8ByteSize⟩⟩] ∧
      ps.flatMap (·.text) = source.toList ∧
      (∀ t ∈ words 0 ps, t.kind ≠ .eof ∧ t.span.start < t.span.stop ∧
        Boundary source.toList t.span.start ∧ Boundary source.toList t.span.stop) ∧
      (words 0 ps).Pairwise fun t u => t.span.stop ≤ u.span.start := by
  have hsize := byteLength_toList source
  have hmax : Span.maxOffset + 1 = 2 ^ 32 := by decide
  obtain ⟨ps, hps, htokens⟩ := @exists_cut 0 source.toList (by omega)
  rw [Nat.zero_add, hsize] at htokens
  refine ⟨ps, hps, fun qs hqs => hqs.unique hps, htokens, hps.flatMap_text, ?_,
    hps.pairwise_words 0⟩
  intro t ht
  obtain ⟨hk, ds, es, fs, hcs, hne, hspan⟩ := hps.exists_of_mem_words ht
  rw [hspan, Nat.zero_add, Nat.zero_add]
  refine ⟨hk, ?_, ⟨ds, es ++ fs, by simp [hcs], rfl⟩, ⟨ds ++ es, fs, hcs, rfl⟩⟩
  have := byteLength_pos hne
  rw [byteLength_append]
  exact Nat.lt_add_of_pos_right this

/-- A keyword inside a name, an escaped quote, a comment, a long character and a literal that ends
with a lone backslash. -/
def crowded : String := "if_==\"é\\\"\"//ü\n\"x\\"

/-- The crowded text is cut in one way. -/
theorem lex_crowded_takes_longest :
    crowded.utf8ByteSize < 2 ^ 32 ∧
    ∃ ps, Cut crowded.toList ps ∧ (∀ qs, Cut crowded.toList qs → qs = ps) ∧
      (lex crowded).tokens =
        words 0 ps ++ [⟨.eof, ⟨crowded.utf8ByteSize, crowded.utf8ByteSize⟩⟩] ∧
      ps.flatMap (·.text) = crowded.toList ∧
      (∀ t ∈ words 0 ps, t.kind ≠ .eof ∧ t.span.start < t.span.stop ∧
        Boundary crowded.toList t.span.start ∧ Boundary crowded.toList t.span.stop) ∧
      (words 0 ps).Pairwise fun t u => t.span.stop ≤ u.span.start :=
  ⟨by decide, lex_takes_longest crowded (by decide)⟩

end MonkeyLang.Lexical
