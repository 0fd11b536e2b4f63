import MonkeyLang.Proofs.Lexing.MaximalMunch

/-!
# Escapes that stand for nothing

Where the lexer finds such escapes in the body of a string literal: before the characters of the body,
from left to right. Where the body itself stands makes no difference to whether there are any.

## Main statements

* `invalidEscapes_placed` : the order and the places of the invalid escapes.
-/

namespace MonkeyLang

open MonkeyLang.Lexical

/-- The span starts before one of the characters `cs`, which start at the byte `offset`. -/
def StartsIn (offset : Nat) (cs : List Char) (s : Span) : Prop :=
  ∃ ds es, cs = ds ++ es ∧ es ≠ [] ∧ s.start = offset + byteLength ds

namespace StartsIn

variable {offset : Nat} {cs : List Char} {s : Span}

theorem front (hcs : cs ≠ []) (hs : s.start = offset) : StartsIn offset cs s :=
  ⟨[], cs, rfl, hcs, hs⟩

/-- The span starts later in a longer text. -/
theorem after (ds : List Char) (h : StartsIn (offset + byteLength ds) cs s) : StartsIn offset (ds ++ cs) s := by
  obtain ⟨fs, es, rfl, hne, hstart⟩ := h
  refine ⟨ds ++ fs, es, by simp, hne, ?_⟩
  rw [hstart, byteLength_append, Nat.add_assoc]

theorem append (h : StartsIn offset cs s) (ds : List Char) : StartsIn offset (cs ++ ds) s := by
  obtain ⟨fs, es, rfl, hne, hstart⟩ := h
  exact ⟨fs, es ++ ds, by simp, by simp [hne], hstart⟩

theorem bounds (h : StartsIn offset cs s) :
    offset ≤ s.start ∧ s.start < offset + byteLength cs := by
  obtain ⟨fs, es, rfl, hne, hstart⟩ := h
  have hpos := byteLength_pos hne
  rw [byteLength_append]
  omega

end StartsIn

/-- The invalid escapes in the body of a string literal are in order and inside it. -/
theorem invalidEscapes_placed {offset : Nat} {cs : List Char}
    (h : offset + byteLength cs ≤ Span.maxOffset) :
    (invalidEscapes offset cs).Pairwise (fun d e => d.span.start < e.span.start) ∧
      ∀ e ∈ invalidEscapes offset cs, StartsIn offset cs e.span := by
  fun_induction invalidEscapes offset cs with
  | case1 offset c cs stop d hd ih =>
    have hpair : stop = offset + byteLength ['\\', c] := Nat.add_assoc offset 1 _
    simp only [byteLength_cons, byteLength_nil] at h hpair
    obtain ⟨hsorted, hplaces⟩ := ih (by omega)
    exact ⟨hsorted, fun e he => .after ['\\', c] (hpair ▸ hplaces e he)⟩
  | case2 offset c cs stop hc ih =>
    have hpair : stop = offset + byteLength ['\\', c] := Nat.add_assoc offset 1 _
    simp only [byteLength_cons, byteLength_nil] at h hpair
    obtain ⟨hsorted, hplaces⟩ := ih (by omega)
    have hspan : Span.ofRange offset stop = ⟨offset, stop⟩ := ofRange_eq (by omega) (by omega)
    rw [hspan]
    refine ⟨.cons (fun e he => ?_) hsorted, fun e he => ?_⟩
    · have hslash : '\\'.utf8Size = 1 := rfl
      have hlater := (hplaces e he).bounds.1
      show offset < e.span.start
      omega
    · obtain rfl | he := List.mem_cons.mp he
      · exact .front (List.cons_ne_nil _ _) rfl
      · exact .after ['\\', c] (hpair ▸ hplaces e he)
  | case3 offset c cs _ ih =>
    have hone : byteLength [c] = c.utf8Size := by simp
    simp only [byteLength_cons] at h
    obtain ⟨hsorted, hplaces⟩ := ih (by omega)
    exact ⟨hsorted, fun e he => .after [c] (hone.symm ▸ hplaces e he)⟩
  | case4 => exact ⟨.nil, by simp⟩

/-- Whether there are escapes that stand for nothing is no matter of place. -/
theorem invalidEscapes_eq_nil {offset : Nat} {cs : List Char} (h : invalidEscapes offset cs = [])
    (offset' : Nat) : invalidEscapes offset' cs = [] := by
  fun_induction invalidEscapes offset cs generalizing offset' with
  | case1 offset c cs stop d hd ih =>
    rw [invalidEscapes, hd]
    exact ih h _
  | case2 => simp at h
  | case3 offset c cs hpair ih =>
    rw [invalidEscapes]
    · exact ih h _
    · exact hpair
  | case4 => rfl

end MonkeyLang
