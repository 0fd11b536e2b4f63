import Mathlib.Data.Finset.Card
import Mathlib.Data.Finset.Insert
import Mathlib.Data.Finset.SDiff
import Mathlib.Data.List.Basic
import MonkeyLang.Store.Render

/-!
# Rendering ends

The bound on the levels of a rendered value is a bound only in name: a container is opened once, so
there are never more levels than containers that are still closed. Rendering with more levels gives
the same text (`Store.renderIn_eq_render`), whatever contains what.
-/

namespace MonkeyLang

namespace Store

/-- The arrays and hashes of the store. -/
def containers (s : Store) : Finset Value :=
  ((List.range s.arrays.size).map Value.array ++ (List.range s.hashes.size).map Value.hash).toFinset

/-- The containers of the store that are not open. -/
def closed (s : Store) (opened : List Value) : Finset Value := s.containers \ opened.toFinset

variable {s : Store} {opened : List Value} {n k : Nat}

theorem array_mem_containers {a : ArrayId} : .array a ∈ s.containers ↔ a < s.arrays.size := by
  simp [containers]

theorem hash_mem_containers {h : HashId} : .hash h ∈ s.containers ↔ h < s.hashes.size := by
  simp [containers]

theorem card_containers (s : Store) : s.containers.card ≤ s.arrays.size + s.hashes.size := by
  refine (List.toFinset_card_le _).trans ?_
  simp

/-- A container that is opened is not closed any more. -/
theorem card_closed_lt {v : Value} (hv : v ∈ s.containers) (hopened : v ∉ opened) :
    (s.closed (v :: opened)).card < (s.closed opened).card := by
  refine Finset.card_lt_card ((Finset.ssubset_iff_of_subset fun w hw => ?_).mpr ⟨v, ?_, ?_⟩)
  · simp only [closed, List.toFinset_cons, Finset.mem_sdiff, Finset.mem_insert, not_or] at hw ⊢
    exact ⟨hw.1, hw.2.2⟩
  · simpa [closed] using ⟨hv, hopened⟩
  · simp [closed]

/-- What an array that is not open contains is rendered with fewer containers closed. -/
theorem card_closed_array {a : ArrayId} {v : Value} (hv : v ∈ (s.array a).toList)
    (hopened : Value.array a ∉ opened) :
    (s.closed (.array a :: opened)).card < (s.closed opened).card := by
  refine card_closed_lt (array_mem_containers.mpr ?_) hopened
  by_contra hsize
  simp [array, Array.getD, hsize] at hv

/-- What a hash that is not open contains is rendered with fewer containers closed. -/
theorem card_closed_hash {h : HashId} {e : Key × Pair} (he : e ∈ (s.hash h).entries)
    (hopened : Value.hash h ∉ opened) :
    (s.closed (.hash h :: opened)).card < (s.closed opened).card := by
  refine card_closed_lt (hash_mem_containers.mpr ?_) hopened
  by_contra hsize
  simp [hash, Array.getD, hsize] at he

/-- If there are more levels than closed containers, more levels make no difference. -/
theorem renderIn_of_le (v : Value) (hn : (s.closed opened).card < n) (hk : n ≤ k) :
    s.renderIn k opened v = s.renderIn n opened v := by
  induction n generalizing k opened v with
  | zero => exact absurd hn (Nat.not_lt_zero _)
  | succ n ih =>
    obtain ⟨k, rfl⟩ : ∃ j, k = j + 1 := ⟨k - 1, by omega⟩
    cases v with
    | array a =>
      simp only [renderIn, List.contains_iff_mem]
      split
      · rfl
      next hopened =>
        have hitems : ∀ v ∈ (s.array a).toList,
            s.renderIn k (.array a :: opened) v = s.renderIn n (.array a :: opened) v := by
          intro v hv
          have hfewer := card_closed_array hv hopened
          exact ih v (by omega) (by omega)
        rw [List.map_congr_left hitems]
    | hash h =>
      simp only [renderIn, List.contains_iff_mem]
      split
      · rfl
      next hopened =>
        have hentries : ∀ e ∈ (s.hash h).entries, ∀ v,
            s.renderIn k (.hash h :: opened) v = s.renderIn n (.hash h :: opened) v := by
          intro e he v
          have hfewer := card_closed_hash he hopened
          exact ih v (by omega) (by omega)
        rw [List.map_congr_left fun e he => by rw [hentries e he, hentries e he]]
    | _ => rfl

/-- The text of a value does not depend on the bound on its levels. -/
theorem renderIn_eq_render (s : Store) (v : Value) (hn : s.levels ≤ n) :
    s.renderIn n [] v = s.render v := by
  refine renderIn_of_le v ?_ hn
  have hcard := s.card_containers
  simp only [closed, levels, List.toFinset_nil, Finset.sdiff_empty]
  omega

end Store

end MonkeyLang
