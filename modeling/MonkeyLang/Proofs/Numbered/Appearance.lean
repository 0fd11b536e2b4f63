import Mathlib
import MonkeyLang.Proofs.Numbered.Table

/-!
# Numbers in the order of appearance

A table holds the texts that have been entered into it, each of them once, and a new text gets the
number of those that are there already. So the number of a text says how many different texts came
up before it did. This does not depend on how often texts are entered, and it stays as it is when
more of them are.

The reserved texts are the first ones that are entered, so they need no treatment of their own.

## Main definitions

* `NameTable.earlier` : how many different texts come up before a text.

## Main statements

* `NameTable.number_internAll_empty` : the number of a text, from what has been entered.
* `NameTable.tryInternAll_eq` : there are numbers for all texts as long as there are not too many.
* `NameTable.tryInternAll_bijective` : the numbers of texts at all times.
-/

namespace MonkeyLang.NameTable

variable {t : NameTable} {x y : String} {xs ys : List String}

/-! ### Single texts -/

theorem number_of_notMem (h : x ∉ t.names) : t.number x = t.size := by
  rw [number, intern_of_get?_eq_none (get?_eq_none_iff.2 h)]

theorem intern_of_mem (h : x ∈ t.names) : (t.intern x).2 = t := by
  rw [intern_of_get? (get?_of_mem h)]

theorem names_intern_of_notMem (h : x ∉ t.names) : (t.intern x).2.names = t.names.push x := by
  rw [intern_of_get?_eq_none (get?_eq_none_iff.2 h)]
  rfl

theorem mem_names_intern_iff : y ∈ (t.intern x).2.names ↔ y ∈ t.names ∨ y = x := by
  by_cases hx : x ∈ t.names
  · rw [intern_of_mem hx]
    exact ⟨.inl, fun h => h.elim id fun h => h ▸ hx⟩
  · rw [names_intern_of_notMem hx, Array.mem_push]

/-- The table grows by one exactly when the text is new. -/
theorem size_intern (t : NameTable) (x : String) :
    (t.intern x).2.size = t.size + if x ∈ t.names then 0 else 1 := by
  by_cases hx : x ∈ t.names
  · rw [intern_of_mem hx, if_pos hx, Nat.add_zero]
  · rw [size, names_intern_of_notMem hx, Array.size_push, if_neg hx, size]

/-- The number that is given to a text is the one it has from then on. -/
theorem number_intern_self (t : NameTable) (x : String) : (t.intern x).2.number x = t.number x := by
  by_cases hx : x ∈ t.names
  · rw [intern_of_mem hx]
  · rw [number_of_notMem hx]
    refine number_of_get? (((t.intern x).2.inverse x t.size).2 ?_)
    rw [names_intern_of_notMem hx, size, Array.getElem?_push_size]

theorem number_lt_size (h : x ∈ t.names) : t.number x < t.size :=
  (Array.getElem?_eq_some_iff.1 ((t.inverse x _).1 (get?_of_mem h))).1

theorem lookup_eq_getElem {i : Nat} (h : i < t.size) : t.lookup i = t.names[i] := by
  rw [lookup, Array.getD_eq_getD_getElem?, Array.getElem?_eq_getElem h, Option.getD_some]

/-- The number of the text with the number `i` is `i`. -/
theorem number_lookup {i : Nat} (h : i < t.size) : t.number (t.lookup i) = i := by
  rw [lookup_eq_getElem h]
  exact number_of_get? ((t.inverse _ i).2 (Array.getElem?_eq_getElem h))

theorem lookup_mem {i : Nat} (h : i < t.size) : t.lookup i ∈ t.names := by
  rw [lookup_eq_getElem h]
  exact Array.getElem_mem h

theorem lookup_of_size_le {i : Nat} (h : t.size ≤ i) : t.lookup i = "" := by
  rw [lookup, Array.getD_eq_getD_getElem?, Array.getElem?_eq_none h, Option.getD_none]

/-! ### Many texts -/

theorem internAll_append (t : NameTable) (xs ys : List String) :
    t.internAll (xs ++ ys) = (t.internAll xs).internAll ys :=
  List.foldl_append

theorem mem_names_internAll_iff : y ∈ (t.internAll xs).names ↔ y ∈ t.names ∨ y ∈ xs := by
  induction xs generalizing t with
  | nil => simp [internAll]
  | cons x xs ih =>
    rw [internAll, List.foldl_cons, ← internAll, ih, mem_names_intern_iff, List.mem_cons, or_assoc]

theorem size_le_size_internAll (t : NameTable) (xs : List String) :
    t.size ≤ (t.internAll xs).size := by
  induction xs generalizing t with
  | nil => exact Nat.le_refl _
  | cons x xs ih =>
    refine Nat.le_trans ?_ (ih (t.intern x).2)
    rw [size_intern]
    exact Nat.le_add_right _ _

/-- No text is in a table twice. -/
theorem nodup_names (t : NameTable) : t.names.toList.Nodup := by
  refine List.nodup_iff_getElem?_ne_getElem?.2 fun i j hij hj heq => ?_
  rw [Array.getElem?_toList, Array.getElem?_toList] at heq
  rw [Array.length_toList] at hj
  have hnumber := (t.inverse _ j).2 (Array.getElem?_eq_getElem hj)
  have hnumber' := (t.inverse _ i).2 (heq.trans (Array.getElem?_eq_getElem hj))
  have := Option.some.inj (hnumber.symm.trans hnumber')
  omega

/-- The size of a table is the number of different texts that have been entered. -/
theorem size_internAll_empty (xs : List String) : (empty.internAll xs).size = xs.toFinset.card := by
  have hsame : xs.toFinset = (empty.internAll xs).names.toList.toFinset := by
    ext x
    simp [mem_names_internAll_iff, empty]
  rw [hsame, List.toFinset_card_of_nodup (nodup_names _), Array.length_toList, size]

/-- The number of a text is that of the different texts in front of its first appearance. -/
theorem number_internAll_empty (h : x ∈ xs) :
    (empty.internAll xs).number x = (xs.takeWhile (· != x)).toFinset.card := by
  obtain ⟨as, bs, rfl, has⟩ := List.eq_append_cons_of_mem h
  have htake : (as ++ x :: bs).takeWhile (· != x) = as := by
    have hne : ∀ a ∈ as, (a != x) = true := fun a ha => bne_iff_ne.2 (ne_of_mem_of_not_mem ha has)
    rw [List.takeWhile_append_of_pos hne]
    simp
  have hnew : x ∉ (empty.internAll as).names := by
    rw [mem_names_internAll_iff]
    simpa [empty] using has
  rw [htake, internAll_append, ← size_internAll_empty as, ← number_of_notMem hnew]
  exact ((grows_internAll _ bs).number x (mem_intern _ x)).trans (number_intern_self _ x)

/-! ### While there are numbers -/

theorem tryIntern_of_size_le (h : t.size ≤ maxNumber) : t.tryIntern x = .ok (t.intern x) :=
  if_pos (.inr h)

theorem tryIntern_of_mem (h : x ∈ t.names) : t.tryIntern x = .ok (t.intern x) :=
  if_pos (.inl (by rw [Dict.contains, get?_of_mem h, Option.isSome_some]))

/-- If there are numbers for all texts, each one gets the number that it has in the end. -/
theorem tryInternAll_eq (h : (t.internAll xs).size ≤ maxNumber + 1) :
    t.tryInternAll xs = .ok (xs.map (t.internAll xs).number, t.internAll xs) := by
  induction xs generalizing t with
  | nil => rfl
  | cons x xs ih =>
    have hfirst : t.tryIntern x = .ok (t.intern x) := by
      by_cases hx : x ∈ t.names
      · exact tryIntern_of_mem hx
      · have hsize := size_le_size_internAll (t.intern x).2 xs
        rw [size_intern, if_neg hx] at hsize
        exact tryIntern_of_size_le (Nat.le_of_succ_le_succ (Nat.le_trans hsize h))
    have hnumber : (t.internAll (x :: xs)).number x = (t.intern x).1 :=
      (((t.intern x).2.grows_internAll xs).number x (t.mem_intern x)).trans (t.number_intern_self x)
    rw [tryInternAll, hfirst, List.map_cons, hnumber]
    dsimp only
    rw [ih h]
    rfl

theorem size_intern_le (h : x ∈ t.names ∨ t.size ≤ maxNumber) (hsize : t.size ≤ maxNumber + 1) :
    (t.intern x).2.size ≤ maxNumber + 1 := by
  rw [size_intern]
  split
  · exact hsize
  next hx => exact Nat.succ_le_succ (h.resolve_left hx)

/-- Entering texts fails exactly when there are more different texts than numbers, and then at the
first text for which there is none. -/
theorem tryInternAll_eq_error_iff {e : Overflow} (h : t.size ≤ maxNumber + 1) :
    t.tryInternAll xs = .error e ↔
      maxNumber + 1 < (t.internAll xs).size ∧ e = ⟨maxNumber + 1⟩ := by
  induction xs generalizing t with
  | nil => exact ⟨nofun, fun hlt => absurd hlt.1 (Nat.not_lt.2 h)⟩
  | cons x xs ih =>
    by_cases hx : x ∈ t.names ∨ t.size ≤ maxNumber
    · have hfirst : t.tryIntern x = .ok (t.intern x) :=
        hx.elim tryIntern_of_mem tryIntern_of_size_le
      rw [tryInternAll, hfirst]
      refine Iff.trans ?_ (ih (size_intern_le hx h))
      dsimp only
      cases (t.intern x).2.tryInternAll xs <;> simp [Except.map]
    · obtain ⟨hnew, hfull⟩ := not_or.1 hx
      have hsize : t.size = maxNumber + 1 := by omega
      have hfails : t.tryIntern x = .error ⟨maxNumber + 1⟩ := by
        rw [tryIntern, Dict.contains, get?_eq_none_iff.2 hnew, hsize]
        rfl
      have hlater := size_le_size_internAll (t.intern x).2 xs
      rw [size_intern, if_neg hnew, hsize] at hlater
      rw [tryInternAll, hfails]
      simp only [Except.error.injEq]
      exact ⟨fun he => ⟨hlater, he.symm⟩, fun he => he.2.symm⟩

/-! ### From the reserved texts on -/

/-- How many different texts come up before `s` does, when `ss` are entered behind the reserved
texts. -/
def earlier (ss : List String) (s : String) : Nat :=
  ((reserved ++ ss).takeWhile (· != s)).toFinset.card

variable {ss : List String} {s : String}

theorem initial_internAll (ss : List String) :
    initial.internAll ss = empty.internAll (reserved ++ ss) :=
  (internAll_append ..).symm

theorem mem_names_initial_iff : s ∈ (initial.internAll ss).names ↔ s ∈ reserved ++ ss := by
  rw [initial_internAll, mem_names_internAll_iff]
  simp [empty]

theorem number_eq_earlier (h : s ∈ ss) : (initial.internAll ss).number s = earlier ss s := by
  rw [initial_internAll, number_internAll_empty (List.mem_append_right reserved h), earlier]

/-- What has been given out up to any time are the numbers at that time. -/
theorem take_map_earlier (ss : List String) (k : Nat) :
    (ss.map (earlier ss)).take k = (ss.take k).map (initial.internAll (ss.take k)).number := by
  rw [← List.map_take]
  refine List.map_congr_left fun s hs => ?_
  have hgrows := (initial.internAll (ss.take k)).grows_internAll (ss.drop k)
  rw [← internAll_append, List.take_append_drop] at hgrows
  rw [← number_eq_earlier (List.mem_of_mem_take hs)]
  exact hgrows.number s (mem_internAll _ hs)

/-- Only the same text gets the same number. -/
theorem getElem?_map_earlier_iff {j k : Nat} :
    (ss.map (earlier ss))[j]? = (ss.map (earlier ss))[k]? ↔ ss[j]? = ss[k]? := by
  rw [List.getElem?_map, List.getElem?_map]
  refine ⟨fun h => ?_, fun h => by rw [h]⟩
  cases hj : ss[j]? with
  | none =>
    rw [hj] at h
    exact (Option.map_eq_none_iff.1 h.symm).symm
  | some x =>
    rw [hj] at h
    obtain ⟨y, hk, hxy⟩ := Option.map_eq_some_iff.1 h.symm
    have hx := List.mem_of_getElem? hj
    have hy := List.mem_of_getElem? hk
    rw [← number_eq_earlier hx, ← number_eq_earlier hy] at hxy
    rw [hk, (number_inj (mem_internAll _ hy) (mem_internAll _ hx)).1 hxy]

/-- The reserved texts have the smallest numbers. -/
theorem number_lt_of_mem_reserved (ss : List String) (h : s ∈ reserved) :
    (initial.internAll ss).number s < reserved.length := by
  have hs : s ∈ initial.names := mem_internAll _ h
  have hsize : initial.size ≤ reserved.length := by decide +kernel
  rw [(grows_internAll _ ss).number s hs]
  exact Nat.lt_of_lt_of_le (number_lt_size hs) hsize

/-- A number that has not been given out, to a reserved text or to another one, reads as the empty
text. -/
theorem lookup_of_notMem_numbers {i : Nat} (hi : reserved.length ≤ i)
    (h : i ∉ ss.map (initial.internAll ss).number) : (initial.internAll ss).lookup i = "" := by
  refine lookup_of_size_le (Nat.le_of_not_lt fun hlt => ?_)
  have hnumber := number_lookup hlt
  rcases List.mem_append.1 (mem_names_initial_iff.1 (lookup_mem hlt)) with hs | hs
  · have hreserved := number_lt_of_mem_reserved ss hs
    omega
  · exact h (List.mem_map.2 ⟨_, hs, hnumber⟩)

/-- The texts `ss` are entered one after the other into a new table. Fewer than `2^32` of them are
different from each other, with the reserved ones. Then all of them get numbers, the same one only
for the same text: how many different texts came up before. At any time, when the first `k` texts
have been entered, each of them is read from its number, and the numbers that have not been given
out read as the empty text; the text with any number has just this number; and one more text gets a
number, too, where the table grows by one if that text is new and not at all if it is not. -/
theorem tryInternAll_bijective (ss : List String)
    (hfew : (reserved ++ ss).toFinset.card < 2 ^ 32) :
    ∃ numbers, numbers = ss.map (earlier ss) ∧
      (∀ j k : Nat, numbers[j]? = numbers[k]? ↔ ss[j]? = ss[k]?) ∧
      ∀ k, ∃ t, initial.tryInternAll (ss.take k) = .ok (numbers.take k, t) ∧
        (numbers.take k).map t.lookup = ss.take k ∧
        (∀ i, reserved.length ≤ i → i ∉ numbers.take k → t.lookup i = "") ∧
        (∀ i < t.size, t.number (t.lookup i) = i) ∧
        ∀ s, ∃ i t', t.tryIntern s = .ok (i, t') ∧
          t'.size = t.size + if s ∈ reserved ++ ss.take k then 0 else 1 := by
  refine ⟨_, rfl, fun j k => getElem?_map_earlier_iff, fun k => ?_⟩
  have hroom : (initial.internAll (ss.take k)).size ≤ maxNumber := by
    have hle := size_le_size_internAll (initial.internAll (ss.take k)) (ss.drop k)
    rw [← internAll_append, List.take_append_drop, initial_internAll ss, size_internAll_empty] at hle
    exact Nat.le_of_lt_succ (Nat.lt_of_le_of_lt hle hfew)
  rw [take_map_earlier]
  refine ⟨_, tryInternAll_eq (Nat.le_succ_of_le hroom), ?_, fun i => lookup_of_notMem_numbers,
    fun i => number_lookup, fun s => ⟨_, _, tryIntern_of_size_le hroom, ?_⟩⟩
  · rw [List.map_map]
    exact (List.map_congr_left fun s hs => lookup_number (mem_internAll _ hs)).trans (List.map_id _)
  · show ((initial.internAll (ss.take k)).intern s).2.size = _
    simp only [size_intern, mem_names_initial_iff]

/-- New texts and reserved ones, and a text that comes up twice. -/
def mixed : List String := ["x", "len", "y", "", "x"]

/-- The second `"x"` has the number of the first one. -/
theorem tryInternAll_mixed_bijective :
    (reserved ++ mixed).toFinset.card < 2 ^ 32 ∧ mixed.map (earlier mixed) = [5, 1, 6, 0, 5] ∧
    ∃ numbers, numbers = mixed.map (earlier mixed) ∧
      (∀ j k : Nat, numbers[j]? = numbers[k]? ↔ mixed[j]? = mixed[k]?) ∧
      ∀ k, ∃ t, initial.tryInternAll (mixed.take k) = .ok (numbers.take k, t) ∧
        (numbers.take k).map t.lookup = mixed.take k ∧
        (∀ i, reserved.length ≤ i → i ∉ numbers.take k → t.lookup i = "") ∧
        (∀ i < t.size, t.number (t.lookup i) = i) ∧
        ∀ s, ∃ i t', t.tryIntern s = .ok (i, t') ∧
          t'.size = t.size + if s ∈ reserved ++ mixed.take k then 0 else 1 := by
  have hfew : (reserved ++ mixed).toFinset.card < 2 ^ 32 := by decide +kernel
  exact ⟨hfew, by decide +kernel, tryInternAll_bijective mixed hfew⟩

end MonkeyLang.NameTable
