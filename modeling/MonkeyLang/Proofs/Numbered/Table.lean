import MonkeyLang.NameTable

/-!
# Numbers of texts

A table gives each of its texts a number from which the text can be read again, so two texts never
have the same number. A table that grows keeps the numbers that it has given out.

## Main statements

* `NameTable.number_inj` : texts are told apart by their numbers.
* `NameTable.grows_internAll` : entering texts keeps all numbers.
-/

namespace MonkeyLang.NameTable

variable {t t' t'' : NameTable} {x y : String}

/-- The number of a text, the next one to be given out if it has none. -/
def number (t : NameTable) (x : String) : Nat := (t.intern x).1

theorem number_of_get? {i : Nat} (h : t.numbers.get? x = some i) : t.number x = i := by
  rw [number, intern_of_get? h]

/-- The texts without a number are those that are not in the table. -/
theorem get?_eq_none_iff : t.numbers.get? x = none ↔ x ∉ t.names := by
  simp [Option.eq_none_iff_forall_ne_some, t.inverse x, Array.mem_iff_getElem?]

/-- A text in the table has its number from there. -/
theorem get?_of_mem (h : x ∈ t.names) : t.numbers.get? x = some (t.number x) := by
  cases hi : t.numbers.get? x with
  | some i => rw [number_of_get? hi]
  | none => exact absurd h (get?_eq_none_iff.1 hi)

/-- A text is read from its number. -/
theorem lookup_number (h : x ∈ t.names) : t.lookup (t.number x) = x := by
  rw [lookup, Array.getD_eq_getD_getElem?, (t.inverse x _).1 (get?_of_mem h), Option.getD_some]

/-- Texts are told apart by their numbers. -/
theorem number_inj (hx : x ∈ t.names) (hy : y ∈ t.names) : t.number x = t.number y ↔ x = y := by
  refine ⟨fun h => ?_, fun h => h ▸ rfl⟩
  rw [← lookup_number hx, h, lookup_number hy]

/-! ### Tables that grow -/

/-- Every text of `t` is in `t'`, with the same number. -/
structure Grows (t t' : NameTable) : Prop where
  mem : ∀ x ∈ t.names, x ∈ t'.names
  number : ∀ x ∈ t.names, t'.number x = t.number x

theorem Grows.refl (t : NameTable) : t.Grows t := ⟨fun _ h => h, fun _ _ => rfl⟩

theorem Grows.trans (h : t.Grows t') (h' : t'.Grows t'') : t.Grows t'' where
  mem x hx := h'.mem x (h.mem x hx)
  number x hx := (h'.number x (h.mem x hx)).trans (h.number x hx)

/-- A new text gets a number that no text has. -/
theorem grows_intern (t : NameTable) (x : String) : t.Grows (t.intern x).2 := by
  cases hx : t.numbers.get? x with
  | some i =>
    rw [intern_of_get? hx]
    exact .refl t
  | none =>
    rw [intern_of_get?_eq_none hx]
    refine ⟨fun y hy => Array.mem_push_of_mem x hy, fun y hy => number_of_get? ?_⟩
    have hne : y ≠ x := fun h => get?_eq_none_iff.1 hx (h ▸ hy)
    rw [push, Dict.get?_insert_of_ne _ _ hne, get?_of_mem hy]

theorem mem_intern (t : NameTable) (x : String) : x ∈ (t.intern x).2.names := by
  cases hx : t.numbers.get? x with
  | some i =>
    rw [intern_of_get? hx]
    exact Array.mem_of_getElem? ((t.inverse x i).1 hx)
  | none =>
    rw [intern_of_get?_eq_none hx]
    exact Array.mem_push_self

/-- Entering texts keeps all numbers. -/
theorem grows_internAll (t : NameTable) (xs : List String) : t.Grows (t.internAll xs) := by
  induction xs generalizing t with
  | nil => exact .refl t
  | cons x xs ih => exact (t.grows_intern x).trans (ih _)

theorem mem_internAll {xs : List String} (t : NameTable) (h : x ∈ xs) :
    x ∈ (t.internAll xs).names := by
  induction xs generalizing t with
  | nil => cases h
  | cons y ys ih =>
    obtain rfl | h := List.mem_cons.1 h
    · exact (grows_internAll _ ys).mem x (t.mem_intern x)
    · exact ih _ h

end MonkeyLang.NameTable
