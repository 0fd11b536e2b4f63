import MonkeyLang.RuntimeError
import MonkeyLang.Store.Render

/-!
# Index expressions

What `base[place]` means. It is first located, as an item that the array has or as an entry that the
hash may have or not; then it can be read or assigned to.
-/

namespace MonkeyLang

namespace Store

/-- The item of the array `a` at the index `i`, if the array has it. -/
def itemAt? (s : Store) (a : ArrayId) (i : Int64) : Option Slot :=
  if 0 ≤ i.toInt ∧ i.toInt < (s.array a).size then some (.item a i.toInt.toNat) else none

/-- The slot that `base[place]` is. -/
def locate (s : Store) (base place : Value) : Except RuntimeError Slot :=
  match base, place with
  | .array a, .int i =>
    match s.itemAt? a i with
    | some slot => .ok slot
    | none => .error .indexOutOfRange
  | .hash h, place =>
    match place.key? with
    | some k => .ok (.entry h k)
    | none => .error (.unhashable place.kind)
  | base, _ => .error (.indexNotSupported base.kind)

/-- The value of `base[place]`. -/
def read (s : Store) (base place : Value) : Except RuntimeError Value :=
  match s.locate base place with
  | .error e => .error e
  | .ok slot =>
    match s.get? slot with
    | some v => .ok v
    | none => .error (.keyNotFound (s.render place))

/-- Putting a pair into an item changes one array. -/
theorem array_put_item (s : Store) (a : ArrayId) (i : Nat) (p : Pair) (c : ArrayId) :
    (s.put (.item a i) p).array c =
      if a = c then (s.array c).setIfInBounds i p.value else s.array c := by
  simp only [put, array, Array.getD_eq_getD_getElem?, Array.getElem?_modify]
  split
  · cases s.arrays[c]? <;> simp
  · rfl

/-- An array keeps its length. -/
@[simp] theorem size_array_put (s : Store) (slot : Slot) (p : Pair) (a : ArrayId) :
    ((s.put slot p).array a).size = (s.array a).size := by
  cases slot with
  | item c i =>
    rw [array_put_item]
    split
    · rw [Array.size_setIfInBounds]
    · rfl
  | entry => rfl

/-- Putting a pair into an entry changes one hash, if it is there. -/
theorem hash_put_entry (s : Store) (h : HashId) (k : Key) (p : Pair) (c : HashId) :
    (s.put (.entry h k) p).hash c =
      if h = c ∧ c < s.hashes.size then (s.hash c).insert k p else s.hash c := by
  simp only [put, hash, Array.getD_eq_getD_getElem?, Array.getElem?_modify]
  by_cases hc : h = c
  · by_cases hsize : c < s.hashes.size <;> simp [hc, hsize]
  · simp [hc]

/-- What has been put into an item that the array has is there. -/
theorem get?_put_item {s : Store} {a : ArrayId} {i : Nat} (inside : i < (s.array a).size)
    (p : Pair) : (s.put (.item a i) p).get? (.item a i) = some p.value := by
  rw [get?, array_put_item, if_pos rfl, Array.getElem?_setIfInBounds_self_of_lt inside]

/-- What has been put into an entry of a hash is there. -/
theorem get?_put_entry {s : Store} {h : HashId} (present : h < s.hashes.size) (k : Key)
    (p : Pair) : (s.put (.entry h k) p).get? (.entry h k) = some p.value := by
  rw [get?, hash_put_entry, if_pos ⟨rfl, present⟩, Dict.get?_insert_self, Option.map_some]

end Store

end MonkeyLang
