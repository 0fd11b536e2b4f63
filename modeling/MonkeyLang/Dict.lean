/-!
# Dictionaries

Finite maps as lists of entries in the order in which their keys first came up. A key that comes up
again keeps its place and gets the new value. Frames keep their bindings in a dictionary, hashes
their entries.

## Main statements

* `Dict.get?_insert_self`, `Dict.get?_insert_of_ne`, `Dict.get?_insert_eq_some` : what is found after
  an insertion.
* `Dict.nodup_keys_insert` : insertion never files two entries under one key.
* `Dict.contains_insertAll` : what is bound after many insertions.
-/

namespace MonkeyLang

/-- A finite map, as the list of its entries in order. -/
structure Dict (κ ν : Type) where
  /-- The entries, in the order in which their keys first came up. -/
  entries : List (κ × ν) := []

namespace Dict

variable {κ ν : Type} [DecidableEq κ]

/-- The dictionary without entries. -/
def empty : Dict κ ν := {}

/-- The keys, in order. -/
def keys (d : Dict κ ν) : List κ := d.entries.map Prod.fst

/-- The number of entries. -/
def size (d : Dict κ ν) : Nat := d.entries.length

/-- The value under the key `k` in a list of entries. -/
def find? (k : κ) : List (κ × ν) → Option ν
  | [] => none
  | (k', v) :: es => if k' = k then some v else find? k es

/-- A list of entries with `v` under the key `k`. -/
def put (k : κ) (v : ν) : List (κ × ν) → List (κ × ν)
  | [] => [(k, v)]
  | (k', v') :: es => if k' = k then (k, v) :: es else (k', v') :: put k v es

/-- The value under the key `k`. -/
def get? (d : Dict κ ν) (k : κ) : Option ν := find? k d.entries

/-- Whether there is an entry under the key `k`. -/
def contains (d : Dict κ ν) (k : κ) : Bool := (d.get? k).isSome

/-- The dictionary with `v` under the key `k`. -/
def insert (d : Dict κ ν) (k : κ) (v : ν) : Dict κ ν := ⟨put k v d.entries⟩

/-- The dictionary with all of the entries `es`, where later entries win. -/
def insertAll (d : Dict κ ν) (es : List (κ × ν)) : Dict κ ν :=
  es.foldl (fun d e => d.insert e.1 e.2) d

@[simp] theorem get?_empty (k : κ) : (empty : Dict κ ν).get? k = none := rfl

/-- An inserted value is found. -/
@[simp] theorem get?_insert_self (d : Dict κ ν) (k : κ) (v : ν) :
    (d.insert k v).get? k = some v := by
  obtain ⟨es⟩ := d
  simp only [get?, insert]
  induction es with
  | nil => simp [put, find?]
  | cons e es ih =>
    unfold put
    split
    · simp [find?]
    next h => simp [find?, h, ih]

/-- Under other keys nothing changes. -/
theorem get?_insert_of_ne (d : Dict κ ν) {k k' : κ} (v : ν) (h : k' ≠ k) :
    (d.insert k v).get? k' = d.get? k' := by
  obtain ⟨es⟩ := d
  simp only [get?, insert]
  induction es with
  | nil => simp [put, find?, Ne.symm h]
  | cons e es ih =>
    unfold put
    split
    next eq => simp [find?, eq, Ne.symm h]
    · simp only [find?, ih]

/-- What is found after an insertion is what has been inserted, or has been there. -/
theorem get?_insert_eq_some {d : Dict κ ν} {k k' : κ} {v w : ν}
    (h : (d.insert k v).get? k' = some w) : k' = k ∧ w = v ∨ d.get? k' = some w := by
  by_cases hk : k' = k
  · subst hk
    rw [get?_insert_self] at h
    exact .inl ⟨rfl, (Option.some.inj h).symm⟩
  · exact .inr (by rwa [get?_insert_of_ne d v hk] at h)

/-- An inserted key is new, or the keys stay what they were. -/
theorem mem_keys_insert (d : Dict κ ν) (k k' : κ) (v : ν) :
    k' ∈ (d.insert k v).keys ↔ k' = k ∨ k' ∈ d.keys := by
  obtain ⟨es⟩ := d
  simp only [keys, insert]
  induction es with
  | nil => simp [put]
  | cons e es ih =>
    unfold put
    split
    next eq => simp [eq]
    · simp only [List.map_cons, List.mem_cons, ih]
      exact or_left_comm

/-- Keys stay distinct. -/
theorem nodup_keys_insert (d : Dict κ ν) (k : κ) (v : ν) (h : d.keys.Nodup) :
    (d.insert k v).keys.Nodup := by
  obtain ⟨es⟩ := d
  simp only [keys, insert] at *
  induction es with
  | nil => simp [put]
  | cons e es ih =>
    simp only [List.map_cons, List.nodup_cons] at h
    unfold put
    split
    next eq => simpa [← eq] using h
    next ne =>
      simp only [List.map_cons, List.nodup_cons]
      refine ⟨fun mem => ?_, ih h.2⟩
      rcases (mem_keys_insert ⟨es⟩ k e.1 v).1 mem with eq | mem
      · exact ne eq
      · exact h.1 mem

/-- An inserted key is bound. -/
theorem contains_insert_self (d : Dict κ ν) (k : κ) (v : ν) : (d.insert k v).contains k := by
  simp [contains]

/-- What is bound stays bound. -/
theorem contains_insert {d : Dict κ ν} {k : κ} (h : d.contains k) (k' : κ) (v : ν) :
    (d.insert k' v).contains k := by
  by_cases hk : k = k'
  · subst hk
    exact contains_insert_self d k v
  · rwa [contains, get?_insert_of_ne d v hk]

/-- After many insertions all of their keys are bound, and all that were bound before. -/
theorem contains_insertAll {d : Dict κ ν} {k : κ} {es : List (κ × ν)}
    (h : d.contains k ∨ k ∈ es.map Prod.fst) : (d.insertAll es).contains k := by
  induction es generalizing d with
  | nil => simpa [insertAll] using h
  | cons e es ih =>
    refine ih ?_
    obtain h | h := h
    · exact .inl (contains_insert h _ _)
    · obtain rfl | h := List.mem_cons.1 h
      · exact .inl (contains_insert_self d _ _)
      · exact .inr h

end Dict

end MonkeyLang
