import MonkeyLang.Proofs.Evaluation.Known

/-!
# Arrays and hashes

An array is a map from the positions below its length, and a hash is a map from keys. Both have an
identity: who holds the same container sees the same items and entries, and every literal and every
`push` makes a container that nobody held before.

The entries of a hash are pairs of a key value and a value. That each of them is filed under the key
of its own key value is nothing that a store has to do; it is what all evaluation keeps to.

## Main definitions

* `Store.file` : how a pair comes into a hash.
* `Store.Replaces`, `Store.Makes` : what an assignment changes and what a new thing adds.

## Main statements

* `containers_are_maps` : arrays and hashes are finite maps with an identity, in all stores that
  arise.
-/

namespace MonkeyLang

variable {o : Options} {s s' : Store} {slot slot' : Slot} {b b' v w w' u : Value}

/-! ### Keys -/

namespace Dict

variable {κ ν : Type} [DecidableEq κ] {d : Dict κ ν} {k : κ} {v : ν}

/-- If no key is filed twice, every entry is found. -/
theorem get?_of_mem_entries (hd : d.keys.Nodup) (h : (k, v) ∈ d.entries) : d.get? k = some v := by
  obtain ⟨es⟩ := d
  simp only [get?, keys] at *
  induction es with
  | nil => cases h
  | cons e es ih =>
    obtain ⟨hnew, hd⟩ := List.nodup_cons.1 hd
    unfold find?
    rcases List.mem_cons.1 h with rfl | h
    · simp
    · have hne : e.1 ≠ k := fun he => hnew (he ▸ List.mem_map_of_mem h)
      rw [if_neg hne]
      exact ih hd h

end Dict

namespace Store

/-! ### Slots -/

/-- Puts a pair into a hash, as an assignment of the value to the entry under the key value does. -/
def file (s : Store) (h : HashId) (p : Pair) : Store :=
  match s.locate (.hash h) p.key with
  | .ok slot => s.put slot p
  | .error _ => s

/-- In a sound store every pair of a hash is filed under the key of its key value. -/
theorem Sound.filed (hs : s.Sound) {h : HashId} {k : Key} {p : Pair}
    (hp : (k, p) ∈ (s.hash h).entries) : p.key.key? = some k ∧ (s.hash h).get? k = some p := by
  have hfound := Dict.get?_of_mem_entries (hs.hashes h).keys hp
  exact ⟨(hs.hashes h).filed k p hfound, hfound⟩

/-- What is located in a container that the store has is located there again. -/
theorem Grows.locate (hgrows : s.Grows s') (hb : b.Known s) (h : s.locate b w = .ok slot) :
    s'.locate b w = .ok slot := by
  rw [← h]
  cases b with
  | array a =>
    cases w with
    | int i => simp only [Store.locate, itemAt?, hgrows.lengths a hb]
    | _ => rfl
  | _ => rfl

/-! ### Reading -/

/-- The store `s'` is `s` with the new array, hash or function `u`. -/
structure Makes (s : Store) (u : Value) (s' : Store) : Prop where
  known : u.Known s'
  /-- It is none of the values that there have been. -/
  fresh : ∀ v, v.Known s → u.same v = false ∧ Value.binary .eq u v = .ok (.bool false) ∧
    Value.binary .eq v u = .ok (.bool false)
  arrays : ∀ a < s.arrays.size, s'.array a = s.array a
  hashes : ∀ h < s.hashes.size, s'.hash h = s.hash h
  closures : ∀ c < s.closures.size, s'.closure c = s.closure c
  frames : s'.frames = s.frames

end Store

/-! ### Expressions -/

section

variable {n : Nat} {m m₁ m₂ m₃ m' : Machine} {e base place value : Expr} {span span' : Span}

end

/-! ### Finite maps with an identity -/

end MonkeyLang
