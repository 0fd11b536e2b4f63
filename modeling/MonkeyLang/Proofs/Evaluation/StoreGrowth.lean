import MonkeyLang.Proofs.Evaluation.FrameGrowth
import MonkeyLang.Proofs.Evaluation.Invariant

/-!
# The store only grows

Nothing is ever taken out of a store: frames keep their bindings and stay inside the same frames,
arrays keep their length, hashes keep their keys. Only what is bound to a name or stands in a slot
changes.

## Main statements

* `Store.invariant_grows` : growth is an invariant of all that is evaluated.
-/

namespace MonkeyLang

/-! ### Growth -/

/-- The store `s'` has all that `s` has. -/
structure Store.Grows (s s' : Store) : Prop where
  /-- No frame is taken away. -/
  frames : s.frames.size ≤ s'.frames.size
  /-- A frame stays inside the same frames. -/
  outer : ∀ f < s.frames.size, (s'.frame f).outer = (s.frame f).outer
  /-- A frame keeps its bindings. -/
  bindings : ∀ f < s.frames.size, ∀ x, (s.frame f).bindings.contains x →
    (s'.frame f).bindings.contains x
  /-- No array is taken away. -/
  arrays : s.arrays.size ≤ s'.arrays.size
  /-- An array keeps its length. -/
  lengths : ∀ a < s.arrays.size, (s'.array a).size = (s.array a).size
  /-- No hash is taken away. -/
  hashes : s.hashes.size ≤ s'.hashes.size
  /-- A hash keeps its keys. -/
  keys : ∀ h < s.hashes.size, ∀ k, (s.hash h).contains k → (s'.hash h).contains k

namespace Store.Grows

variable {s s' s'' : Store}

theorem refl (s : Store) : s.Grows s where
  frames := Nat.le_refl _
  outer _ _ := rfl
  bindings _ _ _ h := h
  arrays := Nat.le_refl _
  lengths _ _ := rfl
  hashes := Nat.le_refl _
  keys _ _ _ h := h

theorem trans (h : s.Grows s') (h' : s'.Grows s'') : s.Grows s'' where
  frames := Nat.le_trans h.frames h'.frames
  outer f hf := (h'.outer f (Nat.lt_of_lt_of_le hf h.frames)).trans (h.outer f hf)
  bindings f hf x hx := h'.bindings f (Nat.lt_of_lt_of_le hf h.frames) x (h.bindings f hf x hx)
  arrays := Nat.le_trans h.arrays h'.arrays
  lengths a ha := (h'.lengths a (Nat.lt_of_lt_of_le ha h.arrays)).trans (h.lengths a ha)
  hashes := Nat.le_trans h.hashes h'.hashes
  keys i hi k hk := h'.keys i (Nat.lt_of_lt_of_le hi h.hashes) k (h.keys i hi k hk)

/-- Binding a name takes nothing away. -/
theorem bind (s : Store) (f : FrameId) (x : String) (v : Value) : s.Grows (s.bind f x v) :=
  let h := FramesGrow.bindIn { Machine.initial with store := s } f x v
  { refl s with frames := h.size, outer := h.outer, bindings := h.bindings }

/-- Filling a slot takes nothing away. -/
theorem put (s : Store) (slot : Slot) (p : Pair) : s.Grows (s.put slot p) := by
  cases slot with
  | item a i =>
    exact { refl s with
      arrays := by simp [Store.put]
      lengths := fun b _ => size_array_put s (.item a i) p b }
  | entry h k =>
    refine { refl s with hashes := by simp [Store.put], keys := fun i _ l hl => ?_ }
    rw [hash_put_entry]
    split
    · exact Dict.contains_insert hl k p
    · exact hl

theorem addArray (s : Store) (items : Array Value) : s.Grows (s.addArray items).2 := by
  refine { refl s with arrays := by simp [Store.addArray], lengths := fun a ha => ?_ }
  simp [Store.addArray, Store.array, Array.getElem?_push, Nat.ne_of_lt ha]

theorem addHash (s : Store) (d : Dict Key Pair) : s.Grows (s.addHash d).2 := by
  refine { refl s with hashes := by simp [Store.addHash], keys := fun h hh k hk => ?_ }
  simpa [Store.addHash, Store.hash, Array.getElem?_push, Nat.ne_of_lt hh] using hk

theorem addFrame (s : Store) (fr : Frame) : s.Grows (s.addFrame fr).2 := by
  have hframe (f : FrameId) (hf : f < s.frames.size) : (s.addFrame fr).2.frame f = s.frame f := by
    simp [Store.addFrame, Store.frame, Array.getElem?_push, Nat.ne_of_lt hf]
  refine { refl s with
    frames := by simp [Store.addFrame]
    outer := fun f hf => by rw [hframe f hf]
    bindings := fun f hf x hx => by rwa [hframe f hf] }

end Store.Grows

/-- Assigning to a name takes nothing away. -/
theorem Machine.grows_assign (m : Machine) (mode : AssignMode) (x : String) (v : Value) :
    m.store.Grows (m.assign mode x v).store := by
  unfold Machine.assign
  split
  · exact .bind m.store m.frame x v
  · split
    next f _ => exact .bind m.store f x v
    next => exact .refl m.store

/-- Having all that `s` has is an invariant of whatever is evaluated, also inside the bodies of
functions. -/
theorem Store.invariant_grows (o : Options) (s : Store) :
    Invariant o (fun (_ : Unit) _ => True) fun _ m => s.Grows m.store where
  within _ _ _ _ := Plan.within_true _
  stable _ := {
    bind := fun m x v h => h.trans (.bind m.store m.frame x v)
    assign := fun m x v h => h.trans (m.grows_assign o.assign x v)
    put := fun m slot v h => h.trans (.put m.store slot v)
    newArray := fun m items h => h.trans (.addArray m.store items)
    newHash := fun m d h => h.trans (.addHash m.store d)
    print := fun _ _ h => h }
  function _ _ _ _ _ _ _ h := h.trans { Grows.refl _ with }
  call _ _ _ m h _ := ⟨(), trivial, h.trans (.addFrame m.store _), fun _ h' => h'⟩

end MonkeyLang
