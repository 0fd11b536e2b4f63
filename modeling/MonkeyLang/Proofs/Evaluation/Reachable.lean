import MonkeyLang.Proofs.Evaluation.FrameGrowth

/-!
# What can be reached

A program comes to values by names, and from there by the items of arrays, the entries of hashes and
the names that the functions among them can use. Whatever else is in the store when it begins is out
of its reach for good: what it makes itself only leads to what it could reach before.

A region is a part of the store. It is tame if nothing leads out of it, and if it has room for all
that is still to be made. Each single change keeps it tame, as long as only values of the region are
put into it.

## Main definitions

* `Store.Reachable` : the values that can be reached from a frame.
* `Region`, `Store.Tame` : a part of the store that is not left.

## Main statements

* `Store.tame_from` : what can be reached from a frame from which no function can be reached, and
  what is new.
-/

namespace MonkeyLang

/-- The values that can be reached from the frame `f`. -/
inductive Store.Reachable (s : Store) (f : FrameId) : Value → Prop where
  /-- What a name means in the frame or is bound to further out. -/
  | bound {g : FrameId} {x : String} {v : Value} (hg : g ∈ s.chain f)
      (h : (s.frame g).bindings.get? x = some v) : Reachable s f v
  /-- An item of an array. -/
  | item {a : ArrayId} {v : Value} (ha : Reachable s f (.array a)) (h : v ∈ s.array a) :
      Reachable s f v
  /-- The value of an entry of a hash. -/
  | entry {a : HashId} {k : Key} {p : Pair} (ha : Reachable s f (.hash a))
      (h : (s.hash a).get? k = some p) : Reachable s f p.value
  /-- What a name means in the body of a function. -/
  | captured {c : ClosureId} {g : FrameId} {x : String} {v : Value}
      (hc : Reachable s f (.function c)) (hg : g ∈ s.chain (s.closure c).frame)
      (h : (s.frame g).bindings.get? x = some v) : Reachable s f v

/-- After many insertions, what is found has been there or is one of the values inserted. -/
theorem Dict.get?_insertAll {κ ν : Type} [DecidableEq κ] {d : Dict κ ν} {es : List (κ × ν)} {k : κ}
    {v : ν} (h : (d.insertAll es).get? k = some v) : d.get? k = some v ∨ ∃ k', (k', v) ∈ es := by
  induction es generalizing d with
  | nil => exact .inl h
  | cons e es ih =>
    rcases ih h with h | ⟨k', h⟩
    · rcases get?_insert_eq_some h with ⟨-, rfl⟩ | h
      · exact .inr ⟨e.1, List.mem_cons_self⟩
      · exact .inl h
    · exact .inr ⟨k', List.mem_cons_of_mem e h⟩

/-! ### Regions -/

/-- A part of a store, of what it holds now and of what it is going to hold. -/
structure Region where
  /-- The frames in which something can be evaluated. -/
  home : FrameId → Prop
  /-- The frames whose bindings can be used. -/
  frame : FrameId → Prop
  /-- The arrays. -/
  array : ArrayId → Prop
  /-- The hashes. -/
  hash : HashId → Prop
  /-- The functions. -/
  closure : ClosureId → Prop

variable {R : Region} {s s' : Store}

/-- The value is in the region, and if it is a function, the store holds it. -/
def Value.In (R : Region) (s : Store) : Value → Prop
  | .array a => R.array a
  | .hash h => R.hash h
  | .function c => R.closure c ∧ c < s.closures.size
  | _ => True

theorem Value.In.mono {v : Value} (h : v.In R s) (hs : s.closures.size ≤ s'.closures.size) :
    v.In R s' := by
  cases v with
  | function c => exact ⟨h.1, Nat.lt_of_lt_of_le h.2 hs⟩
  | _ => exact h

/-- Nothing leads out of the region, and what is still to be made is in it. -/
structure Store.Tame (R : Region) (s : Store) : Prop where
  newFrame : ∀ f, s.frames.size ≤ f → R.home f
  newArray : ∀ a, s.arrays.size ≤ a → R.array a
  newHash : ∀ h, s.hashes.size ≤ h → R.hash h
  newClosure : ∀ c, s.closures.size ≤ c → R.closure c
  chains : ∀ f, R.home f → ∀ g ∈ s.chain f, R.frame g
  bindings : ∀ f x v, R.frame f → (s.frame f).bindings.get? x = some v → v.In R s
  items : ∀ a v, R.array a → v ∈ s.array a → v.In R s
  entries : ∀ h k p, R.hash h → (s.hash h).get? k = some p → p.value.In R s
  captured : ∀ c, R.closure c → c < s.closures.size → R.home (s.closure c).frame

namespace Store

/-! ### Single changes -/

/-- What a name is bound to after a change of one binding. -/
theorem get?_of_bind {f g : FrameId} {x y : String} {v w : Value}
    (h : ((s.bind f x v).frame g).bindings.get? y = some w) :
    w = v ∨ (s.frame g).bindings.get? y = some w := by
  simp only [bind, frame, Array.getD_eq_getD_getElem?, Array.getElem?_modify] at h ⊢
  split at h
  next =>
    cases hg : s.frames[g]? with
    | none =>
      rw [hg] at h
      exact .inr h
    | some fr =>
      rw [hg] at h
      exact (Dict.get?_insert_eq_some h).imp_left And.right
  next => exact .inr h

/-- What stands in an array after a slot has been filled. -/
theorem mem_array_of_put {slot : Slot} {a : ArrayId} {p : Pair} {w : Value}
    (h : w ∈ (s.put slot p).array a) : w = p.value ∨ w ∈ s.array a := by
  cases slot with
  | entry => exact .inr h
  | item b i =>
    rw [array_put_item] at h
    split at h
    · exact (Array.mem_or_eq_of_mem_setIfInBounds h).symm
    · exact .inr h

/-- What stands in a hash after a slot has been filled. -/
theorem get?_hash_of_put {slot : Slot} {a : HashId} {k : Key} {p q : Pair}
    (h : ((s.put slot p).hash a).get? k = some q) :
    q = p ∨ (s.hash a).get? k = some q := by
  cases slot with
  | item => exact .inr h
  | entry b k' =>
    rw [hash_put_entry] at h
    split at h
    · exact (Dict.get?_insert_eq_some h).imp_left And.right
    · exact .inr h

namespace Tame

theorem bind (h : s.Tame R) (f : FrameId) (x : String) {v : Value} (hv : v.In R s) :
    (s.bind f x v).Tame R where
  newFrame g hg := h.newFrame g (by simpa [Store.bind] using hg)
  newArray := h.newArray
  newHash := h.newHash
  newClosure := h.newClosure
  chains g hg := by
    rw [chain_bind]
    exact h.chains g hg
  bindings g y w hg hw := by
    rcases get?_of_bind hw with rfl | hw
    · exact hv
    · exact h.bindings g y w hg hw
  items := h.items
  entries := h.entries
  captured := h.captured

theorem put (h : s.Tame R) (slot : Slot) {p : Pair} (hp : p.value.In R s) :
    (s.put slot p).Tame R := by
  have hclosures : (s.put slot p).closures = s.closures := by cases slot <;> rfl
  have hframes : (s.put slot p).frames = s.frames := by cases slot <;> rfl
  have hframe (f : FrameId) : (s.put slot p).frame f = s.frame f := by
    rw [frame, frame, hframes]
  have hin {w : Value} (hw : w.In R s) : w.In R (s.put slot p) :=
    hw.mono (Nat.le_of_eq (by rw [hclosures]))
  exact {
    newFrame := by simpa only [hframes] using h.newFrame
    newArray := by
      cases slot with
      | item a i => simpa [Store.put] using h.newArray
      | entry => exact h.newArray
    newHash := by
      cases slot with
      | item => exact h.newHash
      | entry a k => simpa [Store.put] using h.newHash
    newClosure := by simpa only [hclosures] using h.newClosure
    chains := by simpa only [chain, hframe] using h.chains
    bindings := fun f x w hf hw => hin (h.bindings f x w hf (by rwa [hframe] at hw))
    items := fun a w ha hw => by
      rcases mem_array_of_put hw with rfl | hw
      · exact hin hp
      · exact hin (h.items a w ha hw)
    entries := fun a k q ha hq => by
      rcases get?_hash_of_put hq with rfl | hq
      · exact hin hp
      · exact hin (h.entries a k q ha hq)
    captured := by simpa only [closure, hclosures] using h.captured }

theorem addArray (h : s.Tame R) {items : Array Value} (hitems : ∀ v ∈ items, v.In R s) :
    (s.addArray items).2.Tame R where
  newFrame := h.newFrame
  newArray a ha := h.newArray a (by simp [Store.addArray] at ha; omega)
  newHash := h.newHash
  newClosure := h.newClosure
  chains := h.chains
  bindings := h.bindings
  items a v ha hv := by
    simp only [Store.addArray, array, Array.getD_eq_getD_getElem?, Array.getElem?_push] at hv
    split at hv
    · exact hitems v hv
    · exact h.items a v ha (by simpa [array] using hv)
  entries := h.entries
  captured := h.captured

theorem addHash (h : s.Tame R) {d : Dict Key Pair}
    (hd : ∀ k p, d.get? k = some p → p.value.In R s) : (s.addHash d).2.Tame R where
  newFrame := h.newFrame
  newArray := h.newArray
  newHash a ha := h.newHash a (by simp [Store.addHash] at ha; omega)
  newClosure := h.newClosure
  chains := h.chains
  bindings := h.bindings
  items := h.items
  entries a k p ha hp := by
    simp only [Store.addHash, hash, Array.getD_eq_getD_getElem?, Array.getElem?_push] at hp
    split at hp
    · exact hd k p hp
    · exact h.entries a k p ha (by simpa [hash] using hp)
  captured := h.captured

theorem addFrame (h : s.Tame R) {fr : Frame} (houter : ∀ g ∈ fr.outer, R.frame g)
    (hfr : ∀ x v, fr.bindings.get? x = some v → v.In R s) : (s.addFrame fr).2.Tame R where
  newFrame f hf := h.newFrame f (by simp [Store.addFrame] at hf; omega)
  newArray := h.newArray
  newHash := h.newHash
  newClosure := h.newClosure
  chains f hf g hg := by
    simp only [Store.addFrame, chain, frame, Array.getD_eq_getD_getElem?, Array.getElem?_push] at hg
    split at hg
    next hsize =>
      rcases List.mem_cons.1 hg with rfl | hg
      · exact h.chains g hf g List.mem_cons_self
      · exact houter g hg
    next => exact h.chains f hf g (by simpa [chain, frame] using hg)
  bindings f x v hf hv := by
    simp only [Store.addFrame, frame, Array.getD_eq_getD_getElem?, Array.getElem?_push] at hv
    split at hv
    · exact hfr x v hv
    · exact h.bindings f x v hf (by simpa [frame] using hv)
  items := h.items
  entries := h.entries
  captured := h.captured

theorem addClosure (h : s.Tame R) {c : Closure} (hc : R.home c.frame) :
    (s.addClosure c).2.Tame R := by
  have hin {v : Value} (hv : v.In R s) : v.In R (s.addClosure c).2 :=
    hv.mono (by simp [Store.addClosure])
  exact {
    newFrame := h.newFrame
    newArray := h.newArray
    newHash := h.newHash
    newClosure := fun d hd => h.newClosure d (by simp [Store.addClosure] at hd; omega)
    chains := h.chains
    bindings := fun f x v hf hv => hin (h.bindings f x v hf hv)
    items := fun a v ha hv => hin (h.items a v ha hv)
    entries := fun a k p ha hp => hin (h.entries a k p ha hp)
    captured := fun d hd hlt => by
      simp only [Store.addClosure, Array.size_push] at hlt
      simp only [Store.addClosure, closure, Array.getD_eq_getD_getElem?, Array.getElem?_push]
      split
      next => exact hc
      next hne =>
        have hold := h.captured d hd (Nat.lt_of_le_of_ne (Nat.le_of_lt_succ hlt) hne)
        rwa [closure, Array.getD_eq_getD_getElem?] at hold }

/-- What a name means in a frame of the region. -/
theorem lookup (h : s.Tame R) {f : FrameId} (hf : R.home f) {x : String} {v : Value}
    (hv : s.lookup f x = some v) : v.In R s := by
  obtain ⟨g, hg, hv⟩ := List.exists_of_findSome?_eq_some hv
  exact h.bindings g x v (h.chains f hf g hg) hv

end Tame

/-! ### The region of a frame -/

/-- What can be reached from the frame `root` of the store `s`, as long as that are no functions,
and all that is made later. -/
def regionFrom (s : Store) (root : FrameId) : Region where
  home f := f = root ∨ s.frames.size ≤ f
  frame f := f ∈ s.chain root ∨ s.frames.size ≤ f
  array a := s.Reachable root (.array a) ∨ s.arrays.size ≤ a
  hash h := s.Reachable root (.hash h) ∨ s.hashes.size ≤ h
  closure c := s.closures.size ≤ c

/-- If no function can be reached, nothing leads out of what can be reached. -/
theorem tame_from {root : FrameId} (h : ∀ c, ¬ s.Reachable root (.function c)) :
    s.Tame (s.regionFrom root) := by
  have hin {v : Value} (hv : s.Reachable root v) : v.In (s.regionFrom root) s := by
    cases v with
    | array a => exact .inl hv
    | hash a => exact .inl hv
    | function c => exact absurd hv (h c)
    | _ => trivial
  refine {
    newFrame := fun f hf => .inr hf
    newArray := fun a ha => .inr ha
    newHash := fun a ha => .inr ha
    newClosure := fun c hc => hc
    chains := fun f hf g hg => ?_
    bindings := fun f x v hf hv => ?_
    items := fun a v ha hv => ?_
    entries := fun a k p ha hp => ?_
    captured := fun c hc hlt => absurd hlt (Nat.not_lt_of_le hc) }
  · rcases hf with rfl | hf
    · exact .inl hg
    · have hempty : s.chain f = [f] := by simp [chain, frame, hf]
      rw [hempty, List.mem_singleton] at hg
      exact .inr (hg ▸ hf)
  · rcases hf with hf | hf
    · exact hin (.bound hf hv)
    · have hempty : s.frame f = {} := by simp [frame, hf]
      rw [hempty] at hv
      cases hv
  · rcases ha with ha | ha
    · exact hin (.item ha hv)
    · have hempty : s.array a = #[] := by simp [array, ha]
      simp [hempty] at hv
  · rcases ha with ha | ha
    · exact hin (.entry ha hp)
    · have hempty : s.hash a = {} := by simp [hash, ha]
      rw [hempty] at hp
      cases hp

end Store

end MonkeyLang
