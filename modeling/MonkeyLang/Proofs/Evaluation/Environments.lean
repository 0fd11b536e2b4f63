import MonkeyLang.Proofs.Evaluation.Assignments

/-!
# Environments

A handle is a frame, and many handles may be the same frame. Every frame but a new root stands
inside an older one, its parent, so the parents of a frame form a chain, and the chain ends. A name
means what the first frame on the chain says that binds it.

A frame is on the chains of all frames that have been made inside it. What a binding in it changes
is therefore a matter of what stands between: a handle sees the binding if no frame on the way from
it binds the name.

## Main definitions

* `Store.Forest` : the frames that can be made, with the handles of them.
* `Store.Unshadowed`, `Store.Nearest` : what a handle sees of a frame.

## Main statements

* `Store.Forest.resolves_nearest` : what the operations on environments read and change.
-/

namespace MonkeyLang

namespace Store

variable {s : Store} {e f g p : FrameId} {es : List FrameId} {x y : String} {v : Value}

/-! ### Parents -/

/-- The frame right around a frame, if it stands in one. -/
def parent? (s : Store) (f : FrameId) : Option FrameId := (s.frame f).outer.head?

/-- No frame has got another parent. -/
def KeepsParents (s s' : Store) : Prop := ∀ f < s.frames.size, s'.parent? f = s.parent? f

theorem frame_addFrame_self (s : Store) (fr : Frame) :
    (s.addFrame fr).2.frame s.frames.size = fr := by
  simp [addFrame, frame]

theorem frame_addFrame_of_ne (fr : Frame) (h : f ≠ s.frames.size) :
    (s.addFrame fr).2.frame f = s.frame f := by
  simp [addFrame, frame, Array.getElem?_push, h]

theorem parent?_addFrame_self (s : Store) (fr : Frame) :
    (s.addFrame fr).2.parent? s.frames.size = fr.outer.head? := by
  rw [parent?, frame_addFrame_self]

theorem keepsParents_addFrame (s : Store) (fr : Frame) : s.KeepsParents (s.addFrame fr).2 :=
  fun f hf => by rw [parent?, parent?, frame_addFrame_of_ne fr (Nat.ne_of_lt hf)]

@[simp] theorem parent?_bind (s : Store) (e : FrameId) (x : String) (v : Value) (f : FrameId) :
    (s.bind e x v).parent? f = s.parent? f := by
  rw [parent?, parent?, outer_bind]

/-- An attempt to bind a name where it has a meaning binds it in some frame or does nothing. -/
theorem rebind_cases (s : Store) (e : FrameId) (x : String) (v : Value) :
    (∃ g, s.owner? e x = some g ∧ s.rebind e x v = some (s.bind g x v)) ∨
      s.owner? e x = none ∧ s.rebind e x v = none := by
  rw [rebind]
  cases s.owner? e x with
  | some g => exact .inl ⟨g, rfl, rfl⟩
  | none => exact .inr ⟨rfl, rfl⟩

theorem keepsParents_rebind (s : Store) (e : FrameId) (x : String) (v : Value) :
    s.KeepsParents ((s.rebind e x v).getD s) := by
  intro f _
  rcases s.rebind_cases e x v with ⟨g, -, hs⟩ | ⟨-, hs⟩
  · rw [hs, Option.getD_some, parent?_bind]
  · rw [hs, Option.getD_none]

/-- The frames around a frame are an older frame and the frames around that, if there are any. -/
def Linked (s : Store) : Prop :=
  ∀ f, (s.frame f).outer = [] ∨ ∃ p < f, (s.frame f).outer = s.chain p

namespace Linked

theorem parent_lt (h : s.Linked) (hp : s.parent? f = some p) : p < f := by
  rw [parent?] at hp
  rcases h f with hnil | ⟨q, hq, hchain⟩
  · simp [hnil] at hp
  · rw [hchain, chain, List.head?_cons] at hp
    exact Option.some.inj hp ▸ hq

/-- The chain of a frame goes on with the chain of its parent. -/
theorem chain_eq (h : s.Linked) (f : FrameId) :
    s.chain f = f :: ((s.parent? f).map s.chain).getD [] := by
  rw [chain, parent?]
  rcases h f with hnil | ⟨q, -, hchain⟩
  · rw [hnil]
    rfl
  · rw [hchain]
    rfl

theorem bind (h : s.Linked) (e : FrameId) (x : String) (v : Value) : (s.bind e x v).Linked := by
  intro f
  simp only [outer_bind, chain_bind]
  exact h f

/-- Another frame does no harm if it is linked itself. -/
theorem addFrame (h : s.Linked) {fr : Frame}
    (hfr : fr.outer = [] ∨ ∃ p < s.frames.size, fr.outer = s.chain p) :
    (s.addFrame fr).2.Linked := by
  have hchain (p : FrameId) (hp : p < s.frames.size) : (s.addFrame fr).2.chain p = s.chain p := by
    rw [chain, chain, frame_addFrame_of_ne fr (Nat.ne_of_lt hp)]
  intro f
  by_cases hf : f = s.frames.size
  · subst hf
    rw [frame_addFrame_self]
    rcases hfr with hnil | ⟨p, hp, hout⟩
    · exact .inl hnil
    · exact .inr ⟨p, hp, hout.trans (hchain p hp).symm⟩
  · rw [frame_addFrame_of_ne fr hf]
    rcases h f with hnil | ⟨p, hp, hout⟩
    · exact .inl hnil
    · refine .inr ⟨p, hp, hout.trans (hchain p ?_).symm⟩
      -- Places without a frame have nothing around them, so `f` is the place of a frame.
      refine Nat.lt_of_not_le fun hsize => ?_
      have hnone : (s.frame f).outer = [] := by simp [frame, Nat.le_trans hsize (Nat.le_of_lt hp)]
      cases hnone.symm.trans hout

end Linked

/-! ### Forests -/

/-- The stores and handles that can be made by making frames and handles and by binding names. A
name is bound in the frame of a handle or in the frame that says what the name means there, if there
is one. -/
inductive Forest : Store → List FrameId → Prop where
  /-- Nothing has been made. -/
  | nil : Forest {} []
  /-- A new root. -/
  | root {s : Store} {es : List FrameId} :
      Forest s es → Forest (s.addFrame {}).2 ((s.addFrame {}).1 :: es)
  /-- A new frame inside the frame of a handle. -/
  | enclosed {s : Store} {es : List FrameId} {e : FrameId} :
      Forest s es → e ∈ es → Forest (s.addFrameIn e).2 ((s.addFrameIn e).1 :: es)
  /-- Another handle of the same frame. -/
  | clone {s : Store} {es : List FrameId} {e : FrameId} :
      Forest s es → e ∈ es → Forest s (e :: es)
  /-- A binding in the frame of a handle. -/
  | set {s : Store} {es : List FrameId} {e : FrameId} {x : String} {v : Value} :
      Forest s es → e ∈ es → Forest (s.bind e x v) es
  /-- A binding where the name has a meaning. -/
  | setExisting {s : Store} {es : List FrameId} {e : FrameId} {x : String} {v : Value} :
      Forest s es → e ∈ es → Forest ((s.rebind e x v).getD s) es

@[simp] theorem size_frames_bind (s : Store) (e : FrameId) (x : String) (v : Value) :
    (s.bind e x v).frames.size = s.frames.size := by
  simp [bind]

namespace Forest

/-- Handles are frames that are there. -/
theorem lt_size (h : Forest s es) : ∀ e ∈ es, e < s.frames.size := by
  induction h with
  | nil => simp
  | root _ ih | enclosed _ _ ih =>
    simp only [addFrameIn, addFrame, List.forall_mem_cons, Array.size_push]
    exact ⟨Nat.lt_succ_self _, fun e he => Nat.lt_succ_of_lt (ih e he)⟩
  | clone _ he ih => exact List.forall_mem_cons.2 ⟨ih _ he, ih⟩
  | set _ _ ih => simpa using ih
  | @setExisting s _ e x v _ _ ih =>
    rcases s.rebind_cases e x v with ⟨g, -, hs⟩ | ⟨-, hs⟩
    · simpa [hs] using ih
    · simpa [hs] using ih

theorem linked (h : Forest s es) : s.Linked := by
  induction h with
  | nil => exact fun f => .inl (by simp [frame])
  | root _ ih => exact ih.addFrame (.inl rfl)
  | enclosed h he ih => exact ih.addFrame (.inr ⟨_, h.lt_size _ he, rfl⟩)
  | clone _ _ ih => exact ih
  | set _ _ ih => exact ih.bind _ _ _
  | @setExisting s _ e x v _ _ ih =>
    rcases s.rebind_cases e x v with ⟨g, -, hs⟩ | ⟨-, hs⟩
    · rw [hs]
      exact ih.bind g x v
    · rwa [hs]

end Forest

/-! ### What a handle sees -/

/-- On the chain of a frame `f` there is the frame `g`, and no frame before it binds the name. -/
inductive Unshadowed (s : Store) (x : String) : FrameId → FrameId → Prop where
  /-- The frame is the first on its own chain. -/
  | here {f : FrameId} : s.Unshadowed x f f
  /-- A frame that does not bind the name lets the frames around it be seen. -/
  | up {f p g : FrameId} : ¬ (s.frame f).bindings.contains x → s.parent? f = some p →
      s.Unshadowed x p g → s.Unshadowed x f g

/-- The frame `g` is the first on the chain of `f` that binds the name. -/
def Nearest (s : Store) (x : String) (f g : FrameId) : Prop :=
  s.Unshadowed x f g ∧ (s.frame g).bindings.contains x

namespace Linked

/-- The frame that says what a name means is the frame itself or that of the parent. -/
theorem owner?_eq (h : s.Linked) (f : FrameId) (x : String) :
    s.owner? f x = if (s.frame f).bindings.contains x then some f
      else (s.parent? f).bind fun p => s.owner? p x := by
  rw [owner?, h.chain_eq, List.find?_cons]
  cases (s.frame f).bindings.contains x with
  | true => rfl
  | false => cases s.parent? f <;> rfl

/-- The first frame that binds a name is the frame that says what it means. -/
theorem owner?_eq_some_iff (h : s.Linked) : s.owner? f x = some g ↔ s.Nearest x f g := by
  constructor
  · intro howner
    refine ⟨?_, contains_of_owner? howner⟩
    -- Parents are older.
    induction f using Nat.strongRecOn with
    | ind f ih =>
      rw [h.owner?_eq] at howner
      split at howner
      next => exact Option.some.inj howner ▸ .here
      next hx =>
        obtain ⟨p, hp, howner⟩ := Option.bind_eq_some_iff.1 howner
        exact .up hx hp (ih p (h.parent_lt hp) howner)
  · rintro ⟨hseen, hbound⟩
    induction hseen with
    | here => rw [h.owner?_eq, if_pos hbound]
    | up hx hp _ ih => rw [h.owner?_eq, if_neg hx, hp, Option.bind_some, ih hbound]

/-- A name means what the first frame says that binds it. -/
theorem lookup_eq_some_iff (h : s.Linked) :
    s.lookup f x = some v ↔ ∃ g, s.Nearest x f g ∧ (s.frame g).bindings.get? x = some v := by
  simp only [lookup_eq, Option.bind_eq_some_iff, h.owner?_eq_some_iff]

end Linked

/-! ### What a binding changes -/

/-- A binding changes what one frame says about one name. -/
theorem get?_frame_bind_of_ne (h : f ≠ e ∨ y ≠ x) :
    ((s.bind e x v).frame f).bindings.get? y = (s.frame f).bindings.get? y := by
  by_cases hf : f < s.frames.size
  · rw [frame_bind hf]
    split
    next hef => exact Dict.get?_insert_of_ne _ v (h.resolve_left fun hne => hne hef.symm)
    next => rfl
  · simp [frame, bind, Nat.le_of_not_lt hf]

/-- A binding does not change what other names mean. -/
theorem lookup_bind_of_ne (h : y ≠ x) (f : FrameId) : (s.bind e x v).lookup f y = s.lookup f y := by
  simp only [lookup, chain_bind, get?_frame_bind_of_ne (.inr h)]

namespace Linked

theorem lookup_eq_parent (h : s.Linked) (f : FrameId) (x : String) :
    s.lookup f x = ((s.frame f).bindings.get? x).or ((s.parent? f).bind fun p => s.lookup p x) := by
  rw [lookup, h.chain_eq, List.findSome?_cons]
  cases (s.frame f).bindings.get? x with
  | some v => rfl
  | none => cases s.parent? f <;> rfl

/-- Who sees the frame sees the binding. -/
theorem lookup_bind_of_unshadowed (h : s.Linked) (he : e < s.frames.size)
    (hseen : s.Unshadowed x f e) : (s.bind e x v).lookup f x = some v := by
  induction hseen with
  | here => exact lookup_bind_self he x v
  | @up f p e hx hp _ ih =>
    by_cases hfe : f = e
    · exact hfe ▸ lookup_bind_self he x v
    · have hnone : (s.frame f).bindings.get? x = none := by simpa [Dict.contains] using hx
      rw [(h.bind e x v).lookup_eq_parent, get?_frame_bind_of_ne (.inl hfe), hnone, parent?_bind,
        hp]
      exact ih he

/-- Who does not see the frame does not see the binding. -/
theorem lookup_bind_of_not_unshadowed (h : s.Linked) (hseen : ¬ s.Unshadowed x f e) :
    (s.bind e x v).lookup f x = s.lookup f x := by
  induction f using Nat.strongRecOn with
  | ind f ih =>
    have hfe : f ≠ e := fun hfe => hseen (hfe ▸ .here)
    rw [(h.bind e x v).lookup_eq_parent, h.lookup_eq_parent, get?_frame_bind_of_ne (.inl hfe),
      parent?_bind]
    cases hx : (s.frame f).bindings.get? x with
    | some w => rfl
    | none =>
      cases hp : s.parent? f with
      | none => rfl
      | some p =>
        have hfree : ¬ (s.frame f).bindings.contains x := by simp [Dict.contains, hx]
        exact ih p (h.parent_lt hp) fun hp' => hseen (.up hfree hp hp')

/-- After a binding, the name means the value where the frame is seen, and there is no other
change. -/
theorem lookup_bind (h : s.Linked) (he : e < s.frames.size) (f : FrameId) (y : String) :
    (y = x ∧ s.Unshadowed x f e → (s.bind e x v).lookup f y = some v) ∧
      (¬ (y = x ∧ s.Unshadowed x f e) → (s.bind e x v).lookup f y = s.lookup f y) := by
  refine ⟨?_, fun hnot => ?_⟩
  · rintro ⟨rfl, hseen⟩
    exact h.lookup_bind_of_unshadowed he hseen
  by_cases hy : y = x
  · subst hy
    exact h.lookup_bind_of_not_unshadowed fun hseen => hnot ⟨rfl, hseen⟩
  · exact lookup_bind_of_ne hy f

/-- An attempt to bind a name where it has a meaning changes what the name means for those who find
it in the same frame. -/
theorem lookup_rebind (h : s.Linked) (e : FrameId) (x : String) (v : Value) (f : FrameId)
    (y : String) :
    (y = x ∧ (∃ g, s.Nearest x e g ∧ s.Nearest x f g) →
        ((s.rebind e x v).getD s).lookup f y = some v) ∧
      (¬ (y = x ∧ ∃ g, s.Nearest x e g ∧ s.Nearest x f g) →
        ((s.rebind e x v).getD s).lookup f y = s.lookup f y) := by
  rcases s.rebind_cases e x v with ⟨g, howner, hs⟩ | ⟨hnone, hs⟩
  · have hbound := contains_of_owner? howner
    have hsame : (∃ g, s.Nearest x e g ∧ s.Nearest x f g) ↔ s.Unshadowed x f g := by
      constructor
      · rintro ⟨g', he, hf⟩
        rw [← h.owner?_eq_some_iff, howner] at he
        exact Option.some.inj he ▸ hf.1
      · exact fun hseen => ⟨g, h.owner?_eq_some_iff.1 howner, hseen, hbound⟩
    rw [hs, Option.getD_some, hsame]
    exact h.lookup_bind (lt_of_contains hbound) f y
  · have hnot : ¬ ∃ g, s.Nearest x e g ∧ s.Nearest x f g := by
      rintro ⟨g, he, -⟩
      rw [← h.owner?_eq_some_iff, hnone] at he
      cases he
    rw [hs, Option.getD_none]
    exact ⟨fun hyes => absurd hyes.2 hnot, fun _ => rfl⟩

end Linked

/-! ### Forests resolve to the nearest binding -/

/-- In every forest the parent of a frame is the frame inside which it was made, and remains so. For
each handle, a name means what the first frame on the chain of parents says that binds it. A name
can be bound where it has a meaning exactly if it has one. Then it means the value for all handles
that found it in the same frame, and nothing else changes; if it has none, nothing changes at all. A
binding in the frame of the handle itself is seen by all handles from which the frame is seen, and
by no others. -/
theorem Forest.resolves_nearest (h : Forest s es) (he : e ∈ es) (x : String) (v : Value) :
    ((s.addFrame {}).2.parent? (s.addFrame {}).1 = none ∧
      (s.addFrameIn e).2.parent? (s.addFrameIn e).1 = some e ∧
      s.KeepsParents (s.addFrame {}).2 ∧ s.KeepsParents (s.addFrameIn e).2 ∧
      s.KeepsParents (s.bind e x v) ∧ s.KeepsParents ((s.rebind e x v).getD s)) ∧
    (∀ w, s.lookup e x = some w ↔
      ∃ g, s.Nearest x e g ∧ (s.frame g).bindings.get? x = some w) ∧
    (s.rebind e x v).isSome = (s.lookup e x).isSome ∧
    (∀ e' y,
      (y = x ∧ (∃ g, s.Nearest x e g ∧ s.Nearest x e' g) →
        ((s.rebind e x v).getD s).lookup e' y = some v) ∧
      (¬ (y = x ∧ ∃ g, s.Nearest x e g ∧ s.Nearest x e' g) →
        ((s.rebind e x v).getD s).lookup e' y = s.lookup e' y)) ∧
    (s.rebind e x v = none → ∀ e' y,
      ((s.rebind e x v).getD s).lookup e' y = s.lookup e' y) ∧
    (∀ e' y,
      (y = x ∧ s.Unshadowed x e' e → (s.bind e x v).lookup e' y = some v) ∧
      (¬ (y = x ∧ s.Unshadowed x e' e) → (s.bind e x v).lookup e' y = s.lookup e' y)) := by
  have hlinked := h.linked
  refine ⟨⟨s.parent?_addFrame_self {}, s.parent?_addFrame_self { outer := s.chain e },
      s.keepsParents_addFrame {}, s.keepsParents_addFrame { outer := s.chain e },
      fun f _ => s.parent?_bind e x v f, s.keepsParents_rebind e x v⟩,
    fun w => hlinked.lookup_eq_some_iff, ?_, hlinked.lookup_rebind e x v,
    fun hnone e' y => by rw [hnone, Option.getD_none], hlinked.lookup_bind (h.lt_size e he)⟩
  rw [rebind, Option.isSome_map, isSome_lookup]

/-- A root that binds `x`, a frame inside it that binds `x` as well, a frame inside that one with
two handles, and another frame inside the root. -/
def grove : Store :=
  let s := (({} : Store).addFrame {}).2.bind 0 "x" (.int 1)
  ((s.addFrameIn 0).2.addFrameIn 1).2.addFrameIn 0 |>.2.bind 1 "x" (.int 5)

theorem forest_grove : Forest grove [3, 2, 2, 1, 0] :=
  have hroot : Forest _ [0] := Forest.nil.root.set (e := 0) (by decide)
  have hinner : Forest _ [2, 1, 0] :=
    (hroot.enclosed (e := 0) (by decide)).enclosed (e := 1) (by decide)
  ((hinner.clone (e := 2) (by decide)).enclosed (e := 0) (by decide)).set (e := 1) (by decide)

/-- The innermost frame finds `x` in the frame around it. After an assignment from there both of
them see the new value, and the root and its other frame do not. -/
theorem Forest.resolves_nearest_grove :
    Forest grove [3, 2, 2, 1, 0] ∧
    (grove.rebind 2 "x" (.int 9)).isSome ∧
    ((grove.rebind 2 "x" (.int 9)).getD grove).lookup 1 "x" = some (.int 9) ∧
    ((grove.rebind 2 "x" (.int 9)).getD grove).lookup 3 "x" = some (.int 1) := by
  have hlinked := forest_grove.linked
  obtain ⟨-, -, hdone, hchange, -⟩ :=
    forest_grove.resolves_nearest (e := 2) (by decide) "x" (.int 9)
  simp only [← hlinked.owner?_eq_some_iff] at hchange
  refine ⟨forest_grove, hdone.trans (by decide), (hchange 1 "x").1 ⟨rfl, 1, by decide⟩, ?_⟩
  refine ((hchange 3 "x").2 ?_).trans (by decide)
  rintro ⟨-, g, hg, hg'⟩
  have hsame : some 1 = some 0 := hg.trans hg'.symm
  cases hsame

end Store

end MonkeyLang
