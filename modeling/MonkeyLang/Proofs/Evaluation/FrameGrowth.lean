import MonkeyLang.Proofs.Evaluation.Kept

/-!
# Frames only grow

A name can be bound again, but it is never unbound, and a frame stays inside the frames inside which it
was made. So once the frame at hand binds a name itself, it goes on to do so, whatever is evaluated and
wherever that assigns.

## Main statements

* `kept_framesGrow` : in both modes of assignment frames only grow.
* `Machine.Binds.assign_eq` : both modes do the same to a name that the frame at hand binds.
-/

namespace MonkeyLang

/-! ### Names that are bound -/

/-- The frame at hand binds the name itself. -/
def Machine.Binds (m : Machine) (x : String) : Prop :=
  (m.store.frame m.frame).bindings.contains x

namespace Machine

variable {m : Machine} {x : String}

/-- The modes do the same to a name that the frame at hand binds. -/
theorem Binds.assign_eq (h : m.Binds x) (mode : AssignMode) (v : Value) :
    m.assign mode x v = m.bind x v := by
  cases mode with
  | localFrame => rfl
  | enclosing =>
    have howner : m.store.owner? m.frame x = some m.frame := List.find?_cons_of_pos h
    simp only [assign, howner, bind]

/-- A frame that stands in no other one binds all names that mean something in it. -/
theorem binds_of_lookup (houter : (m.store.frame m.frame).outer = []) (h : (m.lookup x).isSome) :
    m.Binds x := by
  simpa [lookup, Store.lookup, Store.chain, houter, Binds, Dict.contains] using h

/-- The frame of a body binds the parameters. -/
theorem binds_enter {c : Closure} {args : List Value} (arity : c.params.length = args.length)
    (h : x ∈ c.params) : (m.enter c args).Binds x := by
  have hbound : (Dict.empty.insertAll (c.params.zip args)).contains x := by
    refine Dict.contains_insertAll (.inr ?_)
    rwa [List.map_fst_zip (Nat.le_of_eq arity)]
  simpa [Binds, enter, Store.addFrame, Store.frame] using hbound

end Machine

/-! ### Frames only grow -/

/-- Binding a name changes one frame. -/
theorem Store.frame_bind {s : Store} {f g : FrameId} {x : String} {v : Value}
    (hg : g < s.frames.size) :
    (s.bind f x v).frame g =
      if f = g then { s.frame g with bindings := (s.frame g).bindings.insert x v }
      else s.frame g := by
  simp only [Store.bind, Store.frame, Array.getD_eq_getD_getElem?, Array.getElem?_modify,
    Array.getElem?_eq_getElem hg]
  split <;> rfl

/-- A binding does not change inside which frames a frame stands. -/
@[simp] theorem Store.outer_bind (s : Store) (g : FrameId) (x : String) (v : Value) (f : FrameId) :
    ((s.bind g x v).frame f).outer = (s.frame f).outer := by
  by_cases hf : f < s.frames.size
  · rw [frame_bind hf]
    split <;> rfl
  · simp [frame, bind, Nat.le_of_not_lt hf]

@[simp] theorem Store.chain_bind (s : Store) (g : FrameId) (x : String) (v : Value) (f : FrameId) :
    (s.bind g x v).chain f = s.chain f := by
  rw [chain, chain, outer_bind]

/-- The machine is in the same frame, and no frame has lost a binding or has got other frames around
it. -/
structure FramesGrow (m m' : Machine) : Prop where
  frame : m'.frame = m.frame
  size : m.store.frames.size ≤ m'.store.frames.size
  outer : ∀ f < m.store.frames.size, (m'.store.frame f).outer = (m.store.frame f).outer
  bindings : ∀ f < m.store.frames.size, ∀ x, (m.store.frame f).bindings.contains x →
    (m'.store.frame f).bindings.contains x

namespace FramesGrow

variable {m m' m'' : Machine}

theorem of_eq (hframe : m'.frame = m.frame) (hframes : m'.store.frames = m.store.frames) :
    FramesGrow m m' := by
  have h (f : FrameId) : m'.store.frame f = m.store.frame f := by
    rw [Store.frame, Store.frame, hframes]
  refine ⟨hframe, Nat.le_of_eq (by rw [hframes]), fun f _ => by rw [h], fun f _ x hx => ?_⟩
  rwa [h]

theorem trans (h : FramesGrow m m') (h' : FramesGrow m' m'') : FramesGrow m m'' where
  frame := h'.frame.trans h.frame
  size := Nat.le_trans h.size h'.size
  outer f hf := (h'.outer f (Nat.lt_of_lt_of_le hf h.size)).trans (h.outer f hf)
  bindings f hf x hx := h'.bindings f (Nat.lt_of_lt_of_le hf h.size) x (h.bindings f hf x hx)

/-- Binding a name, in whatever frame, takes nothing away. -/
theorem bindIn (m : Machine) (f : FrameId) (x : String) (v : Value) :
    FramesGrow m { m with store := m.store.bind f x v } := by
  refine ⟨rfl, by simp [Store.bind], fun g hg => ?_, fun g hg y hy => ?_⟩
  · rw [Store.frame_bind hg]
    split <;> rfl
  · rw [Store.frame_bind hg]
    split
    · exact Dict.contains_insert hy x v
    · exact hy

/-- What the evaluation of a body leaves, compared with the machine of the caller. -/
theorem of_enter {c : Closure} {args : List Value} (h : FramesGrow (m.enter c args) m') :
    FramesGrow m (m'.leave m.frame) := by
  have hsize : (m.enter c args).store.frames.size = m.store.frames.size + 1 := by
    simp [Machine.enter, Store.addFrame]
  have hframe (f : FrameId) (hf : f < m.store.frames.size) :
      (m.enter c args).store.frame f = m.store.frame f := by
    simp [Machine.enter, Store.addFrame, Store.frame, Array.getElem?_push, Nat.ne_of_lt hf]
  have hsize' := h.size
  refine ⟨rfl, ?_, fun f hf => ?_, fun f hf x hx => ?_⟩
  · show m.store.frames.size ≤ m'.store.frames.size
    omega
  · rw [← hframe f hf]
    exact h.outer f (by omega)
  · rw [← hframe f hf] at hx
    exact h.bindings f (by omega) x hx

/-- What the frame at hand binds stays bound. -/
theorem binds (h : FramesGrow m m') (hm : m.frame < m.store.frames.size) {x : String}
    (hx : m.Binds x) : m'.Binds x := by
  rw [Machine.Binds, h.frame]
  exact h.bindings m.frame hm x hx

end FramesGrow

/-- In both modes of assignment frames only grow. -/
theorem kept_framesGrow (o : Options) : Kept o FramesGrow where
  refl _ := .of_eq rfl rfl
  trans := .trans
  bind m x v := .bindIn m m.frame x v
  assign m x v := by
    unfold Machine.assign
    split
    · exact .bindIn m m.frame x v
    · split
      next f _ => exact .bindIn m f x v
      next => exact .of_eq rfl rfl
  put m slot p := by
    cases slot <;> exact .of_eq rfl rfl
  newArray _ _ := .of_eq rfl rfl
  newHash _ _ := .of_eq rfl rfl
  newFunction _ _ := .of_eq rfl rfl
  print _ _ := .of_eq rfl rfl
  call _ _ _ _ _ h := h.of_enter

end MonkeyLang
