import MonkeyLang.Proofs.Evaluation.Kept

/-!
# Frames under local assignment

When assignments to names write to the frame at hand, every evaluation stays in that frame: no other
frame that is there already changes (`OnlyOwnFrame`). A call makes a frame of its own and evaluates
the body there, so it changes none of the frames that were there before.

## Main statements

* `apply_keeps_frames` : a call changes no existing frame.
-/

namespace MonkeyLang

/-- The machine stays in its frame, and no other frame that it has is changed or taken away. -/
def OnlyOwnFrame (m m' : Machine) : Prop :=
  m'.frame = m.frame ∧ m.store.frames.size ≤ m'.store.frames.size ∧
    ∀ g < m.store.frames.size, g ≠ m.frame → m'.store.frames[g]? = m.store.frames[g]?

namespace OnlyOwnFrame

variable {m m' m'' : Machine}

/-- The frames stay as they are. -/
theorem of_eq (hframe : m'.frame = m.frame) (hframes : m'.store.frames = m.store.frames) :
    OnlyOwnFrame m m' :=
  ⟨hframe, Nat.le_of_eq (by rw [hframes]), fun g _ _ => by rw [hframes]⟩

theorem trans (h : OnlyOwnFrame m m') (h' : OnlyOwnFrame m' m'') : OnlyOwnFrame m m'' := by
  obtain ⟨hframe, hsize, hsame⟩ := h
  obtain ⟨hframe', hsize', hsame'⟩ := h'
  refine ⟨hframe'.trans hframe, Nat.le_trans hsize hsize', fun g hg hne => ?_⟩
  rw [hsame' g (Nat.lt_of_lt_of_le hg hsize) (hframe ▸ hne), hsame g hg hne]

/-- A binding is made in the frame at hand. -/
theorem bind (m : Machine) (x : String) (v : Value) : OnlyOwnFrame m (m.bind x v) := by
  refine ⟨rfl, ?_, fun g hg hne => ?_⟩
  · simp [Machine.bind, Store.bind]
  · simp [Machine.bind, Store.bind, Array.getElem?_modify, Ne.symm hne]

/-- A body that is evaluated in the frame made for it leaves all other frames as they were. -/
theorem frames_of_enter {c : Closure} {args : List Value} (h : OnlyOwnFrame (m.enter c args) m') :
    m.store.frames.size ≤ m'.store.frames.size ∧
      ∀ g < m.store.frames.size, m'.store.frames[g]? = m.store.frames[g]? := by
  obtain ⟨-, hsize, hsame⟩ := h
  have hpush : (m.enter c args).store.frames.size = m.store.frames.size + 1 := by
    simp [Machine.enter, Store.addFrame]
  refine ⟨by omega, fun g hg => ?_⟩
  -- The new frame has the place behind those that were there.
  have hother : g ≠ (m.enter c args).frame := Nat.ne_of_lt hg
  rw [hsame g (by omega) hother]
  simp [Machine.enter, Store.addFrame, Array.getElem?_push, Nat.ne_of_lt hg]

end OnlyOwnFrame

/-- Under local assignment every evaluation stays in its frame. -/
theorem kept_onlyOwnFrame {o : Options} (ho : o.assign = .localFrame) : Kept o OnlyOwnFrame where
  refl _ := .of_eq rfl rfl
  trans := .trans
  bind := .bind
  assign m x v := by
    rw [ho]
    exact .bind m x v
  put m slot p := by
    cases slot <;> exact .of_eq rfl rfl
  newArray _ _ := .of_eq rfl rfl
  newHash _ _ := .of_eq rfl rfl
  newFunction _ _ := .of_eq rfl rfl
  print _ _ := .of_eq rfl rfl
  call m c args m' _ h := by
    obtain ⟨hsize, hsame⟩ := h.frames_of_enter
    exact ⟨rfl, hsize, fun g hg _ => hsame g hg⟩

/-- Built-in functions leave the frames alone. -/
theorem keptByBuiltins_frames :
    KeptByBuiltins fun m m' : Machine => m'.store.frames = m.store.frames where
  refl _ := rfl
  trans h h' := h'.trans h
  newArray _ _ := rfl
  print _ _ := rfl

/-- Under local assignment a call changes no frame that was there before. Whatever is called with
whatever arguments, and however the call ends, every frame of the machine has kept its bindings and
the frames around it. -/
theorem apply_keeps_frames {o : Options} (ho : o.assign = .localFrame) (n : Nat) (f : Value)
    (args : List Value) (m : Machine) :
    (Value.apply o n f args m).Leaves fun m' =>
      ∀ g < m.store.frames.size, m'.store.frames[g]? = m.store.frames[g]? := by
  cases n with
  | zero => trivial
  | succ n =>
    refine ((kept_onlyOwnFrame ho).keptIn n).apply_leaves f args (fun _ _ => rfl) ?_ ?_
    · intro c m' _ h g hg
      exact h.frames_of_enter.2 g hg
    · intro b
      refine (keptByBuiltins_frames.call_leaves b args m).mono fun m' h g _ => ?_
      rw [h]

/-- A machine in whose only frame `x` is zero, with the function `fn() { x = 1 }`. -/
def shadowing : Machine :=
  let body : Block := ⟨[.expr (.assign (.ident "x" .nowhere) (.int 1 .nowhere) .nowhere) .nowhere],
    .nowhere⟩
  { Machine.initial with
    store := { frames := #[{ bindings := ⟨[("x", .int 0)]⟩ }], closures := #[⟨[], body, 0⟩] } }

/-- The call ends, and `x` is still zero. -/
theorem apply_shadowing_keeps_frames :
    ({} : Options).assign = .localFrame ∧
    (∃ m', Value.apply {} 6 (.function 0) [] shadowing = .done .null m') ∧
    (Value.apply {} 6 (.function 0) [] shadowing).Leaves fun m' =>
      ∀ g < shadowing.store.frames.size, m'.store.frames[g]? = shadowing.store.frames[g]? :=
  ⟨rfl, ⟨_, rfl⟩, apply_keeps_frames rfl 6 (.function 0) [] shadowing⟩

end MonkeyLang
