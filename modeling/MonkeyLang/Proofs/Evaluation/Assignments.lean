import MonkeyLang.Proofs.Evaluation.StoreGrowth

/-!
# Assignments are not lost

An assignment looks at its target before it evaluates its right-hand side, and that may bind names
anew and fill slots. Since the store only grows, what has been found is still there when the value is
stored: the name still means something, and the array still has the slot.

## Main statements

* `assignments_take_effect` : the store grows, and what has been assigned is found at once.
-/

namespace MonkeyLang

variable {α β : Type}

/-! ### Names -/

namespace Store

variable {s s' : Store} {f g : FrameId} {x : String}

/-- A name is looked up in the frame that says what it means. -/
theorem lookup_eq (s : Store) (f : FrameId) (x : String) :
    s.lookup f x = (s.owner? f x).bind fun g => (s.frame g).bindings.get? x := by
  unfold lookup owner?
  induction s.chain f with
  | nil => rfl
  | cons g gs ih =>
    rw [List.findSome?_cons, List.find?_cons, Dict.contains]
    cases h : (s.frame g).bindings.get? x with
    | none => exact ih
    | some v => exact h.symm

theorem contains_of_owner? (h : s.owner? f x = some g) : (s.frame g).bindings.contains x := by
  have := List.find?_some h
  exact this

theorem isSome_lookup (s : Store) (f : FrameId) (x : String) :
    (s.lookup f x).isSome = (s.owner? f x).isSome := by
  rw [lookup_eq]
  cases h : s.owner? f x with
  | none => rfl
  | some g => exact contains_of_owner? h

/-- A frame that binds a name is there. -/
theorem lt_of_contains (h : (s.frame f).bindings.contains x) : f < s.frames.size := by
  refine Nat.lt_of_not_le fun hf => ?_
  simp [frame, hf, Dict.contains, Dict.get?, Dict.find?] at h

/-- A frame in which a name means something is there. -/
theorem lt_of_lookup (h : (s.lookup f x).isSome) : f < s.frames.size := by
  refine Nat.lt_of_not_le fun hf => ?_
  simp [lookup, chain, frame, hf, Dict.get?, Dict.find?] at h

/-- What means something goes on to mean something. -/
theorem Grows.lookup (h : s.Grows s') (hx : (s.lookup f x).isSome) : (s'.lookup f x).isSome := by
  have hf := lt_of_lookup hx
  rw [isSome_lookup, owner?, List.find?_isSome] at hx ⊢
  obtain ⟨g, hg, hbound⟩ := hx
  refine ⟨g, ?_, h.bindings g (lt_of_contains hbound) x hbound⟩
  rwa [chain, h.outer f hf]

/-- A name that the frame binds already is bound again, and no other name is bound or unbound. -/
theorem contains_bind (h : (s.frame g).bindings.contains x) (v : Value) (f : FrameId) (y : String) :
    ((s.bind g x v).frame f).bindings.contains y = (s.frame f).bindings.contains y := by
  by_cases hf : f < s.frames.size
  · rw [frame_bind hf]
    split
    next hgf =>
      subst hgf
      by_cases hy : y = x
      · subst hy
        rw [h, Dict.contains_insert_self]
      · rw [Dict.contains, Dict.get?_insert_of_ne _ v hy, Dict.contains]
    next => rfl
  · simp [frame, bind, Nat.le_of_not_lt hf]

/-- What is bound in the frame that says what the name means is what it means then. -/
theorem lookup_bind_owner (h : s.owner? f x = some g) (v : Value) :
    (s.bind g x v).lookup f x = some v := by
  have hbound := contains_of_owner? h
  have howner : (s.bind g x v).owner? f x = some g := by
    simp only [owner?, chain_bind, contains_bind hbound]
    exact h
  rw [lookup_eq, howner, Option.bind_some, frame_bind (lt_of_contains hbound), if_pos rfl,
    Dict.get?_insert_self]

/-- What is bound in a frame is what the name means there. -/
theorem lookup_bind_self (hf : f < s.frames.size) (x : String) (v : Value) :
    (s.bind f x v).lookup f x = some v := by
  rw [lookup, chain, List.findSome?_cons, frame_bind hf, if_pos rfl, Dict.get?_insert_self]

end Store

/-- A name that means something means what has been assigned to it. -/
theorem Machine.lookup_assign {m : Machine} {x : String} (h : (m.lookup x).isSome)
    (mode : AssignMode) (v : Value) : (m.assign mode x v).lookup x = some v := by
  cases mode with
  | localFrame => exact Store.lookup_bind_self (Store.lt_of_lookup h) x v
  | enclosing =>
    obtain ⟨g, howner⟩ := Option.isSome_iff_exists.1 ((Store.isSome_lookup ..).symm.trans h)
    rw [assign, howner]
    exact Store.lookup_bind_owner howner v

/-- Where assignments write to the frame that says what the name means, there is such a frame, and
no frame binds a name that it has not bound before. -/
theorem Machine.rebind_of_lookup {m : Machine} {x : String} (h : (m.lookup x).isSome) (v : Value) :
    m.store.rebind m.frame x v = some (m.assign .enclosing x v).store ∧
      ∀ f y, ((m.assign .enclosing x v).store.frame f).bindings.contains y =
        (m.store.frame f).bindings.contains y := by
  obtain ⟨g, howner⟩ := Option.isSome_iff_exists.1 ((Store.isSome_lookup ..).symm.trans h)
  rw [assign, howner]
  refine ⟨by rw [Store.rebind, howner]; rfl, fun f y => ?_⟩
  exact Store.contains_bind (Store.contains_of_owner? howner) v f y

/-! ### Slots -/

namespace Store

variable {s s' : Store} {slot : Slot}

/-- The slot can be filled: the array has the item, or the hash is there. -/
def Has (s : Store) : Slot → Prop
  | .item a i => i < (s.array a).size
  | .entry h _ => h < s.hashes.size

/-- An item of an array is located only if the array has it. -/
theorem has_of_locate_array {a : ArrayId} {w : Value} (h : s.locate (.array a) w = .ok slot) :
    ∃ i : Int64, w = .int i ∧ 0 ≤ i.toInt ∧ slot = .item a i.toInt.toNat ∧ s.Has slot := by
  cases w with
  | int i =>
    simp only [locate, itemAt?] at h
    split at h
    next found =>
      split at found
      next inside =>
        obtain rfl := Option.some.inj found
        obtain rfl := Except.ok.inj h
        exact ⟨i, rfl, inside.1, rfl, by rw [Has]; omega⟩
      next => cases found
    next => cases h
  | _ => cases h

/-- A slot that can be filled goes on to be one. -/
theorem Grows.has (h : s.Grows s') (hslot : s.Has slot) : s'.Has slot := by
  cases slot with
  | item a i =>
    have ha : a < s.arrays.size := by
      refine Nat.lt_of_not_le fun ha => ?_
      simp [Has, array, ha] at hslot
    rw [Has, h.lengths a ha]
    exact hslot
  | entry i k => exact Nat.lt_of_lt_of_le hslot h.hashes

theorem get?_put (h : s.Has slot) (p : Pair) : (s.put slot p).get? slot = some p.value := by
  cases slot with
  | item a i => exact get?_put_item h p
  | entry i k => exact get?_put_entry h k p

end Store

/-! ### Assignments -/

theorem Outcome.andThen_eq_done {r : Outcome α} {next : α → Machine → Outcome β} {b : β}
    {m : Machine} : r.andThen next = .done b m ↔ ∃ a m', r = .done a m' ∧ next a m' = .done b m := by
  cases r with
  | done a m' =>
    constructor
    · exact fun h => ⟨a, m', rfl, h⟩
    · rintro ⟨_, _, ⟨⟩, h⟩
      exact h
  | signal | outOfFuel => simp

section

variable {o : Options} {n : Nat} {x : String} {value : Expr} {span span' : Span} {u : Value}
  {m m₁ m₂ m₃ : Machine}

/-- Whatever has been evaluated, the store has grown. -/
theorem Task.grows (o : Options) (n : Nat) (t : Task) (m : Machine) :
    (t.eval o n m).Leaves fun m' => m.store.Grows m'.store :=
  (Store.invariant_grows o m.store).leaves n (i := ()) trivial (.refl _)

theorem Expr.grows_of_eval {e : Expr} {v : Value} (h : e.eval o n m = .done v m₁) :
    m.store.Grows m₁.store := by
  have hgrows := Task.grows o n (.expr e) m
  rwa [Task.eval, h] at hgrows

/-- After the evaluation of an expression, the names that have meant something still do. -/
theorem Expr.lookup_of_eval {e : Expr} {v : Value} (h : e.eval o n m = .done v m₁)
    (hx : (m.lookup x).isSome) : (m₁.lookup x).isSome := by
  have hframe := ((kept_framesGrow o).keptIn n).expr e m
  rw [h] at hframe
  rw [Machine.lookup, hframe.frame]
  exact (grows_of_eval h).lookup hx

/-- An assignment to a name that has been completed: the value of the right-hand side has been
assigned to a name that meant something. -/
theorem Expr.exists_of_eval_assign_ident
    (h : Expr.eval o (n + 2) (.assign (.ident x span) value span') m = .done u m₂) :
    ∃ v m₁, value.eval o n m = .done v m₁ ∧ (m₁.lookup x).isSome ∧
      m₂ = m₁.assign o.assign x v := by
  rw [Expr.eval, Expr.evalAssign] at h
  split at h
  next hx =>
    obtain ⟨v, m₁, hv, hend⟩ := Outcome.andThen_eq_done.1 h
    cases hend
    exact ⟨v, m₁, hv, lookup_of_eval hv hx, rfl⟩
  next => cases h

/-- An assignment to an index expression that has been completed: the value of the right-hand side has
been put into the slot that was located before. -/
theorem Expr.exists_of_eval_assign_index {base place : Expr}
    (h : Expr.eval o (n + 2) (.assign (.index base place span) value span') m = .done u m₃) :
    ∃ b w slot v m₁ m₂ m', base.eval o n m = .done b m₁ ∧ place.eval o n m₁ = .done w m₂ ∧
      m₂.store.locate b w = .ok slot ∧ value.eval o n m₂ = .done v m' ∧
      m₃ = m'.put slot ⟨w, v⟩ := by
  rw [Expr.eval, Expr.evalAssign] at h
  obtain ⟨b, m₁, hb, h⟩ := Outcome.andThen_eq_done.1 h
  obtain ⟨w, m₂, hw, h⟩ := Outcome.andThen_eq_done.1 h
  split at h
  next => cases h
  next slot hslot =>
    obtain ⟨v, m', hv, hend⟩ := Outcome.andThen_eq_done.1 h
    cases hend
    exact ⟨b, w, slot, v, m₁, m₂, m', hb, hw, hslot, hv, rfl⟩

end

/-- Whatever is evaluated, from whatever state, no frame loses a binding or comes to stand inside other
frames, no array changes its length and no hash loses a key; this holds at every moment and in the
end. So no assignment that is completed is lost, whatever its right-hand side has done. In both modes
the name that has been assigned to means the value of the right-hand side right after; where
assignments write to the frame that says what the name means, there was such a frame, and no frame has
got a new binding. A slot of an array that has been assigned to holds the value of the right-hand side
right after, and so does a slot of a hash that is there. -/
theorem assignments_take_effect (o : Options) :
    (∀ n (t : Task) m, (t.eval o n m).Leaves fun m' => m.store.Grows m'.store) ∧
    (∀ a k b, Moment.Reaches o a k b → a.machine.store.Grows b.machine.store) ∧
    (∀ n x value span span' m u m₂,
      Expr.eval o (n + 2) (.assign (.ident x span) value span') m = .done u m₂ →
      ∃ v m₁, value.eval o n m = .done v m₁ ∧ m₂ = m₁.assign o.assign x v ∧
        m₂.lookup x = some v ∧
        (o.assign = .enclosing → m₁.store.rebind m₁.frame x v = some m₂.store ∧
          ∀ f y, (m₂.store.frame f).bindings.contains y = (m₁.store.frame f).bindings.contains y)) ∧
    (∀ n base place value span span' m u m₃,
      Expr.eval o (n + 2) (.assign (.index base place span) value span') m = .done u m₃ →
      ∃ b w slot v m₁ m₂ m', base.eval o n m = .done b m₁ ∧ place.eval o n m₁ = .done w m₂ ∧
        m₂.store.locate b w = .ok slot ∧ value.eval o n m₂ = .done v m' ∧ m₃ = m'.put slot ⟨w, v⟩ ∧
        (∀ a, b = .array a → ∃ i : Int64, w = .int i ∧ 0 ≤ i.toInt ∧
          (m₃.store.array a)[i.toInt.toNat]? = some v) ∧
        (m₂.store.Has slot → m₃.store.get? slot = some v)) := by
  refine ⟨Task.grows o, fun a k b h => ?_, ?_, ?_⟩
  · obtain ⟨_, -, h⟩ := (Store.invariant_grows o a.machine.store).reaches (i := ()) trivial
      (.refl _) h
    exact h
  · intro n x value span span' m u m₂ h
    obtain ⟨v, m₁, hv, hx, rfl⟩ := Expr.exists_of_eval_assign_ident h
    refine ⟨v, m₁, hv, rfl, Machine.lookup_assign hx o.assign v, fun ho => ?_⟩
    rw [ho]
    exact Machine.rebind_of_lookup hx v
  · intro n base place value span span' m u m₃ h
    obtain ⟨b, w, slot, v, m₁, m₂, m', hb, hw, hslot, hv, rfl⟩ :=
      Expr.exists_of_eval_assign_index h
    have hput (hhas : m₂.store.Has slot) : (m'.put slot ⟨w, v⟩).store.get? slot = some v :=
      Store.get?_put ((Expr.grows_of_eval hv).has hhas) ⟨w, v⟩
    refine ⟨b, w, slot, v, m₁, m₂, m', hb, hw, hslot, hv, rfl, ?_, hput⟩
    rintro a rfl
    obtain ⟨i, rfl, hi, rfl, hhas⟩ := Store.has_of_locate_array hslot
    exact ⟨i, rfl, hi, hput hhas⟩

/-- A machine in which `x` is zero and `a` is an array of one item, with the function `f` that assigns
to both and answers three: `fn() { a[0] = 5; x = 7; 3 }`. -/
def reassigning : Machine :=
  let x : Expr := .ident "x" .nowhere
  let item : Expr := .index (.ident "a" .nowhere) (.int 0 .nowhere) .nowhere
  let body : Block := ⟨[.expr (.assign item (.int 5 .nowhere) .nowhere) .nowhere,
    .expr (.assign x (.int 7 .nowhere) .nowhere) .nowhere, .expr (.int 3 .nowhere) .nowhere], .nowhere⟩
  { Machine.initial with
    store := {
      frames := #[{ bindings := ⟨[("x", .int 0), ("a", .array 0), ("f", .function 0)]⟩ }]
      arrays := #[#[.int 1]]
      closures := #[⟨[], body, 0⟩] } }

/-- After `x = f()` the name `x` means three, and after `a[0] = f()` the item is three. -/
theorem assignments_take_effect_reassigning :
    let o : Options := { assign := .enclosing }
    let call : Expr := .call (.ident "f" .nowhere) [] .nowhere
    let item : Expr := .index (.ident "a" .nowhere) (.int 0 .nowhere) .nowhere
    (∃ m, Expr.eval o 12 (.assign (.ident "x" .nowhere) call .nowhere) reassigning = .done .null m ∧
      m.lookup "x" = some (.int 3)) ∧
    ∃ m, Expr.eval o 12 (.assign item call .nowhere) reassigning = .done .null m ∧
      (m.store.array 0)[0]? = some (.int 3) := by
  intro o call item
  obtain ⟨-, -, hname, hitem⟩ := assignments_take_effect o
  refine ⟨⟨_, rfl, ?_⟩, ⟨_, rfl, ?_⟩⟩
  · obtain ⟨v, m₁, hv, -, hfound, -⟩ := hname 10 "x" call .nowhere .nowhere reassigning .null _ rfl
    cases hv
    exact hfound
  · obtain ⟨b, w, slot, v, m₁, m₂, m', hb, hw, -, hv, -, hfound, -⟩ :=
      hitem 10 (.ident "a" .nowhere) (.int 0 .nowhere) call .nowhere .nowhere reassigning .null _ rfl
    cases hb
    cases hw
    cases hv
    obtain ⟨i, hi, -, hfound⟩ := hfound 0 rfl
    cases hi
    exact hfound

end MonkeyLang
