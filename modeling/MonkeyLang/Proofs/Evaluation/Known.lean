import MonkeyLang.Proofs.Evaluation.Assignments
import MonkeyLang.Proofs.Evaluation.Guarded
import MonkeyLang.Proofs.Evaluation.Sessions

/-!
# No value leads nowhere

Arrays, hashes and functions are places in the store. A program does not make up places: it gets a
value from the store or makes something new. So whatever it holds leads to something that the store
has, and since nothing is ever taken away, this remains so. Hashes are filled entry by entry, each
under the key of its own key value, so that no key is ever filed twice.

As with the values of a region, the values are followed through tasks, results and signals. But
which values lead to something depends on how much has been made, and no region says that.

## Main definitions

* `Value.Known` : the values that lead to something that the store has.
* `Slot.Takes` : the pairs that belong into a slot.
* `Store.Sound` : a store with such values only, whose hashes file every pair under its own key.
* `Store.Arises` : the stores that evaluation comes to, with all programs one after the other.

## Main statements

* `Task.eval_sound`, `Moment.Reaches.sound` : evaluation keeps a store sound.
* `Store.Arises.sound` : all stores that arise are sound.
-/

namespace MonkeyLang

variable {α : Type} {o : Options} {s s' s'' : Store} {v : Value}

/-! ### Values that are known -/

/-- If the value leads to an array, a hash or a function, the store has it. -/
def Value.Known (s : Store) : Value → Prop
  | .array a => a < s.arrays.size
  | .hash h => h < s.hashes.size
  | .function c => c < s.closures.size
  | _ => True

/-- The store `s'` has at least as many arrays, hashes and functions as `s`. -/
structure Store.Within (s s' : Store) : Prop where
  arrays : s.arrays.size ≤ s'.arrays.size
  hashes : s.hashes.size ≤ s'.hashes.size
  closures : s.closures.size ≤ s'.closures.size

namespace Store.Within

theorem refl (s : Store) : s.Within s := ⟨Nat.le_refl _, Nat.le_refl _, Nat.le_refl _⟩

theorem trans (h : s.Within s') (h' : s'.Within s'') : s.Within s'' :=
  ⟨Nat.le_trans h.arrays h'.arrays, Nat.le_trans h.hashes h'.hashes,
    Nat.le_trans h.closures h'.closures⟩

theorem of_grows (h : s.Grows s') (h' : s.Extends s') : s.Within s' :=
  ⟨h.arrays, h.hashes, h'.closures⟩

theorem put (s : Store) (slot : Slot) (p : Pair) : s.Within (s.put slot p) :=
  .of_grows (.put s slot p) (by cases slot <;> exact { Store.Extends.refl s with })

theorem addArray (s : Store) (items : Array Value) : s.Within (s.addArray items).2 :=
  { refl s with arrays := by simp [Store.addArray] }

theorem addHash (s : Store) (d : Dict Key Pair) : s.Within (s.addHash d).2 :=
  { refl s with hashes := by simp [Store.addHash] }

theorem addClosure (s : Store) (c : Closure) : s.Within (s.addClosure c).2 :=
  { refl s with closures := by simp [Store.addClosure] }

end Store.Within

/-- What is known stays known. -/
theorem Value.Known.mono (h : v.Known s) (hs : s.Within s') : v.Known s' := by
  cases v with
  | array a => exact Nat.lt_of_lt_of_le h hs.arrays
  | hash a => exact Nat.lt_of_lt_of_le h hs.hashes
  | function c => exact Nat.lt_of_lt_of_le h hs.closures
  | _ => trivial

/-- Where there is no value, nothing has to be known. -/
theorem Value.known_none : ∀ v ∈ (none : Option Value), v.Known s :=
  fun v hv => absurd hv (Option.not_mem_none v)

theorem Value.known_getD {last : Option Value} (h : ∀ v ∈ last, v.Known s) :
    (last.getD .null).Known s := by
  cases last with
  | none => trivial
  | some v => exact h v rfl

theorem Value.known_of_isPlace_eq_false (h : v.isPlace = false) : v.Known s := by
  cases v with
  | array | hash | function => cases h
  | _ => trivial

/-! ### Sound stores -/

/-- A hash takes a pair only under the key of its key value. -/
def Slot.Takes (p : Pair) : Slot → Prop
  | .item _ _ => True
  | .entry _ k => p.key.key? = some k

/-- What is located with a key value takes the pairs with this key value. -/
theorem Slot.takes_of_locate {slot : Slot} {base place : Value} (h : s.locate base place = .ok slot)
    (v : Value) : slot.Takes ⟨place, v⟩ := by
  rcases Store.slot_of_locate h with ⟨a, i, -, rfl⟩ | ⟨a, k, -, hk, rfl⟩
  · trivial
  · exact hk

/-- The dictionary has one pair for a key at most. What is found under a key is a pair with this key,
and its value is known. -/
structure Dict.Proper (s : Store) (d : Dict Key Pair) : Prop where
  keys : d.keys.Nodup
  filed : ∀ k p, d.get? k = some p → p.key.key? = some k
  values : ∀ k p, d.get? k = some p → p.value.Known s

namespace Dict.Proper

variable {d : Dict Key Pair}

theorem empty (s : Store) : (Dict.empty : Dict Key Pair).Proper s :=
  ⟨List.nodup_nil, fun k p h => by simp at h, fun k p h => by simp at h⟩

/-- A pair is inserted under its own key. -/
theorem insert (h : d.Proper s) {k : Key} {p : Pair} (hk : p.key.key? = some k)
    (hp : p.value.Known s) : (d.insert k p).Proper s := by
  refine ⟨nodup_keys_insert d k p h.keys, fun k' q hq => ?_, fun k' q hq => ?_⟩
  · rcases get?_insert_eq_some hq with ⟨rfl, rfl⟩ | hq
    · exact hk
    · exact h.filed k' q hq
  · rcases get?_insert_eq_some hq with ⟨rfl, rfl⟩ | hq
    · exact hp
    · exact h.values k' q hq

theorem mono (h : d.Proper s) (hs : s.Within s') : d.Proper s' :=
  ⟨h.keys, h.filed, fun k p hp => (h.values k p hp).mono hs⟩

end Dict.Proper

/-- All that the store holds is known, and its hashes file every pair under its own key, with no two
under one key. -/
structure Store.Sound (s : Store) : Prop where
  bindings : ∀ f x v, (s.frame f).bindings.get? x = some v → v.Known s
  items : ∀ a, ∀ v ∈ s.array a, v.Known s
  hashes : ∀ h, (s.hash h).Proper s

namespace Store.Sound

theorem bind (h : s.Sound) (f : FrameId) (x : String) (hv : v.Known s) : (s.bind f x v).Sound where
  bindings g y w hw := by
    rcases get?_of_bind hw with rfl | hw
    · exact hv
    · exact h.bindings g y w hw
  items := h.items
  hashes i := (h.hashes i).mono { Within.refl s with }

theorem put (h : s.Sound) {slot : Slot} {p : Pair} (hslot : slot.Takes p)
    (hp : p.value.Known s) : (s.put slot p).Sound := by
  have hwithin := Store.Within.put s slot p
  have hframe (f : FrameId) : (s.put slot p).frame f = s.frame f := by cases slot <;> rfl
  refine ⟨fun f x w hw => ?_, fun a w hw => ?_, fun i => ?_⟩
  · rw [hframe] at hw
    exact (h.bindings f x w hw).mono hwithin
  · rcases mem_array_of_put hw with rfl | hw
    · exact hp.mono hwithin
    · exact (h.items a w hw).mono hwithin
  · cases slot with
    | item a j => exact (h.hashes i).mono hwithin
    | entry j k =>
      rw [hash_put_entry]
      split
      · exact ((h.hashes i).insert hslot hp).mono hwithin
      · exact (h.hashes i).mono hwithin

theorem addArray (h : s.Sound) {items : Array Value} (hitems : ∀ v ∈ items, v.Known s) :
    (s.addArray items).2.Sound := by
  have hwithin := Store.Within.addArray s items
  refine ⟨fun f x w hw => (h.bindings f x w hw).mono hwithin, fun a w hw => ?_,
    fun i => (h.hashes i).mono hwithin⟩
  simp only [Store.addArray, array, Array.getD_eq_getD_getElem?, Array.getElem?_push] at hw
  split at hw
  · exact (hitems w hw).mono hwithin
  · exact (h.items a w (by simpa [array] using hw)).mono hwithin

theorem addHash (h : s.Sound) {d : Dict Key Pair} (hd : d.Proper s) : (s.addHash d).2.Sound := by
  have hwithin := Store.Within.addHash s d
  refine ⟨fun f x w hw => (h.bindings f x w hw).mono hwithin,
    fun a w hw => (h.items a w hw).mono hwithin, fun i => ?_⟩
  have hi := (h.hashes i).mono hwithin
  simp only [Store.addHash, hash, Array.getD_eq_getD_getElem?, Array.getElem?_push] at hi ⊢
  split
  · exact hd.mono hwithin
  · exact hi

theorem addClosure (h : s.Sound) (c : Closure) : (s.addClosure c).2.Sound :=
  have hwithin := Store.Within.addClosure s c
  ⟨fun f x w hw => (h.bindings f x w hw).mono hwithin,
    fun a w hw => (h.items a w hw).mono hwithin, fun i => (h.hashes i).mono hwithin⟩

theorem addFrame (h : s.Sound) {fr : Frame} (hfr : ∀ x v, fr.bindings.get? x = some v → v.Known s) :
    (s.addFrame fr).2.Sound where
  bindings f x w hw := by
    simp only [Store.addFrame, frame, Array.getD_eq_getD_getElem?, Array.getElem?_push] at hw
    split at hw
    · exact hfr x w hw
    · exact h.bindings f x w (by simpa [frame] using hw)
  items := h.items
  hashes i := (h.hashes i).mono { Within.refl s with }

/-- What a name means is known. -/
theorem lookup (h : s.Sound) {f : FrameId} {x : String} (hv : s.lookup f x = some v) :
    v.Known s := by
  obtain ⟨g, -, hv⟩ := List.exists_of_findSome?_eq_some hv
  exact h.bindings g x v hv

/-- What stands in an array or in a hash is known. -/
theorem read (h : s.Sound) {base place : Value} (hv : s.read base place = .ok v) : v.Known s := by
  rcases mem_of_read hv with ⟨a, -, hmem⟩ | ⟨a, k, p, -, hfound, rfl⟩
  · exact h.items a v hmem
  · exact (h.hashes a).values k p hfound

end Store.Sound

/-! ### Values under way -/

/-- The value of a `return` is known. -/
def Signal.Known (s : Store) : Signal → Prop
  | .returned v => v.Known s
  | _ => True

namespace Task

/-- The values with which the task is begun are known. -/
def Given (s : Store) : Task → Prop
  | .entries _ d => d.Proper s
  | .stmts _ last | .loop _ _ _ last => ∀ v ∈ last, v.Known s
  | .apply f args => f.Known s ∧ ∀ v ∈ args, v.Known s
  | _ => True

/-- The values in the result of the task are known. -/
def Yields (s : Store) : (t : Task) → t.Result → Prop
  | .expr _, v | .assign _ _, v | .apply _ _, v => v.Known s
  | .exprs _, vs => ∀ v ∈ vs, v.Known s
  | .entries _ _, d => d.Proper s
  | .part _, w | .stmt _, w | .stmts _ _, w | .loop _ _ _ _, w => ∀ v ∈ w, v.Known s

/-- Whatever is evaluated, nothing is taken away. -/
theorem within_eval (o : Options) (n : Nat) (t : Task) (m : Machine) :
    (t.eval o n m).Leaves fun m' => m.store.Within m'.store := by
  have hgrows := t.grows o n m
  have hextends := t.eval_extends o n m
  cases hr : t.eval o n m with
  | done | signal =>
    rw [hr] at hgrows hextends
    exact .of_grows hgrows hextends
  | outOfFuel => trivial

end Task

/-- If the evaluation ended, it has left a sound store, and known values. -/
def Outcome.Sound (K : Store → α → Prop) : Outcome α → Prop
  | .done a m => m.store.Sound ∧ K m.store a
  | .signal s m => m.store.Sound ∧ s.Known m.store
  | .outOfFuel => True

namespace Outcome.Sound

variable {K : Store → α → Prop} {m : Machine}

theorem leaves {r : Outcome α} (h : r.Sound K) : r.Leaves fun m => m.store.Sound := by
  cases r with
  | done | signal => exact h.1
  | outOfFuel => trivial

theorem ofExcept {r : Except RuntimeError α} (h : m.store.Sound)
    (hK : ∀ a, r = .ok a → K m.store a) : (Outcome.ofExcept r m).Sound K := by
  cases r with
  | ok a => exact ⟨h, hK a rfl⟩
  | error e => exact ⟨h, trivial⟩

/-- A body leaves what its call does. -/
theorem leaveTo {r : Outcome (Option Value)} (h : r.Sound fun s last => ∀ v ∈ last, v.Known s)
    (caller : FrameId) : (r.leaveTo caller).Sound Value.Known := by
  cases r with
  | done v m => exact ⟨h.1, Value.known_getD h.2⟩
  | signal s m => cases s <;> exact h
  | outOfFuel => trivial

end Outcome.Sound

namespace Machine

variable {m : Machine}

theorem newArray_sound (h : m.store.Sound) {items : Array Value}
    (hitems : ∀ v ∈ items, v.Known m.store) : (m.newArray items).Sound Value.Known :=
  ⟨h.addArray hitems, by simp [Value.Known]⟩

/-- Built-in functions make arrays of what they get, and print. -/
theorem call_sound (h : m.store.Sound) (b : Builtin) {args : List Value}
    (hargs : ∀ v ∈ args, v.Known m.store) : (b.call args m).Sound Value.Known := by
  have printed (vs : List Value) {m : Machine} (h : m.store.Sound) :
      (vs.foldl (fun m v => m.print (m.store.render v)) m).store.Sound := by
    induction vs generalizing m with
    | nil => exact h
    | cons v vs ih => exact ih h
  unfold Builtin.call
  split
  · exact ⟨h, trivial⟩
  unfold Builtin.run
  split
  next => exact ⟨h, trivial⟩
  next => exact ⟨h, trivial⟩
  next => exact ⟨h, trivial⟩
  next a v vs _ =>
    refine newArray_sound h fun w hw => ?_
    rcases Array.mem_push.1 hw with hw | rfl
    · exact h.items a w hw
    · exact hargs w (by simp)
  next => exact ⟨h, trivial⟩
  next => exact ⟨printed args h, trivial⟩
  next => exact ⟨h, trivial⟩
  next => exact ⟨h, trivial⟩
  next => exact ⟨h, trivial⟩

theorem enter_sound (h : m.store.Sound) (c : Closure) {args : List Value}
    (hargs : ∀ v ∈ args, v.Known m.store) : (m.enter c args).store.Sound := by
  refine h.addFrame fun x v hv => ?_
  rcases Dict.get?_insertAll hv with hv | ⟨y, hy⟩
  · cases hv
  · exact hargs v (List.of_mem_zip hy).2

theorem assign_sound (h : m.store.Sound) (mode : AssignMode) (x : String) (hv : v.Known m.store) :
    (m.assign mode x v).store.Sound := by
  unfold assign
  split
  · exact h.bind m.frame x hv
  · split
    next f _ => exact h.bind f x hv
    next => exact h

end Machine

/-! ### Plans -/

namespace Plan

variable {K : Store → α → Prop}

/-- Wherever the plan begins something and where it ends, the store is sound and the values are
known, as long as what it begins leaves it so. -/
def Sound (K : Store → α → Prop) : Plan α → Prop
  | .finish r => r.Sound K
  | .after t m next => (m.store.Sound ∧ t.Given m.store) ∧ ∀ a m', m.store.Within m'.store →
      m'.store.Sound → t.Yields m'.store a → (next a m').Sound K
  | .body _ args m next => (m.store.Sound ∧ ∀ v ∈ args, v.Known m.store) ∧
      ∀ v m', m'.store.Sound → v.Known m'.store → (next v m').Sound K

namespace Sound

variable {rec : (t : Task) → Machine → Outcome t.Result} {p : Plan α}
  (hrec : ∀ t m, m.store.Sound → t.Given m.store → (rec t m).Sound fun s => t.Yields s)
include hrec

/-- The body of a function leaves a sound store and a known value to the caller. -/
theorem leaveTo_body (c : Closure) {args : List Value} {m : Machine} (hm : m.store.Sound)
    (hargs : ∀ v ∈ args, v.Known m.store) :
    ((rec c.task (m.enter c args)).leaveTo m.frame).Sound Value.Known :=
  (hrec c.task (m.enter c args) (Machine.enter_sound hm c hargs) Value.known_none).leaveTo m.frame

variable (hwithin : ∀ t m, (rec t m).Leaves fun m' => m.store.Within m'.store)
include hwithin

/-- A sound plan ends well if all that it begins does. -/
theorem run (hp : p.Sound K) : (p.run rec).Sound K := by
  induction p with
  | finish => exact hp
  | after t m next ih =>
    have ht := hrec t m hp.1.1 hp.1.2
    have hm := hwithin t m
    rw [Plan.run]
    cases hr : rec t m with
    | done a m' =>
      rw [hr] at ht hm
      exact ih a m' (hp.2 a m' hm ht.1 ht.2)
    | signal | outOfFuel =>
      rw [hr] at ht
      exact ht
  | body c args m next ih =>
    have ht := leaveTo_body hrec c hp.1.1 hp.1.2
    rw [Plan.run]
    cases hr : (rec c.task (m.enter c args)).leaveTo m.frame with
    | done v m' =>
      rw [hr] at ht
      exact ih v m' (hp.2 v m' ht.1 ht.2)
    | signal | outOfFuel =>
      rw [hr] at ht
      exact ht

/-- What a sound plan begins is begun in a sound store, with known values. -/
theorem begins (hp : p.Sound K) {j : Nat} {t : Task} {m : Machine} (h : p.Begins rec j t m) :
    m.store.Sound ∧ t.Given m.store := by
  induction h with
  | after => exact hp.1
  | @later t _ m m' _ a _ _ ends _ ih =>
    have ht := hrec t m hp.1.1 hp.1.2
    have hm := hwithin t m
    rw [ends] at ht hm
    exact ih (hp.2 a m' hm ht.1 ht.2)
  | @body c args m => exact ⟨Machine.enter_sound hp.1.1 c hp.1.2, Value.known_none⟩
  | @left c args _ m m' _ v _ _ ends _ ih =>
    have ht := leaveTo_body hrec c hp.1.1 hp.1.2
    rw [ends] at ht
    exact ih (hp.2 v m' ht.1 ht.2)

end Sound

end Plan

section

variable {m : Machine} (h : m.store.Sound)
include h

theorem Expr.plan_sound (e : Expr) : (e.plan m).Sound Value.Known := by
  cases e with
  | int | bool | str => exact ⟨h, trivial⟩
  | ident x =>
    rw [Expr.plan]
    split
    next v hv => exact ⟨h, h.lookup hv⟩
    next => split <;> exact ⟨h, trivial⟩
  | array items =>
    exact ⟨⟨h, trivial⟩, fun vs m' _ h' hvs =>
      Machine.newArray_sound h' fun v hv => hvs v (List.mem_toArray.1 hv)⟩
  | hash entries =>
    exact ⟨⟨h, .empty m.store⟩, fun d m' _ h' hd =>
      ⟨h'.addHash hd, by simp [Value.Known]⟩⟩
  | unary op e =>
    exact ⟨⟨h, trivial⟩, fun v m' _ h' _ => .ofExcept h' fun w hw =>
      Value.known_of_isPlace_eq_false (Value.isPlace_unary hw)⟩
  | binary op left right =>
    exact ⟨⟨h, trivial⟩, fun v m₁ _ h₁ _ => ⟨⟨h₁, trivial⟩, fun w m₂ _ h₂ _ =>
      .ofExcept h₂ fun u hu => Value.known_of_isPlace_eq_false (Value.isPlace_binary hu)⟩⟩
  | cond test thenBlock elseBlock =>
    have branch {m' : Machine} (h' : m'.store.Sound) (b : Block) :
        (Plan.after (.stmts b.statements none) m' fun v m =>
          .finish (.done (v.getD .null) m)).Sound Value.Known :=
      ⟨⟨h', Value.known_none⟩, fun v m'' _ h'' hv => ⟨h'', Value.known_getD hv⟩⟩
    refine ⟨⟨h, trivial⟩, fun v m' _ h' _ => ?_⟩
    dsimp only
    split
    · exact branch h' thenBlock
    · cases elseBlock with
      | none => exact ⟨h', trivial⟩
      | some b => exact branch h' b
  | function params body =>
    exact ⟨h.addClosure _, by simp [Value.Known]⟩
  | call callee args =>
    exact ⟨⟨h, trivial⟩, fun f m₁ _ h₁ hf => ⟨⟨h₁, trivial⟩, fun vs m₂ hm h₂ hvs =>
      ⟨⟨h₂, hf.mono hm, hvs⟩, fun v m₃ _ h₃ hv => ⟨h₃, hv⟩⟩⟩⟩
  | index base place =>
    exact ⟨⟨h, trivial⟩, fun v m₁ _ h₁ _ => ⟨⟨h₁, trivial⟩, fun w m₂ _ h₂ _ =>
      .ofExcept h₂ fun u hu => h₂.read hu⟩⟩
  | assign target value => exact ⟨⟨h, trivial⟩, fun v m' _ h' hv => ⟨h', hv⟩⟩

theorem Expr.assignPlan_sound (o : Options) (target value : Expr) :
    (Expr.assignPlan o target value m).Sound Value.Known := by
  cases target with
  | ident x =>
    rw [Expr.assignPlan]
    split
    · exact ⟨⟨h, trivial⟩, fun v m' _ h' hv => ⟨Machine.assign_sound h' o.assign x hv, trivial⟩⟩
    · exact ⟨h, trivial⟩
  | index base place =>
    refine ⟨⟨h, trivial⟩, fun v m₁ _ h₁ _ => ⟨⟨h₁, trivial⟩, fun w m₂ _ h₂ _ => ?_⟩⟩
    dsimp only
    split
    · exact ⟨h₂, trivial⟩
    next slot hslot =>
      exact ⟨⟨h₂, trivial⟩, fun u m₃ _ h₃ hu =>
        ⟨h₃.put (Slot.takes_of_locate hslot u) hu, trivial⟩⟩
  | _ => exact ⟨h, trivial⟩

theorem Stmt.plan_sound (s : Stmt) : (s.plan m).Sound fun s w => ∀ v ∈ w, v.Known s := by
  cases s with
  | letBind x value =>
    exact ⟨⟨h, trivial⟩, fun v m' _ h' hv => ⟨h'.bind m'.frame x hv, Value.known_none⟩⟩
  | ret value => exact ⟨⟨h, trivial⟩, fun v m' _ h' hv => ⟨h', hv⟩⟩
  | expr value => exact ⟨⟨h, trivial⟩, fun v m' _ h' hv => ⟨h', fun w hw => by cases hw; exact hv⟩⟩
  | forLoop init =>
    cases init with
    | none => exact ⟨⟨h, Value.known_none⟩, fun v m' _ h' hv => ⟨h', hv⟩⟩
    | some init =>
      exact ⟨⟨h, trivial⟩, fun _ m₁ _ h₁ _ =>
        ⟨⟨h₁, Value.known_none⟩, fun v m₂ _ h₂ hv => ⟨h₂, hv⟩⟩⟩

theorem Value.plan_sound (o : Options) (f : Value) {args : List Value}
    (hargs : ∀ v ∈ args, v.Known m.store) : (f.plan o args m).Sound Value.Known := by
  cases f with
  | function c =>
    rw [Value.plan]
    split
    · exact ⟨h, trivial⟩
    · split
      · exact ⟨h, trivial⟩
      · exact ⟨⟨h, hargs⟩, fun v m' h' hv => ⟨h', hv⟩⟩
  | builtin b => exact Machine.call_sound h b hargs
  | _ => exact ⟨h, trivial⟩

/-- The plan of every task keeps the store sound. -/
theorem Task.plan_sound (o : Options) {t : Task} (ht : t.Given m.store) :
    (t.plan o m).Sound fun s => t.Yields s := by
  cases t with
  | expr e => exact e.plan_sound h
  | exprs es =>
    cases es with
    | nil => exact ⟨h, fun v hv => absurd hv List.not_mem_nil⟩
    | cons e es =>
      exact ⟨⟨h, trivial⟩, fun v m₁ _ h₁ hv => ⟨⟨h₁, trivial⟩, fun vs m₂ hm h₂ hvs =>
        ⟨h₂, List.forall_mem_cons.2 ⟨hv.mono hm, hvs⟩⟩⟩⟩
  | entries es d =>
    cases es with
    | nil => exact ⟨h, ht⟩
    | cons entry es =>
      refine ⟨⟨h, trivial⟩, fun v m₁ hm₁ h₁ _ => ?_⟩
      dsimp only
      split
      · exact ⟨h₁, trivial⟩
      next k hk =>
        exact ⟨⟨h₁, trivial⟩, fun w m₂ hm₂ h₂ hw =>
          ⟨⟨h₂, (ht.mono (hm₁.trans hm₂)).insert hk hw⟩, fun d m₃ _ h₃ hd => ⟨h₃, hd⟩⟩⟩
  | part e =>
    cases e with
    | none => exact ⟨h, Value.known_none⟩
    | some e => exact ⟨⟨h, trivial⟩, fun v m' _ h' hv => ⟨h', fun w hw => by cases hw; exact hv⟩⟩
  | assign target value => exact Expr.assignPlan_sound h o target value
  | stmt s => exact s.plan_sound h
  | stmts ss last =>
    cases ss with
    | nil => exact ⟨h, ht⟩
    | cons s ss =>
      exact ⟨⟨h, trivial⟩, fun v m₁ _ h₁ hv => ⟨⟨h₁, hv⟩, fun v m₂ _ h₂ hv => ⟨h₂, hv⟩⟩⟩
  | loop test after body last =>
    refine ⟨⟨h, trivial⟩, fun v m₁ hm₁ h₁ _ => ?_⟩
    dsimp only
    split
    · exact ⟨⟨h₁, Value.known_none⟩, fun last m₂ _ h₂ hlast => ⟨⟨h₂, trivial⟩, fun _ m₃ hm₃ h₃ _ =>
        ⟨⟨h₃, fun w hw => (hlast w hw).mono hm₃⟩, fun v m₄ _ h₄ hv => ⟨h₄, hv⟩⟩⟩⟩
    · exact ⟨h₁, fun w hw => (ht w hw).mono hm₁⟩
  | apply f args => exact f.plan_sound h o ht.2

end

/-! ### Evaluation keeps stores sound -/

/-- Evaluation leaves a sound store and known values, if it is begun so. -/
theorem Task.eval_sound (o : Options) (n : Nat) (t : Task) {m : Machine} (h : m.store.Sound)
    (ht : t.Given m.store) : (t.eval o n m).Sound fun s => t.Yields s := by
  induction n generalizing t m with
  | zero =>
    rw [Task.eval_zero]
    trivial
  | succ n ih =>
    rw [Task.eval_succ]
    exact (Task.plan_sound h o ht).run (fun t m h ht => ih t h ht) (Task.within_eval o n)

/-- At every moment of an evaluation the store is sound and the values are known. -/
theorem Moment.Reaches.sound {a b : Moment} {k : Nat} (hr : a.Reaches o k b)
    (h : a.machine.store.Sound) (ha : a.task.Given a.machine.store) :
    b.machine.store.Sound ∧ b.task.Given b.machine.store := by
  induction hr with
  | refl => exact ⟨h, ha⟩
  | next first _ ih =>
    obtain ⟨hbegins⟩ := first
    obtain ⟨hm, ht⟩ := (Task.plan_sound h o ha).begins
      (fun t m h ht => Task.eval_sound o _ t h ht) (Task.within_eval o _) hbegins
    exact ih hm ht

/-! ### The stores that arise -/

/-- The stores at all moments and at the ends of all programs that are evaluated one after the
other, whatever was chosen for each of them. -/
inductive Store.Arises : Store → Prop where
  /-- The store before anything has been evaluated. -/
  | initial : Arises Machine.initial.store
  /-- The store at a moment of a program. -/
  | moment {o : Options} {fuel k : Nat} {p : Program} {m : Machine} {a : Moment} :
      Arises m.store → Moment.Reaches o ⟨fuel, .stmts p none, m⟩ k a → Arises a.machine.store
  /-- The store that a program leaves, however it ends. -/
  | left {o : Options} {fuel : Nat} {p : Program} {m m' : Machine} {ending : Ending} :
      Arises m.store → Program.eval o fuel p m = some (ending, m') → Arises m'.store

/-- All stores that arise are sound. -/
theorem Store.Arises.sound (h : s.Arises) : s.Sound := by
  induction h with
  | initial =>
    have hframe (f : FrameId) : Machine.initial.store.frame f = {} := by
      cases f <;> simp [Machine.initial, frame]
    refine ⟨fun f x v hv => ?_, fun a v hv => ?_, fun h => ?_⟩
    · rw [hframe] at hv
      cases hv
    · simp [Machine.initial, array] at hv
    · exact .empty _
  | moment _ hr ih => exact (hr.sound ih Value.known_none).1
  | @left o fuel p m _ _ _ heval ih =>
    have hsound := Task.eval_sound o fuel (.stmts p none) ih Value.known_none
    exact Program.leaves_of_eval hsound.leaves heval

end MonkeyLang
