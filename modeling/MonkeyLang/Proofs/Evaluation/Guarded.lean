import MonkeyLang.Proofs.Evaluation.Invariant
import MonkeyLang.Proofs.Evaluation.Reachable

/-!
# Invariants of what can be reached

An invariant that speaks of the functions of a program has to know which functions can be called at
all. So here the values are followed, too: those that a task is begun with, those that it results in
and those that a signal carries are all in a region that is tame, and so is everything that is put
into the store.

What has to be known of such an invariant is collected in `Guard`. It may depend on the moment, not
only on the task, and of the functions that are called it may assume that they are in the region.

## Main definitions

* `Store.Extends` : what all changes of a store keep of frames and functions.
* `Guard` : an invariant, given that evaluation stays in a region.

## Main statements

* `Guard.brings`, `Guard.begins`, `Guard.reaches` : it holds when an evaluation ends and at every
  moment that it comes to.
-/

namespace MonkeyLang

variable {α : Type} {o : Options}

/-! ### Frames and functions stay -/

/-- The store `s'` has the frames of `s`, inside the same frames, and the functions of `s`. -/
structure Store.Extends (s s' : Store) : Prop where
  frames : s.frames.size ≤ s'.frames.size
  outer : ∀ f < s.frames.size, (s'.frame f).outer = (s.frame f).outer
  closures : s.closures.size ≤ s'.closures.size
  closure : ∀ c < s.closures.size, s'.closure c = s.closure c

namespace Store.Extends

variable {s s' s'' : Store}

theorem refl (s : Store) : s.Extends s where
  frames := Nat.le_refl _
  outer _ _ := rfl
  closures := Nat.le_refl _
  closure _ _ := rfl

theorem trans (h : s.Extends s') (h' : s'.Extends s'') : s.Extends s'' where
  frames := Nat.le_trans h.frames h'.frames
  outer f hf := (h'.outer f (Nat.lt_of_lt_of_le hf h.frames)).trans (h.outer f hf)
  closures := Nat.le_trans h.closures h'.closures
  closure c hc := (h'.closure c (Nat.lt_of_lt_of_le hc h.closures)).trans (h.closure c hc)

theorem bind (s : Store) (f : FrameId) (x : String) (v : Value) : s.Extends (s.bind f x v) :=
  { refl s with
    frames := by simp [Store.bind]
    outer := fun g _ => outer_bind s f x v g }

theorem addFrame (s : Store) (fr : Frame) : s.Extends (s.addFrame fr).2 :=
  { refl s with
    frames := by simp [Store.addFrame]
    outer := fun f hf => by
      simp [Store.addFrame, Store.frame, Array.getElem?_push, Nat.ne_of_lt hf] }

theorem addClosure (s : Store) (c : Closure) : s.Extends (s.addClosure c).2 :=
  { refl s with
    closures := by simp [Store.addClosure]
    closure := fun d hd => by
      simp [Store.addClosure, Store.closure, Array.getElem?_push, Nat.ne_of_lt hd] }

/-- A frame has as many frames around it as before. -/
theorem depth_eq (h : s.Extends s') {f : FrameId} (hf : f < s.frames.size) :
    s'.depth f = s.depth f := by
  rw [Store.depth, Store.depth, Store.chain, Store.chain, h.outer f hf]

end Store.Extends

/-- Evaluation keeps frames and functions. -/
theorem kept_extends (o : Options) : Kept o fun m m' => m.store.Extends m'.store where
  refl m := .refl m.store
  trans h h' := h.trans h'
  bind m x v := .bind m.store m.frame x v
  assign m x v := by
    unfold Machine.assign
    split
    · exact .bind m.store m.frame x v
    · split
      next f _ => exact .bind m.store f x v
      next => exact .refl m.store
  put m slot p := by
    cases slot <;> exact { Store.Extends.refl m.store with }
  newArray m _ := { Store.Extends.refl m.store with }
  newHash m _ := { Store.Extends.refl m.store with }
  newFunction m c := .addClosure m.store c
  print m _ := .refl m.store
  call m _ _ _ _ h := (Store.Extends.addFrame m.store _).trans h

/-- Every task keeps frames and functions. -/
theorem Task.eval_extends (o : Options) (n : Nat) (t : Task) (m : Machine) :
    (t.eval o n m).Leaves fun m' => m.store.Extends m'.store := by
  have h := (kept_extends o).keptIn n
  cases t with
  | expr e => exact h.expr e m
  | exprs es => exact h.exprs es m
  | entries es d => exact h.entries es d m
  | part e => exact h.part e m
  | assign target value => exact h.assign target value m
  | stmt s => exact h.stmt s m
  | stmts ss last => exact h.stmts ss last m
  | loop test after body last => exact h.loop test after body last m
  | apply f args => exact h.apply f args m

/-! ### Values that are in a region -/

variable {R : Region} {P I : Machine → Prop}

/-- The value of a `return` is in the region. -/
def Signal.In (R : Region) (s : Store) : Signal → Prop
  | .returned v => v.In R s
  | _ => True

namespace Task

/-- The values with which the task is begun are in the region. -/
def In (R : Region) (s : Store) : Task → Prop
  | .entries _ d => ∀ k p, d.get? k = some p → p.value.In R s
  | .stmts _ last | .loop _ _ _ last => ∀ v ∈ last, v.In R s
  | .apply f args => f.In R s ∧ ∀ v ∈ args, v.In R s
  | _ => True

/-- The values in the result of the task are in the region. -/
def Answers (R : Region) (s : Store) : (t : Task) → t.Result → Prop
  | .expr _, v | .assign _ _, v | .apply _ _, v => v.In R s
  | .exprs _, vs => ∀ v ∈ vs, v.In R s
  | .entries _ _, d => ∀ k p, d.get? k = some p → p.value.In R s
  | .part _, w | .stmt _, w | .stmts _ _, w | .loop _ _ _ _, w => ∀ v ∈ w, v.In R s

end Task

/-- If the evaluation ended, it has left a machine with the property `P` and values of the
region. -/
def Outcome.Brings (R : Region) (P : Machine → Prop) (K : Store → α → Prop) : Outcome α → Prop
  | .done a m => P m ∧ K m.store a
  | .signal s m => P m ∧ s.In R m.store
  | .outOfFuel => True

namespace Outcome.Brings

variable {K : Store → α → Prop}

theorem leaves {r : Outcome α} (h : r.Brings R P K) : r.Leaves P := by
  cases r with
  | done | signal => exact h.1
  | outOfFuel => trivial

theorem fail {e : RuntimeError} {m : Machine} (h : P m) :
    (Outcome.fail e m : Outcome α).Brings R P K := ⟨h, trivial⟩

theorem ofExcept {r : Except RuntimeError α} {m : Machine} (h : P m)
    (hK : ∀ a, r = .ok a → K m.store a) : (Outcome.ofExcept r m).Brings R P K := by
  cases r with
  | ok a => exact ⟨h, hK a rfl⟩
  | error e => exact ⟨h, trivial⟩

end Outcome.Brings

/-- Evaluation goes on inside the region, and `I` holds. -/
structure Machine.Guarded (R : Region) (I : Machine → Prop) (m : Machine) : Prop where
  tame : m.store.Tame R
  home : R.home m.frame
  holds : I m

/-- In the machine `m` the function `c` of the region is called with the arguments `args`. -/
structure Machine.Calls (o : Options) (R : Region) (m : Machine) (c : ClosureId)
    (args : List Value) : Prop where
  known : (Value.function c).In R m.store
  argsIn : ∀ v ∈ args, v.In R m.store
  arity : (m.store.closure c).params.length = args.length
  allowed : o.forbids m.depth = none

namespace Machine.Guarded

variable {m : Machine}

theorem lookup (h : m.Guarded R I) {x : String} {v : Value} (hv : m.lookup x = some v) :
    v.In R m.store :=
  h.tame.lookup h.home hv

section

variable (hI : Stable o I) (h : m.Guarded R I)
include hI h

theorem bind (x : String) {v : Value} (hv : v.In R m.store) : (m.bind x v).Guarded R I :=
  ⟨h.tame.bind m.frame x hv, h.home, hI.bind m x v h.holds⟩

theorem assign (x : String) {v : Value} (hv : v.In R m.store) :
    (m.assign o.assign x v).Guarded R I := by
  refine ⟨?_, ?_, hI.assign m x v h.holds⟩
  all_goals
    unfold Machine.assign
    split
  · exact h.tame.bind m.frame x hv
  · split
    next f _ => exact h.tame.bind f x hv
    next => exact h.tame
  · exact h.home
  · split <;> exact h.home

theorem put (slot : Slot) {p : Pair} (hp : p.value.In R m.store) : (m.put slot p).Guarded R I :=
  ⟨h.tame.put slot hp, h.home, hI.put m slot p h.holds⟩

theorem print (line : String) : (m.print line).Guarded R I :=
  ⟨h.tame, h.home, hI.print m line h.holds⟩

theorem newArray {items : Array Value} (hitems : ∀ v ∈ items, v.In R m.store) :
    (m.newArray items).Brings R (Guarded R I) (Value.In R) :=
  ⟨⟨h.tame.addArray hitems, h.home, hI.newArray m items h.holds⟩,
    h.tame.newArray _ (Nat.le_refl _)⟩

theorem newHash {d : Dict Key Pair} (hd : ∀ k p, d.get? k = some p → p.value.In R m.store) :
    (m.newHash d).Brings R (Guarded R I) (Value.In R) :=
  ⟨⟨h.tame.addHash hd, h.home, hI.newHash m d h.holds⟩, h.tame.newHash _ (Nat.le_refl _)⟩

/-- Built-in functions make arrays of what they get, and print. -/
theorem builtin (b : Builtin) {args : List Value} (hargs : ∀ v ∈ args, v.In R m.store) :
    (b.call args m).Brings R (Guarded R I) (Value.In R) := by
  have printed (vs : List Value) {m : Machine} (h : m.Guarded R I) :
      (vs.foldl (fun m v => m.print (m.store.render v)) m).Guarded R I := by
    induction vs generalizing m with
    | nil => exact h
    | cons v vs ih => exact ih (h.print hI _)
  unfold Builtin.call
  split
  · exact .fail h
  unfold Builtin.run
  split
  next => exact ⟨h, trivial⟩
  next => exact ⟨h, trivial⟩
  next => exact .fail h
  next a v vs _ =>
    refine newArray hI h fun w hw => ?_
    rcases Array.mem_push.1 hw with hw | rfl
    · exact h.tame.items a w (hargs (.array a) (by simp)) hw
    · exact hargs w (by simp)
  next => exact .fail h
  next => exact ⟨printed args h, trivial⟩
  next => exact ⟨h, trivial⟩
  next => exact ⟨h, trivial⟩
  next => exact ⟨h, trivial⟩

end

/-- Entering a function of the region. -/
theorem enter {c : ClosureId} {args : List Value} (h : m.Guarded R I) (hcall : m.Calls o R c args)
    {J : Machine → Prop} (hJ : J (m.enter (m.store.closure c) args)) :
    (m.enter (m.store.closure c) args).Guarded R J := by
  refine ⟨h.tame.addFrame (fun g hg => ?_) fun x v hv => ?_, h.tame.newFrame _ (Nat.le_refl _), hJ⟩
  · exact h.tame.chains _ (h.tame.captured c hcall.known.1 hcall.known.2) g hg
  · rcases Dict.get?_insertAll hv with hv | ⟨y, hy⟩
    · cases hv
    · exact hcall.argsIn v (List.of_mem_zip hy).2

theorem newFunction (h : m.Guarded R I) {params : List String} {body : Block}
    (hfun : I { m with store := (m.store.addClosure ⟨params, body, m.frame⟩).2 }) :
    (m.newFunction params body).Brings R (Guarded R I) (Value.In R) :=
  ⟨⟨h.tame.addClosure h.home, h.home, hfun⟩, h.tame.newClosure _ (Nat.le_refl _), by simp⟩

end Machine.Guarded

/-! ### Plans -/

namespace Plan

variable {C : ClosureId → List Value → Machine → Prop} {K : Store → α → Prop}

/-- The plan goes on inside the region. The property `P` holds wherever it begins something and
where it ends, as long as what it begins keeps it; the calls that it makes are those that `C`
tells. -/
def Careful (o : Options) (R : Region) (P : Machine → Prop)
    (C : ClosureId → List Value → Machine → Prop) (K : Store → α → Prop) : Plan α → Prop
  | .finish r => r.Brings R P K
  | .after t m next => (P m ∧ t.In R m.store) ∧ ∀ a m', m.store.Extends m'.store → P m' →
      t.Answers R m'.store a → (next a m').Careful o R P C K
  | .body c args m next =>
    (P m ∧ ∃ id, c = m.store.closure id ∧ C id args m ∧ m.Calls o R id args) ∧
      ∀ v m', m.store.Extends m'.store → P m' → v.In R m'.store → (next v m').Careful o R P C K

section

variable {rec : (t : Task) → Machine → Outcome t.Result}
  (hextends : ∀ t m, (rec t m).Leaves fun m' => m.store.Extends m'.store)
include hextends

theorem extends_of_body {c : Closure} {args : List Value} {m m' : Machine} {v : Value}
    (h : (rec c.task (m.enter c args)).leaveTo m.frame = .done v m') :
    m.store.Extends m'.store := by
  have hleaves : ((rec c.task (m.enter c args)).leaveTo m.frame).Leaves
      fun m' => m.store.Extends m'.store :=
    Outcome.Leaves.leaveTo ((hextends _ _).mono fun m' h' =>
      (Store.Extends.addFrame m.store _).trans h')
  rwa [h] at hleaves

variable {p : Plan α}

/-- A careful plan ends well if all that it begins does. -/
theorem Careful.brings (hp : p.Careful o R P C K)
    (hrec : ∀ t m, p.Begins rec 0 t m → P m → t.In R m.store →
      (rec t m).Brings R P (t.Answers R))
    (hbody : ∀ c args m, C c args m → P m → m.Calls o R c args →
      ((rec (m.store.closure c).task (m.enter (m.store.closure c) args)).leaveTo m.frame).Brings R P
        (Value.In R)) :
    (p.run rec).Brings R P K := by
  induction p with
  | finish => exact hp
  | after t m next ih =>
    have ht := hrec t m .after hp.1.1 hp.1.2
    have hm := hextends t m
    rw [run]
    cases hr : rec t m with
    | done a m' =>
      rw [hr] at ht hm
      exact ih a m' (hp.2 a m' hm ht.1 ht.2) fun t' m'' hb => hrec t' m'' (.later hr hb)
    | signal | outOfFuel =>
      rw [hr] at ht
      exact ht
  | body c args m next ih =>
    obtain ⟨⟨hm, id, rfl, hC, hcall⟩, hnext⟩ := hp
    have ht := hbody id args m hC hm hcall
    rw [run]
    cases hr : (rec (m.store.closure id).task (m.enter (m.store.closure id) args)).leaveTo
        m.frame with
    | done v m' =>
      rw [hr] at ht
      exact ih v m' (hnext v m' (extends_of_body hextends hr) ht.1 ht.2)
        fun t' m'' hb => hrec t' m'' (.left hr hb)
    | signal | outOfFuel =>
      rw [hr] at ht
      exact ht

/-- What a careful plan begins is one of its tasks or the body of a function. -/
theorem Careful.begins {j : Nat} {t : Task} {m : Machine} (hp : p.Careful o R P C K)
    (hrec : ∀ t m, p.Begins rec 0 t m → P m → t.In R m.store →
      (rec t m).Brings R P (t.Answers R))
    (hbody : ∀ c args m, C c args m → P m → m.Calls o R c args →
      ((rec (m.store.closure c).task (m.enter (m.store.closure c) args)).leaveTo m.frame).Brings R P
        (Value.In R))
    (h : p.Begins rec j t m) :
    (j = 0 ∧ P m ∧ t.In R m.store) ∨
      ∃ c args m₀, j = 1 ∧ t = (m₀.store.closure c).task ∧
        m = m₀.enter (m₀.store.closure c) args ∧ C c args m₀ ∧ P m₀ ∧ m₀.Calls o R c args := by
  induction h with
  | after => exact .inl ⟨rfl, hp.1⟩
  | @later t _ m m' _ a _ _ ends begins ih =>
    have ht := hrec t m .after hp.1.1 hp.1.2
    have hm := hextends t m
    rw [ends] at ht hm
    exact ih (hp.2 a m' hm ht.1 ht.2) fun t' m'' hb => hrec t' m'' (.later ends hb)
  | @body c args m =>
    obtain ⟨⟨hm, id, rfl, hC, hcall⟩, -⟩ := hp
    exact .inr ⟨id, args, m, rfl, rfl, rfl, hC, hm, hcall⟩
  | @left c args _ m m' _ v _ _ ends begins ih =>
    obtain ⟨⟨hm, id, rfl, hC, hcall⟩, hnext⟩ := hp
    have ht := hbody id args m hC hm hcall
    rw [ends] at ht
    exact ih (hnext v m' (extends_of_body hextends ends) ht.1 ht.2)
      fun t' m'' hb => hrec t' m'' (.left ends hb)

end

end Plan

/-! ### The plans of the tasks -/

section

variable {s : Store}

/-- The value is not its own content but a place in the store. -/
def Value.isPlace : Value → Bool
  | .array _ | .hash _ | .function _ => true
  | _ => false

/-- Operators make no places. -/
theorem Value.isPlace_unary {v w : Value} {op : UnaryOp} (h : v.unary op = .ok w) :
    w.isPlace = false := by
  unfold Value.unary at h
  split at h <;> cases h <;> rfl

theorem Value.isPlace_binary {v w u : Value} {op : BinaryOp} (h : Value.binary op v w = .ok u) :
    u.isPlace = false := by
  unfold Value.binary at h
  split at h
  · unfold Value.integerBinary at h
    split at h <;> first | (cases h; rfl) | (split at h <;> cases h; rfl)
  · split at h <;> cases h
    rfl
  · split at h
    · cases h
      rfl
    · cases h
      rfl
    · split at h <;> cases h

theorem Value.in_of_isPlace_eq_false {v : Value} (h : v.isPlace = false) : v.In R s := by
  cases v with
  | array | hash | function => cases h
  | _ => trivial

/-- A slot that is located is one of the array, or the entry of the hash under the key. -/
theorem Store.slot_of_locate {base place : Value} {slot : Slot}
    (h : s.locate base place = .ok slot) :
    (∃ a i, base = .array a ∧ slot = .item a i) ∨
      ∃ a k, base = .hash a ∧ place.key? = some k ∧ slot = .entry a k := by
  cases base with
  | array a =>
    cases place with
    | int i =>
      rw [locate, itemAt?] at h
      split at h
      next slot' hslot =>
        cases h
        split at hslot <;> cases hslot
        exact .inl ⟨a, _, rfl, rfl⟩
      · cases h
    | _ => cases h
  | hash a =>
    rw [locate] at h
    split at h
    next k hk =>
      cases h
      exact .inr ⟨a, k, rfl, hk, rfl⟩
    · cases h
  | _ => cases h

/-- What is read stands in an array or in a hash. -/
theorem Store.mem_of_read {base place v : Value} (h : s.read base place = .ok v) :
    (∃ a, base = .array a ∧ v ∈ s.array a) ∨
      ∃ a k p, base = .hash a ∧ (s.hash a).get? k = some p ∧ p.value = v := by
  unfold read at h
  split at h
  · cases h
  next slot hslot =>
    split at h
    next w hw =>
      cases h
      rcases slot_of_locate hslot with ⟨a, i, rfl, rfl⟩ | ⟨a, k, rfl, -, rfl⟩
      · exact .inl ⟨a, rfl, Array.mem_of_getElem? hw⟩
      · obtain ⟨p, hp, hvalue⟩ := Option.map_eq_some_iff.1 hw
        exact .inr ⟨a, k, p, rfl, hp, hvalue⟩
    · cases h

/-- What stands in an array or a hash of the region is in the region. -/
theorem Store.Tame.read (h : s.Tame R) {base place v : Value} (hbase : base.In R s)
    (hv : s.read base place = .ok v) : v.In R s := by
  rcases mem_of_read hv with ⟨a, rfl, hmem⟩ | ⟨a, k, p, rfl, hfound, rfl⟩
  · exact h.items a v hbase hmem
  · exact h.entries a k p hbase hfound

theorem Value.getD_in {last : Option Value} (h : ∀ v ∈ last, v.In R s) :
    (last.getD .null).In R s := by
  cases last with
  | none => trivial
  | some v => exact h v rfl

end

namespace Machine.Guarded

variable {m : Machine} {C : ClosureId → List Value → Machine → Prop} (hI : Stable o I)
  (h : m.Guarded R I)
include hI h

theorem exprPlan (e : Expr)
    (hfun : ∀ params body bare span, e = .function params body bare span →
      I { m with store := (m.store.addClosure ⟨params, body, m.frame⟩).2 }) :
    (e.plan m).Careful o R (Guarded R I) C (Value.In R) := by
  cases e with
  | int | bool | str => exact ⟨h, trivial⟩
  | ident x =>
    rw [Expr.plan]
    split
    next v hv => exact ⟨h, h.lookup hv⟩
    next => split <;> exact ⟨h, trivial⟩
  | array items =>
    exact ⟨⟨h, trivial⟩, fun vs m' _ h' hvs =>
      newArray hI h' fun v hv => hvs v (List.mem_toArray.1 hv)⟩
  | hash entries =>
    exact ⟨⟨h, fun k p hp => by simp at hp⟩, fun d m' _ h' hd => newHash hI h' hd⟩
  | unary op e =>
    exact ⟨⟨h, trivial⟩, fun v m' _ h' _ => .ofExcept h' fun w hw =>
      Value.in_of_isPlace_eq_false (Value.isPlace_unary hw)⟩
  | binary op left right =>
    exact ⟨⟨h, trivial⟩, fun v m₁ _ h₁ _ => ⟨⟨h₁, trivial⟩, fun w m₂ _ h₂ _ =>
      .ofExcept h₂ fun u hu => Value.in_of_isPlace_eq_false (Value.isPlace_binary hu)⟩⟩
  | cond test thenBlock elseBlock =>
    have branch {m' : Machine} (h' : m'.Guarded R I) (b : Block) :
        (Plan.after (.stmts b.statements none) m' fun v m =>
          .finish (.done (v.getD .null) m)).Careful o R (Guarded R I) C (Value.In R) :=
      ⟨⟨h', fun v hv => absurd hv (Option.not_mem_none v)⟩,
        fun v m'' _ h'' hv => ⟨h'', Value.getD_in hv⟩⟩
    refine ⟨⟨h, trivial⟩, fun v m' _ h' _ => ?_⟩
    dsimp only
    split
    · exact branch h' thenBlock
    · cases elseBlock with
      | none => exact ⟨h', trivial⟩
      | some b => exact branch h' b
  | function params body bare span => exact h.newFunction (hfun params body bare span rfl)
  | call callee args =>
    exact ⟨⟨h, trivial⟩, fun f m₁ _ h₁ hf => ⟨⟨h₁, trivial⟩, fun vs m₂ hm h₂ hvs =>
      ⟨⟨h₂, hf.mono hm.closures, hvs⟩, fun v m₃ _ h₃ hv => ⟨h₃, hv⟩⟩⟩⟩
  | index base place =>
    exact ⟨⟨h, trivial⟩, fun v m₁ _ h₁ hv => ⟨⟨h₁, trivial⟩, fun w m₂ hm h₂ _ =>
      .ofExcept h₂ fun u hu => h₂.tame.read (hv.mono hm.closures) hu⟩⟩
  | assign target value => exact ⟨⟨h, trivial⟩, fun v m' _ h' hv => ⟨h', hv⟩⟩

theorem assignPlan (target value : Expr) :
    (Expr.assignPlan o target value m).Careful o R (Guarded R I) C (Value.In R) := by
  cases target with
  | ident x =>
    rw [Expr.assignPlan]
    split
    · exact ⟨⟨h, trivial⟩, fun v m' _ h' hv => ⟨assign hI h' x hv, trivial⟩⟩
    · exact ⟨h, trivial⟩
  | index base place =>
    refine ⟨⟨h, trivial⟩, fun v m₁ _ h₁ _ => ⟨⟨h₁, trivial⟩, fun w m₂ _ h₂ _ => ?_⟩⟩
    dsimp only
    split
    · exact ⟨h₂, trivial⟩
    next slot _ =>
      exact ⟨⟨h₂, trivial⟩, fun u m₃ _ h₃ hu => ⟨put hI h₃ slot hu, trivial⟩⟩
  | _ => exact ⟨h, trivial⟩

theorem stmtPlan (s : Stmt) :
    (s.plan m).Careful o R (Guarded R I) C ((Task.stmt s).Answers R) := by
  cases s with
  | letBind x value => exact ⟨⟨h, trivial⟩, fun v m' _ h' hv => ⟨bind hI h' x hv, nofun⟩⟩
  | ret value => exact ⟨⟨h, trivial⟩, fun v m' _ h' hv => ⟨h', hv⟩⟩
  | expr value =>
    exact ⟨⟨h, trivial⟩, fun v m' _ h' hv => ⟨h', fun w hw => by cases hw; exact hv⟩⟩
  | forLoop init =>
    cases init with
    | none => exact ⟨⟨h, nofun⟩, fun v m' _ h' hv => ⟨h', hv⟩⟩
    | some init =>
      exact ⟨⟨h, trivial⟩, fun _ m₁ _ h₁ _ => ⟨⟨h₁, nofun⟩, fun v m₂ _ h₂ hv => ⟨h₂, hv⟩⟩⟩

theorem callPlan {f : Value} {args : List Value} (hf : f.In R m.store)
    (hargs : ∀ v ∈ args, v.In R m.store) (hC : ∀ c, f = .function c → C c args m) :
    (f.plan o args m).Careful o R (Guarded R I) C (Value.In R) := by
  cases f with
  | function c =>
    rw [Value.plan]
    split
    · exact ⟨h, trivial⟩
    next arity =>
      split
      · exact ⟨h, trivial⟩
      next allowed =>
        exact ⟨⟨h, c, rfl, hC c rfl, hf, hargs, Decidable.not_not.1 arity, allowed⟩,
          fun v m' _ h' hv => ⟨h', hv⟩⟩
  | builtin b => exact builtin hI h b hargs
  | _ => exact ⟨h, trivial⟩

/-- The plan of every task is careful, if the function that it may make keeps the property. It calls
the function that it is a call of. -/
theorem plan {t : Task} (ht : t.In R m.store)
    (hfun : ∀ params body bare span, t = .expr (.function params body bare span) →
      I { m with store := (m.store.addClosure ⟨params, body, m.frame⟩).2 })
    (hC : ∀ c args, t = .apply (.function c) args → C c args m) :
    (t.plan o m).Careful o R (Guarded R I) C (t.Answers R) := by
  cases t with
  | expr e =>
    exact exprPlan hI h e fun params body bare span he => hfun params body bare span (he ▸ rfl)
  | exprs es =>
    cases es with
    | nil => exact ⟨h, nofun⟩
    | cons e es =>
      exact ⟨⟨h, trivial⟩, fun v m₁ _ h₁ hv => ⟨⟨h₁, trivial⟩, fun vs m₂ hm h₂ hvs =>
        ⟨h₂, List.forall_mem_cons.2 ⟨hv.mono hm.closures, hvs⟩⟩⟩⟩
  | entries es d =>
    cases es with
    | nil => exact ⟨h, ht⟩
    | cons entry es =>
      refine ⟨⟨h, trivial⟩, fun v m₁ hm₁ h₁ _ => ?_⟩
      dsimp only
      split
      · exact ⟨h₁, trivial⟩
      next k _ =>
        refine ⟨⟨h₁, trivial⟩, fun w m₂ hm₂ h₂ hw => ⟨⟨h₂, fun k' p hp => ?_⟩, fun d m₃ _ h₃ hd =>
          ⟨h₃, hd⟩⟩⟩
        rcases Dict.get?_insert_eq_some hp with ⟨-, rfl⟩ | hp
        · exact hw
        · exact (ht k' p hp).mono (Nat.le_trans hm₁.closures hm₂.closures)
  | part e =>
    cases e with
    | none => exact ⟨h, nofun⟩
    | some e => exact ⟨⟨h, trivial⟩, fun v m' _ h' hv => ⟨h', fun w hw => by cases hw; exact hv⟩⟩
  | assign target value => exact assignPlan hI h target value
  | stmt s => exact stmtPlan hI h s
  | stmts ss last =>
    cases ss with
    | nil => exact ⟨h, ht⟩
    | cons s ss =>
      exact ⟨⟨h, trivial⟩, fun v m₁ _ h₁ hv => ⟨⟨h₁, hv⟩, fun v m₂ _ h₂ hv => ⟨h₂, hv⟩⟩⟩
  | loop test after body last =>
    refine ⟨⟨h, trivial⟩, fun v m₁ hm₁ h₁ _ => ?_⟩
    dsimp only
    split
    · exact ⟨⟨h₁, nofun⟩, fun last m₂ _ h₂ hlast => ⟨⟨h₂, trivial⟩, fun _ m₃ hm₃ h₃ _ =>
        ⟨⟨h₃, fun w hw => (hlast w hw).mono hm₃.closures⟩, fun v m₄ _ h₄ hv => ⟨h₄, hv⟩⟩⟩⟩
    · exact ⟨h₁, fun w hw => (ht w hw).mono hm₁.closures⟩
  | apply f args => exact callPlan hI h ht.1 ht.2 fun c hc => hC c args (hc ▸ rfl)

end Machine.Guarded

/-! ### Guards -/

/-- An invariant of evaluation under the given options inside the region `R`. The indices tell apart
the places to which a moment may belong. -/
structure Guard {ι : Type} (o : Options) (R : Region) (Fits : ι → Moment → Prop)
    (Holds : ι → Machine → Prop) : Prop where
  stable : ∀ i, Stable o (Holds i)
  within : ∀ i a b, Fits i a → a.Begins o 0 b → Fits i b
  function : ∀ i n params body bare span m,
    Fits i ⟨n + 1, .expr (.function params body bare span), m⟩ → Holds i m →
      Holds i { m with store := (m.store.addClosure ⟨params, body, m.frame⟩).2 }
  call : ∀ i n c args m, Fits i ⟨n + 1, .apply (.function c) args, m⟩ → Holds i m →
    m.Calls o R c args →
      ∃ j, Fits j ⟨n, (m.store.closure c).task, m.enter (m.store.closure c) args⟩ ∧
      Holds j (m.enter (m.store.closure c) args) ∧
      ∀ m', m.store.Extends m'.store → Holds j m' → Holds i (m'.leave m.frame)

/-- The invariant with the index `i` holds at the moment. -/
structure Moment.Guarded {ι : Type} (R : Region) (Fits : ι → Moment → Prop)
    (Holds : ι → Machine → Prop) (i : ι) (a : Moment) : Prop where
  fits : Fits i a
  machine : a.machine.Guarded R (Holds i)
  values : a.task.In R a.machine.store

/-- A `return` and the end of a body leave a value of the region. -/
theorem Outcome.Brings.leaveTo {Q : Machine → Prop} {r : Outcome (Option Value)} {caller : FrameId}
    (h : r.Brings R P fun s last => ∀ v ∈ last, v.In R s)
    (hback : r.Leaves fun m => P m → Q (m.leave caller)) :
    (r.leaveTo caller).Brings R Q (Value.In R) := by
  cases r with
  | done v m => exact ⟨hback h.1, Value.getD_in h.2⟩
  | signal s m =>
    cases s with
    | returned v => exact ⟨hback h.1, h.2⟩
    | failed | exited => exact ⟨hback h.1, trivial⟩
  | outOfFuel => trivial

namespace Guard

variable {ι : Type} {Fits : ι → Moment → Prop} {Holds : ι → Machine → Prop}
  (hG : Guard o R Fits Holds)
include hG

theorem plan_careful {n : Nat} {i : ι} {t : Task} {m : Machine}
    (h : Moment.Guarded R Fits Holds i ⟨n + 1, t, m⟩) :
    (t.plan o m).Careful o R (Machine.Guarded R (Holds i))
      (fun c args m' => t = .apply (.function c) args ∧ m' = m) (t.Answers R) :=
  h.machine.plan (hG.stable i) h.values
    (fun params body bare span ht =>
      hG.function i n params body bare span m (ht ▸ h.fits) h.machine.holds)
    fun _ _ ht => ⟨ht, rfl⟩

/-- The body of a function of the region is guarded, and so is the caller when it is left. -/
theorem enters {n : Nat} {i : ι} {c : ClosureId} {args : List Value} {m : Machine}
    (h : Moment.Guarded R Fits Holds i ⟨n + 1, .apply (.function c) args, m⟩)
    (hcall : m.Calls o R c args) :
    ∃ j, Moment.Guarded R Fits Holds j
        ⟨n, (m.store.closure c).task, m.enter (m.store.closure c) args⟩ ∧
      ∀ m' : Machine, m.store.Extends m'.store → m'.Guarded R (Holds j) →
        (m'.leave m.frame).Guarded R (Holds i) := by
  obtain ⟨j, hfits, hholds, hback⟩ := hG.call i n c args m h.fits h.machine.holds hcall
  exact ⟨j, ⟨hfits, h.machine.enter hcall hholds, nofun⟩,
    fun m' hm' h' => ⟨h'.tame, h.machine.home, hback m' hm' h'.holds⟩⟩

/-- If the invariant is kept in `n` steps, a body that is evaluated in so many steps brings back the
caller. -/
theorem body_brings {n : Nat} {i : ι} {c : ClosureId} {args : List Value} {m : Machine}
    (hn : ∀ j t m, Moment.Guarded R Fits Holds j ⟨n, t, m⟩ →
      (t.eval o n m).Brings R (Machine.Guarded R (Holds j)) (t.Answers R))
    (h : Moment.Guarded R Fits Holds i ⟨n + 1, .apply (.function c) args, m⟩)
    (hcall : m.Calls o R c args) :
    (((m.store.closure c).task.eval o n (m.enter (m.store.closure c) args)).leaveTo
      m.frame).Brings R (Machine.Guarded R (Holds i)) (Value.In R) := by
  obtain ⟨j, hin, hback⟩ := hG.enters h hcall
  refine Outcome.Brings.leaveTo (hn j _ _ hin) ?_
  exact (Task.eval_extends o n _ _).mono fun m' hm' =>
    hback m' ((Store.Extends.addFrame m.store _).trans hm')

/-- The invariant holds when an evaluation ends, and the values that come out are in the region. -/
theorem brings (n : Nat) {i : ι} {t : Task} {m : Machine}
    (h : Moment.Guarded R Fits Holds i ⟨n, t, m⟩) :
    (t.eval o n m).Brings R (Machine.Guarded R (Holds i)) (t.Answers R) := by
  induction n generalizing i t m with
  | zero =>
    rw [Task.eval_zero]
    trivial
  | succ n ih =>
    rw [Task.eval_succ]
    refine (hG.plan_careful h).brings (Task.eval_extends o n)
      (fun t' m' hb hm' hin => ih ⟨hG.within i _ _ h.fits (.step hb), hm', hin⟩) ?_
    rintro c args m' ⟨rfl, rfl⟩ - hcall
    exact hG.body_brings (fun j t m => ih) h hcall

/-- What a guarded moment begins is guarded with the same index, or it is the body of a function of
the region. -/
theorem begins {j : Nat} {i : ι} {a b : Moment} (h : a.Guarded R Fits Holds i)
    (hb : a.Begins o j b) :
    (j = 0 ∧ b.Guarded R Fits Holds i) ∨
      ∃ n c args m, j = 1 ∧ a = ⟨n + 1, .apply (.function c) args, m⟩ ∧
        b = ⟨n, (m.store.closure c).task, m.enter (m.store.closure c) args⟩ ∧
        m.Calls o R c args := by
  cases hb with
  | @step n j t t' m m' hplan =>
    have hbegins := (hG.plan_careful h).begins (Task.eval_extends o n)
      (fun t' m' hb hm' hin => hG.brings n ⟨hG.within i _ _ h.fits (.step hb), hm', hin⟩)
      (by
        rintro c args m' ⟨rfl, rfl⟩ - hcall
        exact hG.body_brings (fun j t m => hG.brings n) h hcall) hplan
    rcases hbegins with ⟨rfl, hm', hin⟩ | ⟨c, args, m₀, rfl, rfl, rfl, ⟨rfl, rfl⟩, -, hcall⟩
    · exact .inl ⟨rfl, hG.within i _ _ h.fits (.step hplan), hm', hin⟩
    · exact .inr ⟨n, c, args, m₀, rfl, rfl, rfl, hcall⟩

/-- The invariant holds at every moment that an evaluation comes to. -/
theorem reaches {i : ι} {a b : Moment} {k : Nat} (h : a.Guarded R Fits Holds i)
    (hr : a.Reaches o k b) : ∃ j, b.Guarded R Fits Holds j := by
  induction hr generalizing i with
  | refl => exact ⟨i, h⟩
  | next first _ ih =>
    rcases hG.begins h first with ⟨-, hb⟩ | ⟨n, c, args, m, rfl, rfl, rfl, hcall⟩
    · exact ih hb
    · obtain ⟨j, hin, -⟩ := hG.enters h hcall
      exact ih hin

end Guard

end MonkeyLang
