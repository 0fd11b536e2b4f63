import MonkeyLang.Proofs.Evaluation.Kept
import MonkeyLang.Proofs.Evaluation.Spans
import MonkeyLang.Proofs.Numbered.Program
import MonkeyLang.Proofs.Numbered.Table

/-!
# Machines for numbered programs

A machine that evaluates numbered programs binds numbers. All else that it holds are things that no
number goes into, and for these it has a machine of the other kind, whose frames bind nothing and
whose functions have no bodies. The names of their parameters stay, for they are shown.

The machine in which the names are numbered with a table is given for every machine that holds no
names but those of the table, and single changes of the one are changes of the other.

## Main definitions

* `Numbered.Machine`, `Numbered.Outcome` : the machines, and how an evaluation ended.
* `Machine.numbered` : the machine with the numbers of its names.
* `Machine.NamesIn` : the machine holds no names but those of a table.

## Main statements

* `Machine.lookup_numbered`, `Machine.assign_numbered`, `Machine.enter_numbered` : names and calls.
* `Machine.numbered_grows` : a table that grows changes nothing.
-/

namespace MonkeyLang

variable {α β : Type}

namespace Numbered

/-- The parameters and the body of a function. -/
structure Code where
  /-- The numbers of the parameters. -/
  params : List Nat := []
  /-- The body. -/
  body : List Stmt := []

/-- The state in which a numbered program is evaluated. -/
structure Machine where
  /-- The machine without names. -/
  base : MonkeyLang.Machine
  /-- What the frames bind. -/
  scopes : Array (Dict Nat Value)
  /-- What the functions consist of. -/
  codes : Array Code

/-- How the evaluation of a numbered program ended. -/
inductive Outcome (α : Type) where
  /-- With a result. -/
  | done (result : α) (machine : Machine)
  /-- With a signal. -/
  | signal (s : Signal) (machine : Machine)
  /-- Not at all: the bound on the number of steps was too small. -/
  | outOfFuel

namespace Outcome

/-- Goes on after a result. -/
def andThen (o : Outcome α) (next : α → Machine → Outcome β) : Outcome β :=
  match o with
  | .done result machine => next result machine
  | .signal s machine => .signal s machine
  | .outOfFuel => .outOfFuel

/-- A runtime error, with the machine as it is. -/
def fail (e : RuntimeError) (m : Machine) : Outcome α := .signal (.failed e) m

end Outcome

namespace Machine

/-- The machine before anything has been evaluated. -/
def initial : Machine := ⟨.initial, #[{}], #[]⟩

/-- What the frame binds. -/
def scope (m : Machine) (f : FrameId) : Dict Nat Value := m.scopes.getD f {}

/-- What the function consists of. -/
def code (m : Machine) (c : ClosureId) : Code := m.codes.getD c {}

/-- The frame at hand and the frames around it, the innermost first. -/
def chain (m : Machine) : List FrameId := m.base.store.chain m.base.frame

/-- What the name with the number `x` means. -/
def lookup (m : Machine) (x : Nat) : Option Value :=
  m.chain.findSome? fun f => (m.scope f).get? x

/-- The frame that says what the name with the number `x` means. -/
def owner? (m : Machine) (x : Nat) : Option FrameId :=
  m.chain.find? fun f => (m.scope f).contains x

/-- Binds the number `x` to `v` in the frame `f`. -/
def bindIn (m : Machine) (f : FrameId) (x : Nat) (v : Value) : Machine :=
  { m with scopes := m.scopes.modify f fun d => d.insert x v }

/-- Binds the number `x` to `v` in the frame at hand. -/
def bind (m : Machine) (x : Nat) (v : Value) : Machine := m.bindIn m.base.frame x v

/-- Assigns `v` to the name with the number `x`. -/
def assign (m : Machine) (mode : AssignMode) (x : Nat) (v : Value) : Machine :=
  match mode with
  | .localFrame => m.bind x v
  | .enclosing =>
    match m.owner? x with
    | some f => m.bindIn f x v
    | none => m

/-- Puts `v` into a slot. -/
def put (m : Machine) (slot : Slot) (p : Pair) : Machine :=
  { m with base := m.base.put slot p }

/-- The outcome of something that goes on in the machine without names only. -/
def onBase (m : Machine) : MonkeyLang.Outcome α → Outcome α
  | .done a base => .done a { m with base }
  | .signal s base => .signal s { m with base }
  | .outOfFuel => .outOfFuel

/-- A new function, inside the frame at hand. The names of its parameters are read in the table. -/
def newFunction (t : NameTable) (m : Machine) (params : List Nat) (body : List Stmt) :
    Outcome Value :=
  { m with codes := m.codes.push ⟨params, body⟩ }.onBase
    (m.base.newFunction (params.map t.lookup) ⟨[], .nowhere⟩)

/-- Enters the body of a function: its parameters are bound in a new frame inside the frame of its
definition. -/
def enter (m : Machine) (c : ClosureId) (args : List Value) : Machine :=
  { m with
    base := m.base.enter { m.base.store.closure c with params := [] } args
    scopes := m.scopes.push (Dict.empty.insertAll ((m.code c).params.zip args)) }

/-- Leaves the body of a function and goes back to the frame `caller`. -/
def leave (m : Machine) (caller : FrameId) : Machine := { m with base := m.base.leave caller }

end Machine

end Numbered

/-! ### Dictionaries with other keys -/

namespace Dict

variable {κ κ' ν : Type} [DecidableEq κ] [DecidableEq κ']

/-- The dictionary with `f k` in the place of every key `k`. -/
def mapKeys (f : κ → κ') (d : Dict κ ν) : Dict κ' ν := ⟨d.entries.map fun e => (f e.1, e.2)⟩

variable {f : κ → κ'} {P : κ → Prop} {d : Dict κ ν} {k : κ}
  (hf : ∀ {k k'}, P k → P k' → (f k = f k' ↔ k = k'))
include hf

theorem get?_mapKeys (hd : ∀ k ∈ d.keys, P k) (hk : P k) : (d.mapKeys f).get? (f k) = d.get? k := by
  obtain ⟨es⟩ := d
  simp only [keys, get?, mapKeys] at hd ⊢
  induction es with
  | nil => rfl
  | cons e es ih =>
    rw [List.map_cons, List.forall_mem_cons] at hd
    simp only [List.map_cons, find?, hf hd.1 hk, ih hd.2]

theorem contains_mapKeys (hd : ∀ k ∈ d.keys, P k) (hk : P k) :
    (d.mapKeys f).contains (f k) = d.contains k := by
  rw [contains, contains, get?_mapKeys hf hd hk]

theorem insert_mapKeys (hd : ∀ k ∈ d.keys, P k) (hk : P k) (v : ν) :
    (d.mapKeys f).insert (f k) v = (d.insert k v).mapKeys f := by
  obtain ⟨es⟩ := d
  simp only [keys, insert, mapKeys, mk.injEq] at hd ⊢
  induction es with
  | nil => rfl
  | cons e es ih =>
    rw [List.map_cons, List.forall_mem_cons] at hd
    simp only [List.map_cons, put, hf hd.1 hk, ih hd.2]
    split <;> rfl

omit hf in
theorem forall_mem_keys_insert (hd : ∀ k ∈ d.keys, P k) (hk : P k) (v : ν) :
    ∀ k' ∈ (d.insert k v).keys, P k' := by
  intro k' hk'
  obtain rfl | hk' := (mem_keys_insert d k k' v).1 hk'
  · exact hk
  · exact hd k' hk'

omit hf in
theorem forall_mem_keys_insertAll {es : List (κ × ν)} (hd : ∀ k ∈ d.keys, P k)
    (hes : ∀ e ∈ es, P e.1) : ∀ k ∈ (d.insertAll es).keys, P k := by
  induction es generalizing d with
  | nil => exact hd
  | cons e es ih =>
    rw [List.forall_mem_cons] at hes
    exact ih (forall_mem_keys_insert hd hes.1 e.2) hes.2

theorem insertAll_mapKeys {es : List (κ × ν)} (hd : ∀ k ∈ d.keys, P k) (hes : ∀ e ∈ es, P e.1) :
    (d.mapKeys f).insertAll (es.map fun e => (f e.1, e.2)) = (d.insertAll es).mapKeys f := by
  induction es generalizing d with
  | nil => rfl
  | cons e es ih =>
    rw [List.forall_mem_cons] at hes
    have hrest := ih (forall_mem_keys_insert hd hes.1 e.2) hes.2
    rw [← insert_mapKeys hf hd hes.1] at hrest
    exact hrest

omit hf [DecidableEq κ] [DecidableEq κ'] in
theorem mapKeys_congr {f g : κ → κ'} (h : ∀ k ∈ d.keys, f k = g k) : d.mapKeys f = d.mapKeys g := by
  refine congrArg mk (List.map_congr_left fun e he => ?_)
  rw [h e.1 (List.mem_map_of_mem he)]

end Dict

/-! ### The machine without names -/

/-- The frame without its bindings. -/
def Frame.nameless (fr : Frame) : Frame := { fr with bindings := {} }

/-- The function without its body. -/
def Closure.nameless (c : Closure) : Closure := { c with body := ⟨[], .nowhere⟩ }

/-- The store without bindings and without the bodies of functions. -/
def Store.nameless (s : Store) : Store :=
  { s with frames := s.frames.map Frame.nameless, closures := s.closures.map Closure.nameless }

/-- The machine without bindings and without the bodies of functions. -/
def Machine.nameless (m : Machine) : Machine := { m with store := m.store.nameless }

namespace Store

theorem frame_nameless (s : Store) (f : FrameId) : s.nameless.frame f = (s.frame f).nameless := by
  simp only [frame, nameless, Array.getD_eq_getD_getElem?, Array.getElem?_map]
  cases s.frames[f]? <;> rfl

theorem closure_nameless (s : Store) (c : ClosureId) :
    s.nameless.closure c = (s.closure c).nameless := by
  simp only [closure, nameless, Array.getD_eq_getD_getElem?, Array.getElem?_map]
  cases s.closures[c]? <;> rfl

theorem chain_nameless (s : Store) (f : FrameId) : s.nameless.chain f = s.chain f := by
  rw [chain, chain, frame_nameless]
  rfl

theorem looksLike_nameless (s : Store) : s.LooksLike s.nameless :=
  ⟨rfl, rfl, fun c => by rw [closure_nameless]; rfl⟩

end Store

namespace Machine

/-- Built-in functions see nothing of names and bodies. -/
theorem call_nameless (m : Machine) (b : Builtin) (args : List Value) :
    (b.call args m).mapMachine nameless = b.call args m.nameless := by
  refine Outcome.mapMachine_call nameless (fun _ => rfl) (fun _ => rfl) (fun m v => ?_) b args
  rw [show m.nameless.store = m.store.nameless from rfl, m.store.looksLike_nameless.render]
  rfl

theorem newFunction_nameless (m : Machine) (params : List String) (body : Block) :
    (m.newFunction params body).mapMachine nameless =
      m.nameless.newFunction params ⟨[], .nowhere⟩ := by
  simp only [newFunction, Store.addClosure, Outcome.mapMachine, nameless, Store.nameless,
    Array.size_map, Array.map_push]
  rfl

/-- A new frame is nameless without its bindings. -/
theorem enter_nameless (m : Machine) (c : Closure) (args : List Value) :
    (m.enter c args).nameless = m.nameless.enter { c.nameless with params := [] } args := by
  simp only [enter, nameless, Store.addFrame, Store.chain_nameless]
  simp only [Store.nameless, Array.size_map, Array.map_push]
  rfl

end Machine

/-! ### The machine with numbers -/

/-- The texts in a function. -/
def Closure.names (c : Closure) : List String := c.params ++ c.body.names

/-- The machine holds no names but those of the table. -/
def Machine.NamesIn (t : NameTable) (m : Machine) : Prop :=
  (∀ fr ∈ m.store.frames, ∀ x ∈ fr.bindings.keys, x ∈ t.names) ∧
    ∀ c ∈ m.store.closures, ∀ x ∈ c.names, x ∈ t.names

section

variable (num : String → Nat)

/-- The function with the numbers of its texts. -/
def Closure.numbered (c : Closure) : Numbered.Code := ⟨c.params.map num, c.body.numbered num⟩

/-- The machine with the numbers of its names. -/
def Machine.numbered (m : Machine) : Numbered.Machine where
  base := m.nameless
  scopes := m.store.frames.map fun fr => fr.bindings.mapKeys num
  codes := m.store.closures.map (Closure.numbered num)

/-- The same ending, in the machine with the numbers of its names. -/
def Outcome.numbered : Outcome α → Numbered.Outcome α
  | .done a m => .done a (m.numbered num)
  | .signal s m => .signal s (m.numbered num)
  | .outOfFuel => .outOfFuel

end

namespace Machine

section

variable (num : String → Nat) (m : Machine)

theorem scope_numbered (f : FrameId) :
    (m.numbered num).scope f = (m.store.frame f).bindings.mapKeys num := by
  simp only [Numbered.Machine.scope, numbered, Store.frame, Array.getD_eq_getD_getElem?,
    Array.getElem?_map]
  cases m.store.frames[f]? <;> rfl

theorem code_numbered (c : ClosureId) :
    (m.numbered num).code c = (m.store.closure c).numbered num := by
  simp only [Numbered.Machine.code, numbered, Store.closure, Array.getD_eq_getD_getElem?,
    Array.getElem?_map]
  cases m.store.closures[c]? <;> rfl

theorem chain_numbered : (m.numbered num).chain = m.store.chain m.frame :=
  m.store.chain_nameless m.frame

end

/-- The machine before anything has been evaluated has no names. -/
theorem numbered_initial (num : String → Nat) : Machine.initial.numbered num = .initial := by
  simp [numbered, initial, nameless, Store.nameless, Frame.nameless, Dict.mapKeys,
    Numbered.Machine.initial]

theorem namesIn_initial (t : NameTable) : Machine.initial.NamesIn t := by
  simp [NamesIn, initial, Dict.keys]

/-! ### Changes without names -/

/-- What the machines bind and what functions they hold is the same. -/
def SameNames (m m' : Machine) : Prop :=
  m'.store.frames = m.store.frames ∧ m'.store.closures = m.store.closures

theorem keptByBuiltins_sameNames : KeptByBuiltins SameNames where
  refl _ := ⟨rfl, rfl⟩
  trans h h' := ⟨h'.1.trans h.1, h'.2.trans h.2⟩
  newArray _ _ := ⟨rfl, rfl⟩
  print _ _ := ⟨rfl, rfl⟩

theorem SameNames.namesIn {t : NameTable} {m m' : Machine} (h : m.SameNames m')
    (hm : m.NamesIn t) : m'.NamesIn t := by
  rw [NamesIn, h.1, h.2]
  exact hm

/-- What changes neither bindings nor functions goes on in the machine without names. -/
theorem onBase_numbered {num : String → Nat} {m : Machine} {r : Outcome α}
    (h : r.Leaves (SameNames m)) :
    (m.numbered num).onBase (r.mapMachine nameless) = r.numbered num := by
  cases r with
  | done a m' | signal a m' =>
    simp only [Outcome.mapMachine, Numbered.Machine.onBase, Outcome.numbered, numbered, h.1, h.2]
  | outOfFuel => rfl

/-! ### Names -/

section

variable {t : NameTable} {m : Machine} (h : m.NamesIn t)
include h

theorem NamesIn.frame (f : FrameId) : ∀ x ∈ (m.store.frame f).bindings.keys, x ∈ t.names := by
  rw [Store.frame, Array.getD_eq_getD_getElem?]
  cases hf : m.store.frames[f]? with
  | none => exact List.forall_mem_nil _
  | some fr => exact h.1 fr (Array.mem_of_getElem? hf)

theorem NamesIn.closure (c : ClosureId) : ∀ x ∈ (m.store.closure c).names, x ∈ t.names := by
  rw [Store.closure, Array.getD_eq_getD_getElem?]
  cases hc : m.store.closures[c]? with
  | none => exact List.forall_mem_nil _
  | some c => exact h.2 c (Array.mem_of_getElem? hc)

variable {x : String} (hx : x ∈ t.names)
include hx

/-- A name means what its number means. -/
theorem lookup_numbered : (m.numbered t.number).lookup (t.number x) = m.lookup x := by
  rw [Numbered.Machine.lookup, chain_numbered, lookup, Store.lookup]
  congr 1
  funext f
  rw [scope_numbered, Dict.get?_mapKeys NameTable.number_inj (h.frame f) hx]

theorem owner?_numbered :
    (m.numbered t.number).owner? (t.number x) = m.store.owner? m.frame x := by
  rw [Numbered.Machine.owner?, chain_numbered, Store.owner?]
  congr 1
  funext f
  rw [scope_numbered, Dict.contains_mapKeys NameTable.number_inj (h.frame f) hx]

theorem bindIn_numbered (f : FrameId) (v : Value) :
    (m.numbered t.number).bindIn f (t.number x) v =
      { m with store := m.store.bind f x v }.numbered t.number := by
  have hframes : (m.store.bind f x v).frames.map Frame.nameless =
      m.store.frames.map Frame.nameless := by
    refine Array.ext_getElem? fun g => ?_
    simp only [Store.bind, Array.getElem?_map, Array.getElem?_modify]
    split
    · cases m.store.frames[g]? <;> rfl
    · rfl
  have hscopes : (m.store.bind f x v).frames.map (fun fr => fr.bindings.mapKeys t.number) =
      (m.store.frames.map fun fr => fr.bindings.mapKeys t.number).modify f
        fun d => d.insert (t.number x) v := by
    refine Array.ext_getElem? fun g => ?_
    simp only [Store.bind, Array.getElem?_map, Array.getElem?_modify]
    split
    · cases hg : m.store.frames[g]? with
      | none => rfl
      | some fr =>
        exact congrArg some (Dict.insert_mapKeys NameTable.number_inj
          (h.1 fr (Array.mem_of_getElem? hg)) hx v).symm
    · rfl
  simp only [Numbered.Machine.bindIn, numbered, nameless, Store.nameless, hframes, hscopes]
  rfl

theorem bind_numbered (v : Value) :
    (m.numbered t.number).bind (t.number x) v = (m.bind x v).numbered t.number :=
  bindIn_numbered h hx m.frame v

theorem assign_numbered (mode : AssignMode) (v : Value) :
    (m.numbered t.number).assign mode (t.number x) v = (m.assign mode x v).numbered t.number := by
  cases mode with
  | localFrame => exact bind_numbered h hx v
  | enclosing =>
    rw [Numbered.Machine.assign, owner?_numbered h hx, assign]
    cases m.store.owner? m.frame x with
    | none => rfl
    | some f => exact bindIn_numbered h hx f v

theorem NamesIn.bindIn (f : FrameId) (v : Value) :
    { m with store := m.store.bind f x v }.NamesIn t := by
  refine ⟨fun fr hfr => ?_, h.2⟩
  obtain ⟨g, hg⟩ := Array.mem_iff_getElem?.1 hfr
  simp only [Store.bind, Array.getElem?_modify] at hg
  split at hg
  · obtain ⟨fr', hfr', rfl⟩ := Option.map_eq_some_iff.1 hg
    exact Dict.forall_mem_keys_insert (h.1 fr' (Array.mem_of_getElem? hfr')) hx v
  · exact h.1 fr (Array.mem_of_getElem? hg)

theorem NamesIn.assign (mode : AssignMode) (v : Value) : (m.assign mode x v).NamesIn t := by
  cases mode with
  | localFrame => exact h.bindIn hx m.frame v
  | enclosing =>
    rw [Machine.assign]
    cases m.store.owner? m.frame x with
    | none => exact h
    | some f => exact h.bindIn hx f v

end

/-! ### Functions -/

section

variable {t : NameTable} {m : Machine} (h : m.NamesIn t)
include h

theorem NamesIn.newFunction {params : List String} {body : Block}
    (hparams : ∀ x ∈ params, x ∈ t.names) (hbody : ∀ x ∈ body.names, x ∈ t.names) :
    (m.newFunction params body).Leaves (NamesIn t) := by
  refine ⟨h.1, fun c hc => ?_⟩
  obtain hc | rfl := Array.mem_push.1 hc
  · exact h.2 c hc
  · exact List.forall_mem_append.2 ⟨hparams, hbody⟩

theorem enter_numbered (c : ClosureId) (args : List Value) :
    (m.numbered t.number).enter c args = (m.enter (m.store.closure c) args).numbered t.number := by
  have hparams := (List.forall_mem_append.1 (h.closure c)).1
  have hscope : Dict.empty.insertAll (((m.store.closure c).numbered t.number).params.zip args) =
      (Dict.empty.insertAll ((m.store.closure c).params.zip args)).mapKeys t.number := by
    rw [Closure.numbered, List.zip_map_left]
    exact Dict.insertAll_mapKeys (d := .empty) NameTable.number_inj (List.forall_mem_nil _)
      fun e he => hparams e.1 (List.of_mem_zip he).1
  have hbase : (m.numbered t.number).base.enter
      { (m.numbered t.number).base.store.closure c with params := [] } args =
        (m.enter (m.store.closure c) args).nameless := by
    rw [enter_nameless, ← Store.closure_nameless]
    rfl
  rw [Numbered.Machine.enter, code_numbered, hscope, hbase]
  simp only [numbered, enter, Store.addFrame, Array.map_push]

theorem NamesIn.enter (c : ClosureId) (args : List Value) :
    (m.enter (m.store.closure c) args).NamesIn t := by
  have hparams := (List.forall_mem_append.1 (h.closure c)).1
  refine ⟨fun fr hfr => ?_, h.2⟩
  obtain hfr | rfl := Array.mem_push.1 hfr
  · exact h.1 fr hfr
  · exact Dict.forall_mem_keys_insertAll (List.forall_mem_nil _)
      fun e he => hparams e.1 (List.of_mem_zip he).1

omit h in
theorem newFunction_numbered {params : List String} (body : Block)
    (hparams : ∀ x ∈ params, x ∈ t.names) :
    (m.numbered t.number).newFunction t (params.map t.number) (body.numbered t.number) =
      (m.newFunction params body).numbered t.number := by
  have htexts : (params.map t.number).map t.lookup = params := by
    rw [List.map_map]
    exact (List.map_congr_left fun x hx => NameTable.lookup_number (hparams x hx)).trans
      (List.map_id _)
  have hbase : (m.numbered t.number).base.newFunction params ⟨[], .nowhere⟩ =
      (m.newFunction params body).mapMachine nameless :=
    (m.newFunction_nameless params body).symm
  rw [Numbered.Machine.newFunction, htexts, hbase]
  simp only [newFunction, Store.addClosure, Outcome.mapMachine, Numbered.Machine.onBase,
    Outcome.numbered, numbered, Array.map_push]
  rfl

/-! ### Tables that grow -/

theorem NamesIn.grows {t' : NameTable} (ht : t.Grows t') : m.NamesIn t' :=
  ⟨fun fr hfr x hx => ht.mem x (h.1 fr hfr x hx), fun c hc x hx => ht.mem x (h.2 c hc x hx)⟩

/-- A table that grows keeps the numbers of all names in the machine. -/
theorem numbered_grows {t' : NameTable} (ht : t.Grows t') :
    m.numbered t'.number = m.numbered t.number := by
  have hscopes : m.store.frames.map (fun fr => fr.bindings.mapKeys t'.number) =
      m.store.frames.map fun fr => fr.bindings.mapKeys t.number :=
    Array.map_congr_left fun fr hfr => Dict.mapKeys_congr fun x hx => ht.number x (h.1 fr hfr x hx)
  have hcodes : m.store.closures.map (Closure.numbered t'.number) =
      m.store.closures.map (Closure.numbered t.number) := by
    refine Array.map_congr_left fun c hc => ?_
    have hnumber (x : String) (hx : x ∈ c.names) : t'.number x = t.number x :=
      ht.number x (h.2 c hc x hx)
    obtain ⟨hparams, hbody⟩ := List.forall_mem_append.1 hnumber
    rw [Closure.numbered, Closure.numbered, List.map_congr_left hparams,
      Block.numbered_congr hbody]
  rw [numbered, numbered, hscopes, hcodes]

end

end Machine

end MonkeyLang
