import MonkeyLang.RuntimeError
import MonkeyLang.Store

/-!
# Machines

The state in which a program is evaluated: the store, the frame of the statement at hand, the calls
that are under way and what has been printed; and how an evaluation ends.

## Main definitions

* `Machine` : the state, with the operations that evaluation needs.
* `Outcome` : a result, a signal that ends what is under way, or a bound on the steps that was too
  small.
* `Options` : what can be chosen about evaluation.
-/

namespace MonkeyLang

/-- The frame that an assignment to a name writes to. The name has to be bound in either case. -/
inductive AssignMode where
  /-- The frame of the statement, where the name may be new. -/
  | localFrame
  /-- The frame that says what the name means. -/
  | enclosing
  deriving DecidableEq

/-- What can be chosen about evaluation. -/
structure Options where
  /-- Where assignments to names write. -/
  assign : AssignMode := .localFrame
  /-- How many calls of defined functions may be under way at once, if there is a limit. -/
  maxDepth : Option Nat := none
  deriving DecidableEq

/-- What ends everything that is under way. -/
inductive Signal where
  /-- `return`, which ends with the call of a function or with the program. -/
  | returned (value : Value)
  /-- A runtime error. -/
  | failed (error : RuntimeError)
  /-- The call of `exit`. -/
  | exited (code : Nat)
  deriving DecidableEq

/-- The state in which a program is evaluated. -/
structure Machine where
  /-- All that has been made. -/
  store : Store
  /-- The frame of the statement at hand. -/
  frame : FrameId
  /-- How many calls of defined functions are under way. -/
  depth : Nat
  /-- The most such calls that have been under way at once. -/
  peak : Nat
  /-- What has been printed. -/
  printed : String

/-- How an evaluation ended, and the state that it left. -/
inductive Outcome (α : Type) where
  /-- With a result. -/
  | done (result : α) (machine : Machine)
  /-- With a signal. -/
  | signal (s : Signal) (machine : Machine)
  /-- Not at all: the bound on the number of steps was too small. -/
  | outOfFuel

namespace Outcome

variable {α β : Type}

/-- Goes on after a result. -/
@[inline] def andThen (o : Outcome α) (next : α → Machine → Outcome β) : Outcome β :=
  match o with
  | .done result machine => next result machine
  | .signal s machine => .signal s machine
  | .outOfFuel => .outOfFuel

/-- Applies `f` to the result. -/
@[inline] def map (f : α → β) (o : Outcome α) : Outcome β :=
  o.andThen fun result machine => .done (f result) machine

/-- The value or error `r`, with the machine as it is. -/
@[inline] def ofExcept (r : Except RuntimeError α) (m : Machine) : Outcome α :=
  match r with
  | .ok result => .done result m
  | .error e => .signal (.failed e) m

/-- A runtime error, with the machine as it is. -/
@[inline] def fail (e : RuntimeError) (m : Machine) : Outcome α := .signal (.failed e) m

@[simp] theorem andThen_done (a : α) (m : Machine) (next : α → Machine → Outcome β) :
    (Outcome.done a m).andThen next = next a m := rfl

@[simp] theorem andThen_signal (s : Signal) (m : Machine) (next : α → Machine → Outcome β) :
    (Outcome.signal s m : Outcome α).andThen next = .signal s m := rfl

@[simp] theorem andThen_outOfFuel (next : α → Machine → Outcome β) :
    (Outcome.outOfFuel : Outcome α).andThen next = .outOfFuel := rfl

end Outcome

namespace Machine

/-- The machine before anything has been evaluated: one frame, without bindings. -/
def initial : Machine :=
  { store := { frames := #[{}] }, frame := 0, depth := 0, peak := 0, printed := "" }

/-- What the name `x` means. -/
def lookup (m : Machine) (x : String) : Option Value := m.store.lookup m.frame x

/-- Binds `x` to `v` in the frame at hand. -/
def bind (m : Machine) (x : String) (v : Value) : Machine :=
  { m with store := m.store.bind m.frame x v }

/-- Assigns `v` to the name `x`. -/
def assign (m : Machine) (mode : AssignMode) (x : String) (v : Value) : Machine :=
  match mode with
  | .localFrame => m.bind x v
  | .enclosing =>
    match m.store.owner? m.frame x with
    | some f => { m with store := m.store.bind f x v }
    | none => m

/-- Puts a pair into a slot. -/
def put (m : Machine) (slot : Slot) (p : Pair) : Machine :=
  { m with store := m.store.put slot p }

/-- A new array. -/
def newArray (m : Machine) (items : Array Value) : Outcome Value :=
  let (a, store) := m.store.addArray items
  .done (.array a) { m with store }

/-- A new hash. -/
def newHash (m : Machine) (d : Dict Key Pair) : Outcome Value :=
  let (h, store) := m.store.addHash d
  .done (.hash h) { m with store }

/-- A new function, inside the frame at hand. -/
def newFunction (m : Machine) (params : List String) (body : Block) : Outcome Value :=
  let (c, store) := m.store.addClosure ⟨params, body, m.frame⟩
  .done (.function c) { m with store }

/-- Writes a line. -/
def print (m : Machine) (line : String) : Machine :=
  { m with printed := m.printed ++ line ++ "\n" }

/-- Enters the body of a function: its parameters are bound in a new frame inside the frame of its
definition. -/
def enter (m : Machine) (c : Closure) (args : List Value) : Machine :=
  let bindings := Dict.empty.insertAll (c.params.zip args)
  let (frame, store) := m.store.addFrame { bindings, outer := m.store.chain c.frame }
  { m with store, frame, depth := m.depth + 1, peak := max m.peak (m.depth + 1) }

/-- Leaves the body of a function and goes back to the frame `caller`. -/
def leave (m : Machine) (caller : FrameId) : Machine :=
  { m with frame := caller, depth := m.depth - 1 }

end Machine

/-- Whether another call would be one too many. -/
def Options.forbids (o : Options) (depth : Nat) : Option Nat :=
  match o.maxDepth with
  | some limit => if limit ≤ depth then some limit else none
  | none => none

end MonkeyLang
