import MonkeyLang.Eval

/-!
# Hosts

A host is a program around the language that holds values of its own, makes them and works on them.
It holds a value by a handle. Every value that it makes gets a handle of its own; a copy shares the
handle of what it was copied from. Handles tell apart strings with the same content, which nothing
inside the language does.

## Main definitions

* `Held`, `Host.hold`, `Host.copy` : values with their handles.
* `Held.identical`, `Held.equal` : whether two held values are one, and whether they are equal.
* `Host.run` : an operation of the language on held values.
-/

namespace MonkeyLang

/-- A value that a host holds. -/
structure Held where
  /-- The value. -/
  value : Value
  /-- The handle by which it is held. -/
  handle : Nat

namespace Held

/-- Whether two held values are one and the same; strings are if they share their handle. -/
def identical (a b : Held) : Bool :=
  match a.value, b.value with
  | .str _, .str _ => a.handle == b.handle
  | v, w => v.same w

/-- Whether two held values are equal: strings by content, other values if they are the same. -/
def equal (a b : Held) : Bool := a.value.same b.value

/-- Whether two held values are the same key of a hash, or both none. -/
def sameKey (a b : Held) : Bool := a.value.key? == b.value.key?

end Held

/-- A host and the values that it holds. -/
structure Host where
  /-- Where the values live. -/
  machine : Machine := .initial
  /-- The values held so far. -/
  held : Array Held := #[]

namespace Host

/-- The held value with a number; null where there is none. -/
def get (h : Host) (i : Nat) : Held := h.held.getD i ⟨.null, 0⟩

/-- The held values with the given numbers. -/
def values (h : Host) (is : List Nat) : List Value := is.map fun i => (h.get i).value

/-- Holds the value `v` by a handle of its own. -/
def hold (h : Host) (v : Value) : Host := { h with held := h.held.push ⟨v, h.held.size⟩ }

/-- Holds a copy of the held value `i`. -/
def copy (h : Host) (i : Nat) : Host := { h with held := h.held.push (h.get i) }

/-- The host with another store. -/
def withStore (h : Host) (s : Store) : Host := { h with machine := { h.machine with store := s } }

/-- Makes an array of held values. -/
def makeArray (h : Host) (is : List Nat) : Host :=
  let (a, s) := h.machine.store.addArray (h.values is).toArray
  (h.withStore s).hold (.array a)

/-- Makes a hash without entries. -/
def makeHash (h : Host) : Host :=
  let (d, s) := h.machine.store.addHash .empty
  (h.withStore s).hold (.hash d)

/-- Makes a function with an empty body, inside a frame of its own. -/
def makeFunction (h : Host) (params : List String) : Host :=
  let (f, s) := h.machine.store.addFrame {}
  let (c, s) := s.addClosure { params, body := default, frame := f }
  (h.withStore s).hold (.function c)

/-- Adds the held value `i` at the end of the held array `a`. -/
def append (h : Host) (a i : Nat) : Host :=
  match (h.get a).value with
  | .array id =>
    let s := h.machine.store
    h.withStore { s with arrays := s.arrays.modify id (·.push (h.get i).value) }
  | _ => h

/-- Files the held value `v` under the held value `k` in the held hash `d`, and tells whether there
was an entry under that key. -/
def file (h : Host) (d k v : Nat) : Bool × Host :=
  match (h.get d).value, (h.get k).value.key? with
  | .hash id, some key =>
    let slot := Slot.entry id key
    let s := h.machine.store
    ((s.get? slot).isSome, h.withStore (s.put slot ⟨(h.get k).value, (h.get v).value⟩))
  | _, _ => (false, h)

/-- Carries out an operation of the language and holds its value. A signal leaves the held values as
they are and is told. -/
def run (h : Host) (operation : Machine → Outcome Value) : Option Signal × Host :=
  match operation h.machine with
  | .done v m => (none, { h with machine := m }.hold v)
  | .signal s m => (some s, { h with machine := m })
  | .outOfFuel => (none, h)

end Host

end MonkeyLang
