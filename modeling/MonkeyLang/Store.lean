import MonkeyLang.Dict
import MonkeyLang.Program
import MonkeyLang.Value

/-!
# Stores

Everything that a running program can change: frames, which bind names, arrays and hashes; and the
functions that it has defined. Each has a number in the order in which they were made, and none is
ever taken away.

A frame stands inside other frames. It knows all of them, the innermost first, and a name means what
the first of them that binds it says.

## Main definitions

* `Store.lookup`, `Store.bind`, `Store.rebind` : names.
* `Slot`, `Store.get?`, `Store.put` : places inside arrays and hashes.
* `Store.addFrame`, `Store.addArray`, `Store.addHash`, `Store.addClosure` : new things.
-/

namespace MonkeyLang

/-- The place of a frame in the store. -/
abbrev FrameId := Nat

/-- Names and what they are bound to, inside other frames. -/
structure Frame where
  /-- The bindings of this frame. -/
  bindings : Dict String Value := {}
  /-- The frames around it, the innermost first. -/
  outer : List FrameId := []
  deriving Inhabited

/-- A function that a program has defined. -/
structure Closure where
  /-- The names of the parameters. -/
  params : List String
  /-- The body. -/
  body : Block
  /-- The frame in which the function literal was evaluated. -/
  frame : FrameId
  deriving Inhabited

/-- A place inside an array or a hash. -/
inductive Slot where
  /-- The item of an array at a position. -/
  | item (array : ArrayId) (position : Nat)
  /-- The entry of a hash under a key. -/
  | entry (hash : HashId) (key : Key)
  deriving DecidableEq

/-- All that a running program has made. -/
structure Store where
  /-- The frames. -/
  frames : Array Frame := #[]
  /-- The arrays. -/
  arrays : Array (Array Value) := #[]
  /-- The hashes. -/
  hashes : Array (Dict Key Pair) := #[]
  /-- The functions. -/
  closures : Array Closure := #[]

namespace Store

/-! ### Looking things up -/

/-- The frame at a place; one without bindings where there is none. -/
def frame (s : Store) (f : FrameId) : Frame := s.frames.getD f {}

/-- The items of an array. -/
def array (s : Store) (a : ArrayId) : Array Value := s.arrays.getD a #[]

/-- The entries of a hash. -/
def hash (s : Store) (h : HashId) : Dict Key Pair := s.hashes.getD h {}

/-- The function at a place. -/
def closure (s : Store) (c : ClosureId) : Closure := s.closures.getD c default

/-! ### Frames -/

/-- The frame and the frames around it, the innermost first. -/
def chain (s : Store) (f : FrameId) : List FrameId := f :: (s.frame f).outer

/-- The number of frames from `f` out to the last one. -/
def depth (s : Store) (f : FrameId) : Nat := (s.chain f).length

/-- The frame that says what the name `x` means in `f`. -/
def owner? (s : Store) (f : FrameId) (x : String) : Option FrameId :=
  (s.chain f).find? fun g => (s.frame g).bindings.contains x

/-- What the name `x` means in the frame `f`. -/
def lookup (s : Store) (f : FrameId) (x : String) : Option Value :=
  (s.chain f).findSome? fun g => (s.frame g).bindings.get? x

/-- Binds `x` to `v` in the frame `f` itself. -/
def bind (s : Store) (f : FrameId) (x : String) (v : Value) : Store :=
  { s with
    frames := s.frames.modify f fun fr => { fr with bindings := fr.bindings.insert x v } }

/-- Binds `x` to `v` in the frame that says what `x` means in `f`, if there is one. -/
def rebind (s : Store) (f : FrameId) (x : String) (v : Value) : Option Store :=
  (s.owner? f x).map fun g => s.bind g x v

/-! ### Slots -/

/-- What stands in a slot. -/
def get? (s : Store) : Slot → Option Value
  | .item a i => (s.array a)[i]?
  | .entry h k => ((s.hash h).get? k).map Pair.value

/-- Puts a pair into a slot. An array has to have the slot and takes the value; a hash gets the slot
and takes the whole pair. -/
def put (s : Store) (slot : Slot) (p : Pair) : Store :=
  match slot with
  | .item a i => { s with arrays := s.arrays.modify a fun items => items.setIfInBounds i p.value }
  | .entry h k => { s with hashes := s.hashes.modify h fun d => d.insert k p }

/-! ### New things -/

/-- A new frame, and its place. -/
def addFrame (s : Store) (f : Frame) : FrameId × Store :=
  (s.frames.size, { s with frames := s.frames.push f })

/-- A new frame without bindings inside the frame `f`, and its place. -/
def addFrameIn (s : Store) (f : FrameId) : FrameId × Store :=
  s.addFrame { outer := s.chain f }

/-- A new array, and its place. -/
def addArray (s : Store) (items : Array Value) : ArrayId × Store :=
  (s.arrays.size, { s with arrays := s.arrays.push items })

/-- A new hash, and its place. -/
def addHash (s : Store) (d : Dict Key Pair) : HashId × Store :=
  (s.hashes.size, { s with hashes := s.hashes.push d })

/-- A new function, and its place. -/
def addClosure (s : Store) (c : Closure) : ClosureId × Store :=
  (s.closures.size, { s with closures := s.closures.push c })

end Store

end MonkeyLang
