import MonkeyLang.Dict

/-!
# Name tables

A name table numbers the texts of a program in the order in which they first appear. It starts with
the empty text and the names of the four built-in functions, and it only grows.

Texts are found by their numbers and numbers by their texts. There are `2^32` numbers, after which
no new text can be entered.

## Main definitions

* `NameTable.intern` : the number of a text, a new one if the text is new.
* `NameTable.tryIntern` : the same while there are numbers.
* `NameTable.lookup` : the text with a given number.
-/

namespace MonkeyLang

namespace NameTable

/-- The number of a text is the place where it stands, and a text that stands nowhere has none. -/
def Inverse (names : Array String) (numbers : Dict String Nat) : Prop :=
  ∀ x i, numbers.get? x = some i ↔ names[i]? = some x

/-- A new text goes to the end, with the number of that place. -/
theorem Inverse.push {names : Array String} {numbers : Dict String Nat}
    (h : Inverse names numbers) {s : String} (hs : numbers.get? s = none) :
    Inverse (names.push s) (numbers.insert s names.size) := by
  intro x i
  rw [Array.getElem?_push]
  by_cases hx : x = s
  · subst hx
    have hnowhere : names[i]? ≠ some x := fun hi => by
      rw [(h x i).2 hi] at hs
      cases hs
    rw [Dict.get?_insert_self]
    split <;> simp_all [eq_comm]
  · rw [Dict.get?_insert_of_ne _ _ hx, h]
    split
    next hi => simp [hi, Ne.symm hx]
    next => rfl

end NameTable

/-- The texts that have a number, and their numbers. -/
structure NameTable where
  /-- The texts in the order of their numbers. -/
  names : Array String
  /-- The number of each text. -/
  numbers : Dict String Nat
  inverse : NameTable.Inverse names numbers

namespace NameTable

/-- The table without texts. -/
def empty : NameTable := ⟨#[], .empty, fun x i => by simp⟩

/-- The number of texts in the table. -/
def size (t : NameTable) : Nat := t.names.size

/-- The table with the new text `s`. -/
def push (t : NameTable) (s : String) (hs : t.numbers.get? s = none) : NameTable :=
  ⟨t.names.push s, t.numbers.insert s t.names.size, t.inverse.push hs⟩

/-- The number of the text `s`, and the table in which it has that number. The number may be larger
than `maxNumber`. -/
def intern (t : NameTable) (s : String) : Nat × NameTable :=
  match hs : t.numbers.get? s with
  | some i => (i, t)
  | none => (t.size, t.push s hs)

/-- The table after the texts `ss` have been entered in order. -/
def internAll (t : NameTable) (ss : List String) : NameTable :=
  ss.foldl (fun t s => (t.intern s).2) t

/-- The text with the number `i`; the empty text if the number has not been given out. -/
def lookup (t : NameTable) (i : Nat) : String := t.names.getD i ""

/-- The texts that every table starts with. -/
def reserved : List String := ["", "len", "push", "print", "exit"]

/-- The table that holds the reserved texts only. -/
def initial : NameTable := empty.internAll reserved

/-- Whether nothing but the reserved texts has been entered. -/
def isEmpty (t : NameTable) : Bool := t.size ≤ reserved.length

/-! ### The largest number -/

/-- The largest number that a text can have, `2^32 - 1`. -/
def maxNumber : Nat := 0xFFFFFFFF

/-- There is no number for one more text than the `count` in the table. -/
structure Overflow where
  /-- The number of texts in the table. -/
  count : Nat
  deriving DecidableEq

/-- The words in which an overflow is reported. -/
def Overflow.message (e : Overflow) : String :=
  s!"interner exceeded capacity: {e.count} strings, max is {maxNumber}"

/-- As `intern`, unless the text is new and there is no number for it. -/
def tryIntern (t : NameTable) (s : String) : Except Overflow (Nat × NameTable) :=
  if t.numbers.contains s ∨ t.size ≤ maxNumber then .ok (t.intern s) else .error ⟨t.size⟩

/-- The numbers of the texts `ss`, entered in order, and the table in which they have them. -/
def tryInternAll (t : NameTable) : List String → Except Overflow (List Nat × NameTable)
  | [] => .ok ([], t)
  | s :: ss =>
    match t.tryIntern s with
    | .ok (i, t') => (t'.tryInternAll ss).map fun (is, t'') => (i :: is, t'')
    | .error e => .error e

/-! ### Entering a text -/

variable {t : NameTable} {s : String}

theorem intern_of_get? {i : Nat} (h : t.numbers.get? s = some i) : t.intern s = (i, t) := by
  unfold intern
  split
  next j hj => rw [Option.some.inj (h.symm.trans hj)]
  next hs => cases h.symm.trans hs

theorem intern_of_get?_eq_none (h : t.numbers.get? s = none) :
    t.intern s = (t.size, t.push s h) := by
  unfold intern
  split
  next i hi => cases h.symm.trans hi
  next => rfl

end NameTable

end MonkeyLang
