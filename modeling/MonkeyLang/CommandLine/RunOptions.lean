import MonkeyLang.Machine
import MonkeyLang.Text.Numeral

/-!
# Options on the command line

Arguments that choose how programs are evaluated, among arguments of other kinds.

* `--assign=local` and `--assign=enclosing` choose where assignments write.
* `--max-depth=N` limits how many calls may be under way at once. `N` is a decimal numeral below
  `2^64`, possibly after a plus sign.

Any other argument that starts with a hyphen is refused, except the hyphen alone. The first argument
that is refused decides the error; of several choices of one thing the last counts.
-/

namespace MonkeyLang

/-- The text behind `lead`, if the text `s` starts with it. -/
def textBehind? (lead s : String) : Option String :=
  if lead.toList.isPrefixOf s.toList then some (String.ofList (s.toList.drop lead.toList.length))
  else none

/-- The assignment mode with the given name. -/
def AssignMode.ofName? (name : String) : Option AssignMode :=
  match name with
  | "local" => some .localFrame
  | "enclosing" => some .enclosing
  | _ => none

/-- The name of an assignment mode. -/
def AssignMode.name : AssignMode → String
  | .localFrame => "local"
  | .enclosing => "enclosing"

/-- Every assignment mode is found under its name. -/
theorem AssignMode.ofName?_name (mode : AssignMode) : ofName? mode.name = some mode := by
  cases mode <;> rfl

namespace RunOptions

/-- The largest limit on calls that can be written, `2^64 - 1`. -/
def maxLimit : Nat := 0xFFFFFFFFFFFFFFFF

/-- The limit on calls that a numeral denotes. -/
def limit? (numeral : String) : Option Nat :=
  let digits := match numeral.toList with
    | '+' :: cs => cs
    | cs => cs
  if digits.isEmpty || !digits.all Numeral.isDigit then none
  else
    let value := Numeral.value digits
    if value ≤ maxLimit then some value else none

/-- What is wrong with an argument. -/
inductive Refusal where
  /-- There is no assignment mode of this name. -/
  | assignMode (name : String)
  /-- This is no limit on calls. -/
  | callDepth (numeral : String)
  /-- There is no such option. -/
  | unknown (arg : String)
  deriving DecidableEq

/-- The words in which an argument is refused. -/
def Refusal.message : Refusal → String
  | .assignMode name => s!"invalid assignment mode '{name}' (expected 'local' or 'enclosing')"
  | .callDepth numeral => s!"invalid call depth '{numeral}'"
  | .unknown arg => s!"unknown option '{arg}'"

/-- The choices that the arguments make after the choices `o`, and the arguments that make none. -/
def readAfter (o : Options) : List String → Except Refusal (Options × List String)
  | [] => .ok (o, [])
  | arg :: args =>
    match textBehind? "--assign=" arg with
    | some name =>
      match AssignMode.ofName? name with
      | some mode => readAfter { o with assign := mode } args
      | none => .error (.assignMode name)
    | none =>
      match textBehind? "--max-depth=" arg with
      | some numeral =>
        match limit? numeral with
        | some limit => readAfter { o with maxDepth := some limit } args
        | none => .error (.callDepth numeral)
      | none =>
        if "-".toList.isPrefixOf arg.toList && arg != "-" then .error (.unknown arg)
        else (readAfter o args).map fun (o, others) => (o, arg :: others)

/-- The choices that the arguments make, and the arguments that make none. -/
def read (args : List String) : Except Refusal (Options × List String) := readAfter {} args

end RunOptions

end MonkeyLang
