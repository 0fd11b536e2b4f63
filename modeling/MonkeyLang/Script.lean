import MonkeyLang.Eval
import MonkeyLang.Program.Parser

/-!
# Scripts

The run of a whole source text. A text with errors in it is not evaluated: its errors are listed and
nothing else happens. Otherwise the program is evaluated from scratch, and a runtime error is shown
after everything that the program has printed.
-/

namespace MonkeyLang

namespace Script

/-- How a run ended. -/
inductive Status where
  /-- The program has been evaluated to its end. -/
  | completed
  /-- The text has errors; nothing has been evaluated. -/
  | parseErrors
  /-- A runtime error has ended the program. -/
  | runtimeError
  /-- The program has called `exit`. -/
  | exited (code : Nat)
  deriving DecidableEq

/-- The exit code that tells how a run ended. -/
def Status.exitCode : Status → Nat
  | .completed => 0
  | .parseErrors | .runtimeError => 1
  | .exited code => code

/-- What a run has brought about. -/
structure Report where
  /-- How it ended. -/
  status : Status
  /-- What the program has printed. -/
  printed : String
  /-- What is shown after that. -/
  out : String
  /-- What is shown on the error channel. -/
  err : String
  deriving DecidableEq

/-- The lines that report the errors in the file `path` with the text `source`. -/
def errorLines (path source : String) : List ParseError → String
  | [] => ""
  | e :: es => e.located path source ++ "\n" ++ errorLines path source es

/-- The line that shows a runtime error. -/
def failureLine (e : RuntimeError) : String := "ERROR: " ++ e.message ++ "\n"

/-- The report on a program that has been evaluated. -/
def Report.ofEnding (printed : String) : Ending → Report
  | .completed _ => ⟨.completed, printed, "", ""⟩
  | .failed e => ⟨.runtimeError, printed, failureLine e, ""⟩
  | .exited code => ⟨.exited code, printed, "", ""⟩

/-- Runs `source`, the text of the file `path`, with the given number of steps for evaluation. -/
def run (o : Options) (fuel : Nat) (path source : String) : Option Report :=
  let parsed := Program.ofSource source
  if parsed.hasErrors then
    some ⟨.parseErrors, "", "", errorLines path source parsed.errors⟩
  else
    (Program.eval o fuel parsed.program .initial).map fun (ending, m) =>
      .ofEnding m.printed ending

end Script

end MonkeyLang
