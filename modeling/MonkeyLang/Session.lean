import MonkeyLang.Script
import MonkeyLang.Store.Render
import MonkeyLang.Text.Blank

/-!
# Sessions

An interactive session evaluates one line after the other. What a line binds stays bound for the
lines after it, also when the line ends with an error. A line with errors in it is not evaluated and
leaves nothing behind.

## Main definitions

* `Session.line` : the evaluation of one line.
* `Session.converse` : a whole session, from its input to all that is shown.
-/

namespace MonkeyLang

/-- A session between two lines. -/
structure Session where
  /-- What has been chosen about evaluation. -/
  options : Options
  /-- What the lines so far have left. -/
  machine : Machine

namespace Session

/-- A session before its first line. -/
def start (o : Options) : Session := ⟨o, .initial⟩

/-- The banner that greets `user`. -/
def greeting (user : String) : String :=
  "Hello " ++ user ++ "! This is the Monkey programming language!\n" ++
    "Feel free to type in commands\n"

/-- What is shown when a line can be entered. -/
def prompt : String := ">> "

/-- What a line has brought about. -/
structure LineReport where
  /-- What has been printed. -/
  printed : String
  /-- What is shown after that. -/
  shown : String
  /-- The exit code, if the line has ended the session. -/
  exit : Option Nat
  deriving DecidableEq

/-- The lines that list the errors in `line`, each with its column. -/
def errorLines (line : String) : List ParseError → String
  | [] => ""
  | e :: es =>
    "\t" ++ toString (e.span.position line).column ++ ": " ++ e.message ++ "\n" ++
      errorLines line es

/-- The report on a line that has been evaluated and has left the machine `m`. -/
def LineReport.ofEnding (m : Machine) : Ending → LineReport
  | .completed none => ⟨m.printed, "", none⟩
  | .completed (some v) => ⟨m.printed, m.store.render v ++ "\n", none⟩
  | .failed e => ⟨m.printed, Script.failureLine e, none⟩
  | .exited code => ⟨m.printed, "", some code⟩

/-- Evaluates a line in the given number of steps. -/
def line (s : Session) (fuel : Nat) (text : String) : Option (LineReport × Session) :=
  let parsed := Program.ofSource text
  if parsed.hasErrors then
    some (⟨"", "parser errors:\n" ++ errorLines text parsed.errors, none⟩, s)
  else
    (Program.eval s.options fuel parsed.program { s.machine with printed := "" }).map
      fun (ending, m) => (.ofEnding m ending, { s with machine := m })

/-! ### Whole sessions -/

/-- A piece of what appears in a session. -/
inductive Chunk where
  /-- Shown by the session itself. -/
  | shown (text : String)
  /-- Printed by a program. -/
  | printed (text : String)
  deriving DecidableEq

/-- How a session ended. -/
inductive Closing where
  /-- With an exit code, at the end of the input or by `exit`. -/
  | code (code : Nat)
  /-- With a line that is no text. -/
  | unreadable
  deriving DecidableEq

/-- All that appears in a session, in order, and how it ended. -/
structure Conversation where
  /-- What appears. -/
  chunks : List Chunk
  /-- How the session ended. -/
  closing : Closing
  deriving DecidableEq

namespace Conversation

/-- What the session itself has shown. -/
def shown (c : Conversation) : String :=
  c.chunks.foldl (fun s chunk => match chunk with | .shown t => s ++ t | .printed _ => s) ""

/-- What programs have printed. -/
def printed (c : Conversation) : String :=
  c.chunks.foldl (fun s chunk => match chunk with | .shown _ => s | .printed t => s ++ t) ""

/-- All that appears, whoever has written it. -/
def all (c : Conversation) : String :=
  c.chunks.foldl (fun s chunk => match chunk with | .shown t => s ++ t | .printed t => s ++ t) ""

/-- The conversation after the chunks `cs`. -/
def after (c : Conversation) (cs : List Chunk) : Conversation :=
  { c with chunks := cs ++ c.chunks }

end Conversation

/-- The line at the front of the bytes of an input, with its line feed, and what follows it. -/
def splitLine : List UInt8 → List UInt8 × List UInt8
  | [] => ([], [])
  | b :: bs =>
    if b = 10 then ([b], bs)
    else (b :: (splitLine bs).1, (splitLine bs).2)

theorem length_splitLine_le (bs : List UInt8) : (splitLine bs).2.length ≤ bs.length := by
  fun_induction splitLine bs <;> simp_all
  omega

theorem length_splitLine_cons_lt (b : UInt8) (bs : List UInt8) :
    (splitLine (b :: bs)).2.length < (b :: bs).length := by
  have shorter := length_splitLine_le bs
  unfold splitLine
  split
  · exact Nat.lt_succ_self _
  · exact Nat.lt_succ_of_le shorter

/-- The lines of an input, each with its line feed; a line that is no text is none. -/
def inputLines : List UInt8 → List (Option String)
  | [] => []
  | b :: bs =>
    String.fromUTF8? (splitLine (b :: bs)).1.toByteArray :: inputLines (splitLine (b :: bs)).2
termination_by bs => bs.length
decreasing_by exact length_splitLine_cons_lt b bs

/-- The rest of a session that reads the given lines. A prompt stands before every line and before
the end of the input. Blank lines are passed over. -/
def converse (s : Session) (fuel : Nat) : List (Option String) → Option Conversation
  | [] => some ⟨[.shown prompt, .shown "\n"], .code 0⟩
  | none :: _ => some ⟨[.shown prompt], .unreadable⟩
  | some text :: lines =>
    if Blank.isBlankText text then
      (s.converse fuel lines).map (·.after [.shown prompt])
    else
      match s.line fuel text with
      | none => none
      | some (report, s) =>
        let chunks := [.shown prompt, .printed report.printed, .shown report.shown]
        match report.exit with
        | some code => some ⟨chunks, .code code⟩
        | none => (s.converse fuel lines).map (·.after chunks)

end Session

end MonkeyLang
