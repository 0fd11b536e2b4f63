import MonkeyLang.Session
import MonkeyLang.Proofs.Numbered.Evaluation
import MonkeyLang.Proofs.Numbered.Names

/-!
# Runs and sessions with a name table

The run of a file that numbers its names has a table of the texts of the file. A session has one
table from its start to its end. All texts of a line are entered into it while the line is cut into
tokens, whatever becomes of the line, and numbers that have been given out stay in what the session
holds. What a run reports and what appears in a session does not depend on the numbers: it is the
same with names.

## Main definitions

* `Numbered.run` : the run of a file with a table.
* `Numbered.Session` : a session and its table.

## Main statements

* `Script.run_numbered` : what the run of a file with a table reports.
* `Session.converse_start_numbered` : what appears in a session with a table.
-/

namespace MonkeyLang

namespace Numbered

/-- How the program ends within the given number of steps, and the machine that it leaves. -/
def evalProgram (o : Options) (t : NameTable) (fuel : Nat) (p : List Stmt) (m : Machine) :
    Option (Ending × Machine) :=
  match eval o t fuel (.stmts p none) m with
  | .done v m => some (.completed v, m)
  | .signal s m => some (s.ending, m)
  | .outOfFuel => none

/-- Runs `source`, the text of the file `path`, with the given number of steps for evaluation. -/
def run (o : Options) (fuel : Nat) (path source : String) : Option Script.Report :=
  let parsed := Program.ofSource source
  let table := NameTable.initial.internAll (lex source).names
  if parsed.hasErrors then
    some ⟨.parseErrors, "", "", Script.errorLines path source parsed.errors⟩
  else
    (evalProgram o table fuel (Stmt.numberedAll table.number parsed.program) .initial).map
      fun (ending, m) => .ofEnding m.base.printed ending

/-- A session between two lines. -/
structure Session where
  /-- What has been chosen about evaluation. -/
  options : Options
  /-- The texts that have numbers. -/
  table : NameTable
  /-- What the lines so far have left. -/
  machine : Machine

namespace Session

/-- A session before its first line. -/
def start (o : Options) : Session := ⟨o, .initial, .initial⟩

/-- The table after a line has been cut into tokens. -/
def tableAfter (s : Session) (text : String) : NameTable := s.table.internAll (lex text).names

/-- Evaluates a line in the given number of steps. -/
def line (s : Session) (fuel : Nat) (text : String) : Option (Session.LineReport × Session) :=
  let parsed := Program.ofSource text
  let table := s.tableAfter text
  if parsed.hasErrors then
    some (⟨"", "parser errors:\n" ++ Session.errorLines text parsed.errors, none⟩, { s with table })
  else
    (evalProgram s.options table fuel (Stmt.numberedAll table.number parsed.program)
      { s.machine with base := { s.machine.base with printed := "" } }).map
      fun (ending, m) => (.ofEnding m.base ending, { s with table, machine := m })

/-- The rest of a session that reads the given lines. -/
def converse (s : Session) (fuel : Nat) : List (Option String) → Option Session.Conversation
  | [] => some ⟨[.shown Session.prompt, .shown "\n"], .code 0⟩
  | none :: _ => some ⟨[.shown Session.prompt], .unreadable⟩
  | some text :: lines =>
    if Blank.isBlankText text then
      (s.converse fuel lines).map (·.after [.shown Session.prompt])
    else
      match s.line fuel text with
      | none => none
      | some (report, s) =>
        let chunks := [.shown Session.prompt, .printed report.printed, .shown report.shown]
        match report.exit with
        | some code => some ⟨chunks, .code code⟩
        | none => (s.converse fuel lines).map (·.after chunks)

end Session

end Numbered

/-! ### Runs and sessions with names -/

/-- The session with the numbers that a table gives to its names. -/
def Session.numbered (t : NameTable) (s : Session) : Numbered.Session :=
  ⟨s.options, t, s.machine.numbered t.number⟩

/-- The report on a line shows no bindings and no bodies. -/
theorem Session.LineReport.ofEnding_nameless (m : Machine) (ending : Ending) :
    LineReport.ofEnding m.nameless ending = LineReport.ofEnding m ending := by
  match ending with
  | .completed (some v) =>
    have hrender : m.nameless.store.render v = m.store.render v :=
      m.store.looksLike_nameless.render v
    rw [ofEnding, hrender]
    rfl
  | .completed none | .failed _ | .exited _ => rfl

/-- The texts of a program without errors are in the table in which those of its source have been
entered. -/
theorem Program.mem_names_internAll {source : String} (t : NameTable)
    (h : (ofSource source).hasErrors = false) :
    ∀ x ∈ Stmt.namesAll (ofSource source).program,
      x ∈ (t.internAll (lex source).names).names := by
  have hnone : (ofSource source).errors = [] := by simpa [Parsed.hasErrors] using h
  exact fun x hx => t.mem_internAll (mem_names_of_source hnone x hx)

section

variable {t : NameTable} (ht : NameTable.initial.Grows t)
include ht

/-- A numbered program ends as the program does and leaves the machine with numbers. -/
theorem Program.eval_numbers (o : Options) (fuel : Nat) {p : Program} {m : Machine}
    (hp : ∀ x ∈ Stmt.namesAll p, x ∈ t.names) (hm : m.NamesIn t) :
    Numbered.evalProgram o t fuel (Stmt.numberedAll t.number p) (m.numbered t.number) =
        (eval o fuel p m).map (fun (ending, m') => (ending, m'.numbered t.number)) ∧
      ∀ r, eval o fuel p m = some r → r.2.NamesIn t := by
  have h := Task.eval_numbers ht o fuel (.stmts p none) hp hm
  rw [Task.eval] at h
  rw [Numbered.evalProgram, eval]
  obtain ⟨hnames, hnumbered⟩ := h
  rw [show Task.numbered t.number (.stmts p none) = .stmts (Stmt.numberedAll t.number p) none
    from rfl] at hnumbered
  rw [← hnumbered]
  cases hr : Stmt.evalAll o fuel p none m with
  | done v m' | signal s m' =>
    rw [hr] at hnames
    exact ⟨rfl, fun r h => Option.some.inj h ▸ hnames⟩
  | outOfFuel =>
    refine ⟨rfl, fun r h => ?_⟩
    cases h

namespace Session

variable {s : Session} (hs : s.machine.NamesIn t)
include hs

/-- A line does the same in the session with numbers. The names that the session then holds are in
the table that has grown by the texts of the line. -/
theorem line_numbered (fuel : Nat) (text : String) :
    (s.numbered t).line fuel text = (s.line fuel text).map (fun (report, s') =>
        (report, s'.numbered (t.internAll (lex text).names))) ∧
      ∀ r, s.line fuel text = some r → r.2.machine.NamesIn (t.internAll (lex text).names) := by
  have hgrows := t.grows_internAll (lex text).names
  have hnames := hs.grows hgrows
  have hmachine : (s.numbered t).machine =
      s.machine.numbered (t.internAll (lex text).names).number :=
    (Machine.numbered_grows hs hgrows).symm
  rw [Numbered.Session.line, line, hmachine, Numbered.Session.tableAfter]
  dsimp only [numbered]
  split
  next =>
    refine ⟨by rw [Option.map_some, Machine.numbered_grows hs hgrows], fun r hr => ?_⟩
    exact Option.some.inj hr ▸ hnames
  next herrors =>
    have hprogram := Program.mem_names_internAll t (by simpa using herrors)
    obtain ⟨heval, hleft⟩ := Program.eval_numbers (ht.trans hgrows) s.options fuel hprogram
      (m := { s.machine with printed := "" }) hnames
    refine ⟨?_, fun r hr => ?_⟩
    · refine (congrArg _ heval).trans ?_
      rw [Option.map_map, Option.map_map]
      refine congrFun (congrArg _ (funext fun r => ?_)) _
      exact Prod.ext (LineReport.ofEnding_nameless r.2 r.1) rfl
    · obtain ⟨r', hr', rfl⟩ := Option.map_eq_some_iff.1 hr
      exact hleft r' hr'

/-- The rest of a session shows the same with numbers. -/
theorem converse_numbered (fuel : Nat) (lines : List (Option String)) :
    (s.numbered t).converse fuel lines = s.converse fuel lines := by
  induction lines generalizing t s with
  | nil => rfl
  | cons line lines ih =>
    cases line with
    | none => rfl
    | some text =>
      rw [Numbered.Session.converse, converse]
      split
      · rw [ih ht hs]
      · obtain ⟨hline, hnames⟩ := line_numbered ht hs fuel text
        rw [hline]
        cases hr : s.line fuel text with
        | none => rfl
        | some r =>
          have hrest := ih (ht.trans (t.grows_internAll _)) (hnames r hr)
          cases hexit : r.1.exit with
          | some code => simp only [Option.map_some, hexit]
          | none => simp only [Option.map_some, hexit, hrest]

end Session

end

/-- What the run of a file reports does not depend on the numbers of names. -/
theorem Script.run_numbered (o : Options) (fuel : Nat) (path source : String) :
    Numbered.run o fuel path source = run o fuel path source := by
  rw [Numbered.run, run]
  dsimp only
  split
  next => rfl
  next herrors =>
    have hprogram := Program.mem_names_internAll .initial (by simpa using herrors)
    have heval := (Program.eval_numbers (NameTable.grows_internAll _ _) o fuel hprogram
      (Machine.namesIn_initial _)).1
    rw [Machine.numbered_initial] at heval
    rw [heval, Option.map_map]
    rfl

/-- What appears in a session does not depend on the numbers of names: it is what appears in the
session with names. -/
theorem Session.converse_start_numbered (o : Options) (fuel : Nat) (lines : List (Option String)) :
    (Numbered.Session.start o).converse fuel lines = (start o).converse fuel lines := by
  have hstart : Numbered.Session.start o = (start o).numbered .initial := by
    rw [numbered, start, Machine.numbered_initial, Numbered.Session.start]
  rw [hstart]
  exact converse_numbered (.refl _) (Machine.namesIn_initial _) fuel lines

end MonkeyLang
