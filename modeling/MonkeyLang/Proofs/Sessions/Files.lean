import MonkeyLang.Session
import MonkeyLang.Proofs.Display.ReadBack
import MonkeyLang.Proofs.Evaluation.Following
import MonkeyLang.Proofs.Evaluation.Fuel
import MonkeyLang.Proofs.Evaluation.Layout
import MonkeyLang.Proofs.Lexing.Lines
import MonkeyLang.Proofs.Parsing.Joining

/-!
# Files and the sessions of their lines

A file whose lines are complete does what a session does that is given the lines one by one, up to
the first line that ends early: with a runtime error, with `exit` or with a `return`. The session
goes on after such a line, the file does not.

The lines are read into the programs whose statements, one after the other, are the program of the
file up to spans. What a line has printed is kept apart from the others by the session and added to
what there is by the file, which evaluation does not notice.

## Main definitions

* `Session.entries` : what the lines of a session bring about.
* `Script.Report.ofEntries` : the report on a file, made from the entries of its lines.

## Main statements

* `Script.run_joined` : the run of a file and the session of its lines.
-/

namespace MonkeyLang

namespace Session

/-- What a line has brought about, with the signal that has ended its program, if one has. -/
structure Entry where
  /-- The report on the line. -/
  report : LineReport
  /-- The signal that has ended its program. -/
  signal : Option Signal
  deriving DecidableEq

/-- The signal that ends the program of a line, if one does. -/
def signal? (s : Session) (fuel : Nat) (text : String) : Option Signal :=
  match Stmt.evalAll s.options fuel (Program.ofSource text).program none
    { s.machine with printed := "" } with
  | .signal signal _ => some signal
  | _ => none

/-- What the given lines bring about, one after the other, however each of them ends. -/
def entries (fuel : Nat) : Session → List String → Option (List Entry)
  | _, [] => some []
  | s, text :: texts =>
    (s.line fuel text).bind fun (report, s') =>
      (entries fuel s' texts).map (⟨report, s.signal? fuel text⟩ :: ·)

end Session

/-- A line that can stand before others in a file: it has no errors, and its last token is a
semicolon, if it has any. -/
structure CompleteLine (text : String) : Prop where
  /-- There are no errors. -/
  noErrors : (Program.ofSource text).hasErrors = false
  /-- The last token is a semicolon, if there is one. -/
  closed : (lex text).tokens.map (·.kind) = [.eof] ∨
    ∃ ks, (lex text).tokens.map (·.kind) = ks ++ [.semicolon, .eof]

namespace Script

/-- The report on a file whose lines have the given entries in a session. The first line that has
ended with a signal is the last one that counts. -/
def Report.ofEntries : List Session.Entry → Report
  | [] => ⟨.completed, "", "", ""⟩
  | ⟨line, none⟩ :: es => { ofEntries es with printed := line.printed ++ (ofEntries es).printed }
  | ⟨line, some (.returned _)⟩ :: _ => ⟨.completed, line.printed, "", ""⟩
  | ⟨line, some (.failed _)⟩ :: _ => ⟨.runtimeError, line.printed, line.shown, ""⟩
  | ⟨line, some (.exited code)⟩ :: _ => ⟨.exited code, line.printed, "", ""⟩

/-- The report on a program whose statements have ended with the given outcome. -/
def Report.ofOutcome : Outcome (Option Value) → Option Report
  | .done v m => some (.ofEnding m.printed (.completed v))
  | .signal s m => some (.ofEnding m.printed s.ending)
  | .outOfFuel => none

end Script

/-! ### The program of a file -/

/-- The words of a text, without the end of the input. -/
def words (text : String) : List TokenKind := ((lex text).tokens.map (·.kind)).dropLast

/-- What a complete line is read as. -/
theorem CompleteLine.statements {text : String} (h : CompleteLine text) :
    Cuts text.toList (words text) ∧ Grammar.Closed (words text) ∧
      Grammar.Statements (words text) (Program.ofSource text).program.strip := by
  have hnone : (Program.ofSource text).errors = [] := by
    simpa [Parsed.hasErrors] using h.noErrors
  obtain ⟨ks, hk, -, hs⟩ := Program.statements_of_source hnone
  have hwords : words text = ks := by rw [words, hk, List.dropLast_concat]
  rw [hwords]
  refine ⟨cuts_of_lex (Program.ofSource_eq_ofTokens hnone).1 hk, ?_, hs⟩
  rintro js k rfl
  have hclosed := h.closed
  rw [hk] at hclosed
  obtain hc | ⟨ls, hc⟩ := hclosed
  · exact absurd (congrArg List.length hc) (by simp)
  · rw [List.append_cons ls .semicolon] at hc
    exact List.singleton_inj.1 (List.append_inj_right' (List.append_cancel_right hc) rfl)

theorem Stmt.stripAll_append (ss ts : List Stmt) :
    Stmt.stripAll (ss ++ ts) = Stmt.stripAll ss ++ Stmt.stripAll ts := by
  induction ss with
  | nil => rfl
  | cons s ss ih => rw [List.cons_append, Stmt.stripAll, Stmt.stripAll, ih, List.cons_append]

theorem Program.strip_flatMap {α : Type} (f : α → Program) (as : List α) :
    Program.strip (as.flatMap f) = as.flatMap fun a => (f a).strip := by
  induction as with
  | nil => rfl
  | cons a as ih =>
    rw [List.flatMap_cons, List.flatMap_cons, ← ih]
    exact Stmt.stripAll_append ..

/-- A file of complete lines is read without errors, as the programs of its lines one after the
other. -/
theorem Program.ofSource_joined {lines : List String} (h : ∀ line ∈ lines, CompleteLine line) :
    (ofSource (String.intercalate "\n" lines)).hasErrors = false ∧
      (ofSource (String.intercalate "\n" lines)).program.strip =
        Program.strip (lines.flatMap fun line => (ofSource line).program) := by
  have hcuts : Cuts (String.intercalate "\n" lines).toList (lines.flatMap words) :=
    cuts_joined fun line hline => (h line hline).statements.1
  have hlex : (lex (String.intercalate "\n" lines)).errors = [] ∧
      (lex (String.intercalate "\n" lines)).tokens.map (·.kind) = lines.flatMap words ++ [.eof] :=
    hcuts 0
  have hof : ofSource (String.intercalate "\n" lines) =
      ofTokens (lex (String.intercalate "\n" lines)).tokens := by
    rw [ofSource, hlex.1]
    rfl
  have hstatements := Grammar.statements_flatMap fun line hline => (h line hline).statements.2
  obtain ⟨hnone, hstrip⟩ := ofTokens_of_statements hlex.2 hstatements
  rw [hof, Parsed.hasErrors, hnone, hstrip, strip_flatMap]
  exact ⟨rfl, rfl⟩

/-! ### The evaluation of a file -/

namespace Stmt

variable {o : Options} {n : Nat} {ss : List Stmt} {m m' : Machine}

/-- The value that stands before statements matters only if there is no statement. -/
theorem exists_evalAll_eq_done {v : Option Value} (h : evalAll o n ss none m = .done v m')
    (last : Option Value) : ∃ w, evalAll o n ss last m = .done w m' := by
  cases n with
  | zero => simp [evalAll] at h
  | succ n =>
    cases ss with
    | nil =>
      obtain ⟨-, rfl⟩ : _ ∧ m = m' := by simpa [evalAll] using h
      exact ⟨last, rfl⟩
    | cons s ss => exact ⟨v, h⟩

theorem evalAll_eq_signal {s : Signal} (h : evalAll o n ss none m = .signal s m')
    (last : Option Value) : evalAll o n ss last m = .signal s m' := by
  cases n with
  | zero => simp [evalAll] at h
  | succ n =>
    cases ss with
    | nil => simp [evalAll] at h
    | cons s ss => exact h

end Stmt

/-- The machine, with `text` as what has been printed. -/
def Machine.withPrinted (m : Machine) (text : String) : Machine := { m with printed := text }

/-- A machine that has printed `text` goes on as one that has printed nothing. -/
theorem Machine.following_withPrinted (m : Machine) (text : String) :
    (m.withPrinted "").following text 0 = m.withPrinted text := by
  simp only [withPrinted, following, String.append_empty, Nat.zero_max]

theorem Machine.following_eq_withPrinted (m : Machine) (text : String) :
    m.following text 0 = m.withPrinted (text ++ m.printed) := by
  simp only [withPrinted, following, Nat.zero_max]

/-- The entries of lines of which the first has no errors: its program ends without a signal or with
one. -/
theorem Session.entries_cons {fuel : Nat} {line : String} {lines : List String} {s : Session}
    {es : List Entry} (hline : (Program.ofSource line).hasErrors = false)
    (h : s.entries fuel (line :: lines) = some es) :
    (∃ v m es', Stmt.evalAll s.options fuel (Program.ofSource line).program none
        (s.machine.withPrinted "") = .done v m ∧
      entries fuel { s with machine := m } lines = some es' ∧
      es = ⟨.ofEnding m (.completed v), none⟩ :: es') ∨
    ∃ signal m es', Stmt.evalAll s.options fuel (Program.ofSource line).program none
        (s.machine.withPrinted "") = .signal signal m ∧
      es = ⟨.ofEnding m signal.ending, some signal⟩ :: es' := by
  have hmachine : { s.machine with printed := "" } = s.machine.withPrinted "" := rfl
  rw [entries, Session.line] at h
  simp only [hline, Bool.false_eq_true, if_false, Program.eval, signal?, hmachine] at h
  cases hr : Stmt.evalAll s.options fuel (Program.ofSource line).program none
      (s.machine.withPrinted "") with
  | outOfFuel => simp [hr] at h
  | done v m =>
    simp only [hr, Option.map_some, Option.bind_some] at h
    obtain ⟨es', hes, rfl⟩ := Option.map_eq_some_iff.1 h
    exact .inl ⟨v, m, es', rfl, hes, rfl⟩
  | signal signal m =>
    simp only [hr, Option.map_some, Option.bind_some] at h
    obtain ⟨es', -, rfl⟩ := Option.map_eq_some_iff.1 h
    exact .inr ⟨signal, m, es', rfl, rfl⟩

@[simp] theorem Session.LineReport.printed_ofEnding (m : Machine) (e : Ending) :
    (LineReport.ofEnding m e).printed = m.printed := by
  match e with
  | .completed none | .completed (some _) | .failed _ | .exited _ => rfl

namespace Script

/-- The report when `text` has been printed before. -/
def Report.behind (r : Report) (text : String) : Report := { r with printed := text ++ r.printed }

theorem Report.behind_empty (r : Report) : r.behind "" = r := by
  simp only [behind, String.empty_append]

/-- The statements of a file, after what the lines before them have printed, are evaluated to what the
entries of its lines tell. -/
theorem report_of_entries {fuel : Nat} {lines : List String} {s : Session}
    {es : List Session.Entry} (hlines : ∀ line ∈ lines, (Program.ofSource line).hasErrors = false)
    (h : s.entries fuel lines = some es) (text : String) (last : Option Value) :
    ∃ n, Report.ofOutcome (Stmt.evalAll s.options n
      (lines.flatMap fun line => (Program.ofSource line).program) last
      (s.machine.withPrinted text)) = some ((Report.ofEntries es).behind text) := by
  induction lines generalizing s es text last with
  | nil =>
    obtain rfl : [] = es := by simpa [Session.entries] using h
    exact ⟨1, congrArg (fun t => some (⟨.completed, t, "", ""⟩ : Report))
      (String.append_empty (s := text)).symm⟩
  | cons line lines ih =>
    obtain ⟨hline, hlines⟩ := List.forall_mem_cons.1 hlines
    have hbehind := Task.eval_following text 0 s.options fuel
      (.stmts (Program.ofSource line).program none) (s.machine.withPrinted "")
    rw [Machine.following_withPrinted, Task.eval, Task.eval] at hbehind
    rw [List.flatMap_cons]
    obtain ⟨v, m, es', hr, hes, rfl⟩ | ⟨signal, m, es', hr, rfl⟩ := Session.entries_cons hline h
    · rw [hr, Outcome.mapMachine, Machine.following_eq_withPrinted] at hbehind
      obtain ⟨w, hw⟩ := Stmt.exists_evalAll_eq_done hbehind.symm last
      obtain ⟨k, hk⟩ := ih hlines hes (text ++ m.printed) w
      have hends : Stmt.evalAll s.options k (lines.flatMap fun line => (Program.ofSource line).program)
          w (m.withPrinted (text ++ m.printed)) ≠ .outOfFuel := by
        intro hout
        rw [hout] at hk
        cases hk
      obtain ⟨n, hn⟩ := Stmt.exists_evalAll_append hw hends
      refine ⟨n, ?_⟩
      rw [hn, hk]
      simp only [Report.ofEntries, Report.behind, Session.LineReport.printed_ofEnding,
        String.append_assoc]
    · rw [hr, Outcome.mapMachine, Machine.following_eq_withPrinted] at hbehind
      refine ⟨fuel, ?_⟩
      rw [Stmt.evalAll_append_of_signal (Stmt.evalAll_eq_signal hbehind.symm last)]
      cases signal <;> rfl

theorem ofOutcome_evalAll (o : Options) (fuel : Nat) (p : Program) (m : Machine) :
    Report.ofOutcome (Stmt.evalAll o fuel p none m) =
      ((Program.eval o fuel p m).map fun r => (r.1, r.2.printed)).map
        fun r => .ofEnding r.2 r.1 := by
  rw [Program.eval]
  cases Stmt.evalAll o fuel p none m <;> rfl

/-- A run without errors reports on the outcome of its statements. -/
theorem run_eq_ofOutcome {source : String} (h : (Program.ofSource source).hasErrors = false)
    (o : Options) (fuel : Nat) (path : String) :
    run o fuel path source =
      Report.ofOutcome (Stmt.evalAll o fuel (Program.ofSource source).program none .initial) := by
  rw [ofOutcome_evalAll, Option.map_map, run]
  simp only [h, Bool.false_eq_true, if_false]
  rfl

/-- A run that ends ends in the same way with more steps. -/
theorem run_mono {o : Options} {n k : Nat} {path source : String} {r : Report} (hnk : n ≤ k)
    (h : run o n path source = some r) : run o k path source = some r := by
  cases herrors : (Program.ofSource source).hasErrors with
  | true => simpa only [run, herrors, if_true] using h
  | false =>
    rw [run_eq_ofOutcome herrors] at h ⊢
    rw [Stmt.evalAll_mono hnk, h]
    intro hout
    rw [hout] at h
    cases h

/-- A file whose lines are complete does what a session does that is given the lines one by one. If
the session gets through all of them, the run of the file ends. What it prints is what the session
has printed up to and including the first line whose program has ended with a runtime error, with
`exit` or with a `return`, and its status is that runtime error with the message that the session has
shown, that exit code, or that the program is completed. No run of the file ends in another way. -/
theorem run_joined {o : Options} {fuel : Nat} {lines : List String} {es : List Session.Entry}
    (hlines : ∀ line ∈ lines, CompleteLine line)
    (h : (Session.start o).entries fuel lines = some es) (path : String) :
    (∃ n, run o n path (String.intercalate "\n" lines) = some (.ofEntries es)) ∧
      ∀ n r, run o n path (String.intercalate "\n" lines) = some r → r = .ofEntries es := by
  have hrun : ∃ n, run o n path (String.intercalate "\n" lines) = some (.ofEntries es) := by
    obtain ⟨herrors, hstrip⟩ := Program.ofSource_joined hlines
    obtain ⟨n, hn⟩ := report_of_entries (fun line hline => (hlines line hline).noErrors) h "" none
    refine ⟨n, ?_⟩
    rw [run_eq_ofOutcome herrors, ofOutcome_evalAll, Program.eval_of_strip_eq hstrip,
      ← ofOutcome_evalAll]
    exact hn.trans (congrArg some (Report.behind_empty _))
  obtain ⟨n, hn⟩ := hrun
  refine ⟨⟨n, hn⟩, fun k r hk => ?_⟩
  exact Option.some.inj
    ((run_mono (Nat.le_max_right n k) hk).symm.trans (run_mono (Nat.le_max_left n k) hn))

/-- Lines of which the fourth one fails. -/
def failing : List String :=
  ["let n = 3; // three", "  ", "print(n);", "n + true;", "print(0);"]

/-- The session goes on after the line that fails, the file does not. -/
theorem run_joined_failing :
    (∀ line ∈ failing, CompleteLine line) ∧
    ∃ es, (Session.start {}).entries 20 failing = some es ∧ es.length = 5 ∧
      Report.ofEntries es =
        ⟨.runtimeError, "3\n", "ERROR: type mismatch: INTEGER + BOOLEAN\n", ""⟩ ∧
      (∃ n, run {} n "failing.monkey" (String.intercalate "\n" failing) = some (.ofEntries es)) ∧
      ∀ n r, run {} n "failing.monkey" (String.intercalate "\n" failing) = some r →
        r = .ofEntries es := by
  have hlines : ∀ line ∈ failing, CompleteLine line := by
    simp only [failing, List.forall_mem_cons, List.not_mem_nil, false_implies, implies_true,
      and_true]
    exact ⟨⟨by decide +kernel, .inr ⟨[.letKw, .ident "n", .assign, .int 3], by decide +kernel⟩⟩,
      ⟨by decide +kernel, .inl (by decide +kernel)⟩,
      ⟨by decide +kernel, .inr ⟨[.ident "print", .lparen, .ident "n", .rparen],
        by decide +kernel⟩⟩,
      ⟨by decide +kernel, .inr ⟨[.ident "n", .plus, .trueKw], by decide +kernel⟩⟩,
      ⟨by decide +kernel, .inr ⟨[.ident "print", .lparen, .int 0, .rparen],
        by decide +kernel⟩⟩⟩
  have hends : ((Session.start {}).entries 20 failing).map (fun es => (es.length, Report.ofEntries es)) =
      some (5, ⟨.runtimeError, "3\n", "ERROR: type mismatch: INTEGER + BOOLEAN\n", ""⟩) := by
    decide +kernel
  refine ⟨hlines, ?_⟩
  obtain ⟨es, hes, hreport⟩ := Option.map_eq_some_iff.1 hends
  obtain ⟨hlength, hreport⟩ := Prod.mk.inj hreport
  exact ⟨es, hes, hlength, hreport, run_joined hlines hes "failing.monkey"⟩

end Script

end MonkeyLang
