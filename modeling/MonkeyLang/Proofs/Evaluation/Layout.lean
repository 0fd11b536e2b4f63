import MonkeyLang.Script
import MonkeyLang.Proofs.Evaluation.Spans
import MonkeyLang.Proofs.Parsing.Layout

/-!
# Layout

White space and comments tell tokens apart and give them their places, and that is all they do. Two
sources with tokens of the same kinds are read into the same program up to spans (`parse_alike`), and
programs that are the same up to spans run in the same way (`eval_strip`).

## Main statements

* `Script.run_layout` : what two layouts of the same tokens have in common.
-/

namespace MonkeyLang

theorem Machine.strip_initial : Machine.initial.strip = .initial := by
  simp [Machine.strip, Store.strip, Machine.initial]

/-- Programs that are the same up to spans end in the same way, with the same output. -/
theorem Program.eval_of_strip_eq {p q : Program} (h : p.strip = q.strip) (o : Options)
    (fuel : Nat) :
    (eval o fuel p .initial).map (fun r => (r.1, r.2.printed)) =
      (eval o fuel q .initial).map (fun r => (r.1, r.2.printed)) := by
  have hstrip (p : Program) :
      (eval o fuel p.strip .initial).map (fun r => (r.1, r.2.printed)) =
        (eval o fuel p .initial).map (fun r => (r.1, r.2.printed)) := by
    have heval := eval_strip o fuel p .initial
    rw [Machine.strip_initial] at heval
    rw [heval, Option.map_map]
    rfl
  rw [← hstrip p, h, hstrip q]

namespace Script

/-- What a report says without speaking of places in the source: all but what is shown on the error
channel. -/
def Report.placeless (r : Report) : Status × String × String := (r.status, r.printed, r.out)

/-- A run goes by the program up to spans and by whether there are errors. -/
theorem run_of_strip_eq {source source' : String}
    (hstrip : (Program.ofSource source).program.strip = (Program.ofSource source').program.strip)
    (herrors : (Program.ofSource source).hasErrors = (Program.ofSource source').hasErrors)
    (o : Options) (fuel : Nat) (path path' : String) :
    (run o fuel path source).map Report.placeless =
      (run o fuel path' source').map Report.placeless := by
  have hending := congrArg (Option.map fun r => (Report.ofEnding r.2 r.1).placeless)
    (Program.eval_of_strip_eq hstrip o fuel)
  simp only [Option.map_map] at hending
  rw [run, run]
  dsimp only
  rw [herrors]
  split
  · rfl
  · rw [Option.map_map, Option.map_map]
    exact hending

/-- The layout of a source does not matter. If two sources are cut without errors into tokens of the
same kinds, they contain the same program up to spans, and there are errors in the structure of both
or of none. A run of the one ends if a run of the other does, after as many steps, with the same
status and the same output. -/
theorem run_layout {source source' : String} (h : (lex source).errors = [])
    (h' : (lex source').errors = [])
    (hkinds : (lex source).tokens.map (·.kind) = (lex source').tokens.map (·.kind)) :
    (Program.ofSource source).program.strip = (Program.ofSource source').program.strip ∧
    (Program.ofSource source).hasErrors = (Program.ofSource source').hasErrors ∧
    ∀ o fuel path path', (run o fuel path source).map Report.placeless =
      (run o fuel path' source').map Report.placeless := by
  have hreported : (lex source).errors.map ParseError.ofLexError = [] ↔
      (lex source').errors.map ParseError.ofLexError = [] := by
    rw [h, h']
  obtain ⟨hstrip, herrors⟩ := Program.parse_alike hkinds hreported
  exact ⟨hstrip, herrors, run_of_strip_eq hstrip herrors⟩

/-- A program in one line. -/
def narrow : String := "let n=3;n=n*n;print(n-1)"

/-- The same program in three lines, with a comment. -/
def wide : String := "let n = 3; // a side\n\tn = n * n;\nprint( n - 1 )"

/-- Both layouts print the same number. -/
theorem run_layout_narrow_wide :
    (lex narrow).errors = [] ∧ (lex wide).errors = [] ∧
    (lex narrow).tokens.map (·.kind) = (lex wide).tokens.map (·.kind) ∧
    run {} 20 "narrow.monkey" narrow = some ⟨.completed, "8\n", "", ""⟩ ∧
    (run {} 20 "narrow.monkey" narrow).map Report.placeless =
      (run {} 20 "wide.monkey" wide).map Report.placeless :=
  ⟨by decide +kernel, by decide +kernel, by decide +kernel, by decide +kernel,
    (run_layout (by decide +kernel) (by decide +kernel) (by decide +kernel)).2.2 {} 20 _ _⟩

end Script

end MonkeyLang
