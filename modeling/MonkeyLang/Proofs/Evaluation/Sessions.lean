import MonkeyLang.Proofs.Evaluation.CallDepth
import MonkeyLang.Proofs.Evaluation.Following

/-!
# Programs one after the other

Whatever a program does and however it ends, the machine comes back to the frame in which the program
was begun, with as many calls under way. So it makes no difference to a session whether its programs
are evaluated by one machine or each by a new one over the same store.

## Main statements

* `Program.leaves_place` : where a program leaves the machine, and what that means for sessions.
-/

namespace MonkeyLang

/-- A new machine that works on what the machine has made and printed. It starts in the frame `root`,
with no calls under way or on record. -/
def Machine.fresh (root : FrameId) (m : Machine) : Machine :=
  { Machine.initial with store := m.store, frame := root, printed := m.printed }

/-- A machine that is in the frame `root`, with no calls under way, differs from a new one in the
calls on record only. -/
theorem Machine.following_eq_fresh (root : FrameId) {m : Machine} (hframe : m.frame = root)
    (hdepth : m.depth = 0) (peak : Nat) :
    m.following "" peak = (m.fresh root).following "" (max peak m.peak) := by
  simp only [following, fresh, hframe, hdepth, initial, Nat.max_zero]

namespace Program

variable {o : Options} {fuel : Nat}

/-- What holds of the machine that the statements leave holds of that which the program leaves. -/
theorem leaves_of_eval {P : Machine → Prop} {p : Program} {m m' : Machine} {ending : Ending}
    (h : (Stmt.evalAll o fuel p none m).Leaves P) (heval : eval o fuel p m = some (ending, m')) :
    P m' := by
  rw [eval] at heval
  generalize Stmt.evalAll o fuel p none m = r at h heval
  cases r with
  | done v m₁ => exact (Prod.mk.inj (Option.some.inj heval)).2 ▸ h
  | signal s m₁ => exact (Prod.mk.inj (Option.some.inj heval)).2 ▸ h
  | outOfFuel => cases heval

/-- The machine comes back to where it was. -/
theorem samePlace_of_eval {p : Program} {m m' : Machine} {ending : Ending}
    (h : eval o fuel p m = some (ending, m')) : SamePlace m m' :=
  leaves_of_eval (((kept_samePlace o).keptIn fuel).stmts p none m) h

/-- Evaluates programs one after the other, each in what `prepare` makes of the machine that the one
before it has left. Answers how they ended and the machines that they left. -/
def evalEach (o : Options) (fuel : Nat) (prepare : Machine → Machine) :
    List Program → Machine → Option (List (Ending × Machine))
  | [], _ => some []
  | p :: ps, m =>
    (eval o fuel p (prepare m)).bind fun r =>
      (evalEach o fuel prepare ps r.2).map fun rs => r :: rs

/-- How a program ended, with the store and the output that it left. -/
def seen (r : Ending × Machine) : Ending × Store × String := (r.1, r.2.store, r.2.printed)

/-- A session is seen in the same way on new machines, whatever calls the one machine has on
record. -/
theorem evalEach_following (root : FrameId) (ps : List Program) (m : Machine) (peak : Nat) :
    (evalEach o fuel id ps ((m.fresh root).following "" peak)).map (·.map seen) =
      (evalEach o fuel (Machine.fresh root) ps m).map (·.map seen) := by
  induction ps generalizing m peak with
  | nil => rfl
  | cons p ps ih =>
    rw [evalEach, evalEach, id, eval_following]
    cases hr : eval o fuel p (m.fresh root) with
    | none => rfl
    | some r =>
      obtain ⟨ending, m'⟩ := r
      obtain ⟨hframe, hdepth⟩ := samePlace_of_eval hr
      have hrest := ih m' (max peak m'.peak)
      rw [← Machine.following_eq_fresh root hframe hdepth] at hrest
      have hseen : seen (ending, m'.following "" peak) = seen (ending, m') := by
        simp only [seen, Machine.following, String.empty_append]
      simpa [Option.map_map, Function.comp_def, hseen] using
        congrArg (Option.map (seen (ending, m') :: ·)) hrest

/-- However a program ends, the machine is in the frame in which it was, and as many calls are under
way. So in every session over the frame `root`, evaluating each program in a new machine, over what
the programs before it have made and printed, gives the same endings, stores and outputs as evaluating
all of them in one machine. -/
theorem leaves_place (o : Options) (fuel : Nat) :
    (∀ p m ending m', eval o fuel p m = some (ending, m') →
      m'.frame = m.frame ∧ m'.depth = m.depth) ∧
    ∀ root ps m, (evalEach o fuel (Machine.fresh root) ps m).map (·.map seen) =
      (evalEach o fuel id ps (m.fresh root)).map (·.map seen) := by
  refine ⟨fun p m ending m' h => samePlace_of_eval h, fun root ps m => ?_⟩
  have h : (m.fresh root).following "" 0 = m.fresh root := by
    simp only [Machine.following, Machine.fresh, Machine.initial, String.empty_append, Nat.max_self]
  rw [← evalEach_following root ps m 0, h]

/-- The program `fn(g) { g(g) }(fn(g) { exit() })`, which ends two calls deep. -/
def leaving : Program :=
  let g : Expr := .ident "g" .nowhere
  let outer : Block := ⟨[.expr (.call g [g] .nowhere) .nowhere], .nowhere⟩
  let inner : Block := ⟨[.expr (.call (.ident "exit" .nowhere) [] .nowhere) .nowhere], .nowhere⟩
  [.expr (.call (.function ["g"] outer .nowhere .nowhere)
    [.function ["g"] inner .nowhere .nowhere] .nowhere) .nowhere]

/-- The program has left the machine where it was. -/
theorem leaves_place_leaving :
    (∃ m', eval {} 20 leaving .initial = some (.exited 0, m')) ∧
    (∀ p m ending m', eval {} 20 p m = some (ending, m') →
      m'.frame = m.frame ∧ m'.depth = m.depth) ∧
    ∀ root ps m, (evalEach {} 20 (Machine.fresh root) ps m).map (·.map seen) =
      (evalEach {} 20 id ps (m.fresh root)).map (·.map seen) :=
  ⟨⟨_, rfl⟩, leaves_place {} 20⟩

end Program

end MonkeyLang
