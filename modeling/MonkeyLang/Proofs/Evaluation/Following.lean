import MonkeyLang.Proofs.Evaluation.Plan

/-!
# What evaluation does not read

A machine records what has been printed and the most calls that have been under way. Evaluation only
adds to these records. So an evaluation that follows an earlier one does what it would do with empty
records, and what it records comes behind what is there already.

## Main statements

* `Program.eval_following` : the evaluation of a program after an earlier evaluation.
-/

namespace MonkeyLang

variable {α β : Type} (text : String) (peak : Nat)

/-- The machine as it is after an earlier evaluation that has printed `text` and had at most `peak`
calls under way. -/
def Machine.following (m : Machine) : Machine :=
  { m with printed := text ++ m.printed, peak := max peak m.peak }

namespace Outcome

/-- The same ending, in the machine that `f` makes of the machine. -/
def mapMachine (f : Machine → Machine) : Outcome α → Outcome α
  | .done a m => .done a (f m)
  | .signal s m => .signal s (f m)
  | .outOfFuel => .outOfFuel

variable (f : Machine → Machine)

theorem mapMachine_andThen {r : Outcome α} {next next' : α → Machine → Outcome β}
    (h : ∀ a m, (next a m).mapMachine f = next' a (f m)) :
    (r.andThen next).mapMachine f = (r.mapMachine f).andThen next' := by
  cases r with
  | done a m => exact h a m
  | signal | outOfFuel => rfl

theorem mapMachine_ofExcept (r : Except RuntimeError α) (m : Machine) :
    (Outcome.ofExcept r m).mapMachine f = .ofExcept r (f m) := by
  cases r <;> rfl

/-- Built-in functions read arrays and what values look like, make arrays and print. -/
theorem mapMachine_call {m : Machine} (harray : ∀ a, (f m).store.array a = m.store.array a)
    (hnew : ∀ items, (m.newArray items).mapMachine f = (f m).newArray items)
    (hprint : ∀ m v, (f m).print ((f m).store.render v) = f (m.print (m.store.render v)))
    (b : Builtin) (args : List Value) : (b.call args m).mapMachine f = b.call args (f m) := by
  unfold Builtin.call
  split
  · rfl
  cases b with
  | len =>
    cases args with
    | nil => rfl
    | cons v vs =>
      cases v with
      | array a =>
        rw [Builtin.run, Builtin.run, harray]
        rfl
      | _ => rfl
  | push =>
    cases args with
    | nil => rfl
    | cons v vs =>
      cases v with
      | array a =>
        cases vs with
        | nil => rfl
        | cons w ws => rw [Builtin.run, Builtin.run, harray, hnew]
      | _ => rfl
  | print => rw [Builtin.run, Builtin.run, mapMachine, List.foldl_hom f hprint]
  | exit => rfl

end Outcome

/-- If the evaluation of the statements goes with `f`, that of the program does. -/
theorem Program.eval_of_mapMachine {f : Machine → Machine} {o : Options} {fuel : Nat}
    {p q : Program} {m : Machine}
    (h : (Stmt.evalAll o fuel p none m).mapMachine f = Stmt.evalAll o fuel q none (f m)) :
    eval o fuel q (f m) = (eval o fuel p m).map fun (ending, m') => (ending, f m') := by
  rw [eval, eval, ← h]
  cases Stmt.evalAll o fuel p none m <;> rfl

namespace Machine

theorem following_print (m : Machine) (line : String) :
    (m.print line).following text peak = (m.following text peak).print line := by
  simp only [following, print, String.append_assoc]

theorem following_enter (m : Machine) (c : Closure) (args : List Value) :
    (m.enter c args).following text peak = (m.following text peak).enter c args := by
  simp only [following, enter, Nat.max_assoc]

theorem following_assign (m : Machine) (mode : AssignMode) (x : String) (v : Value) :
    (m.assign mode x v).following text peak = (m.following text peak).assign mode x v := by
  cases mode with
  | localFrame => rfl
  | enclosing =>
    simp only [assign, following]
    cases m.store.owner? m.frame x <;> rfl

end Machine

/-! ### Plans -/

/-- The second plan is the first one after the earlier evaluation. -/
inductive Plan.Follows : Plan α → Plan α → Prop where
  /-- Both end in the same way. -/
  | finish {r r' : Outcome α} (h : r.mapMachine (Machine.following text peak) = r') :
    Follows (.finish r) (.finish r')
  /-- Both begin the same task. -/
  | after {t : Task} {m : Machine} {next next' : t.Result → Machine → Plan α}
      (h : ∀ a m', Follows (next a m') (next' a (m'.following text peak))) :
    Follows (.after t m next) (.after t (m.following text peak) next')
  /-- Both enter the same function. -/
  | body {c : Closure} {args : List Value} {m : Machine} {next next' : Value → Machine → Plan α}
      (h : ∀ v m', Follows (next v m') (next' v (m'.following text peak))) :
    Follows (.body c args m next) (.body c args (m.following text peak) next')

theorem Outcome.mapMachine_leaveTo (r : Outcome (Option Value)) (caller : FrameId) :
    (r.leaveTo caller).mapMachine (Machine.following text peak) =
      (r.mapMachine (Machine.following text peak)).leaveTo caller := by
  cases r with
  | signal s m => cases s <;> rfl
  | done | outOfFuel => rfl

namespace Plan.Follows

variable {text : String} {peak : Nat}

theorem run_eq {rec : (t : Task) → Machine → Outcome t.Result} {p p' : Plan α}
    (hrec : ∀ t m, (rec t m).mapMachine (Machine.following text peak) =
      rec t (m.following text peak))
    (h : Follows text peak p p') :
    (p.run rec).mapMachine (Machine.following text peak) = p'.run rec := by
  induction h with
  | finish h => exact h
  | after _ ih =>
    rw [run, run, ← hrec]
    exact Outcome.mapMachine_andThen _ ih
  | body _ ih =>
    rw [run, run, ← Machine.following_enter, ← hrec]
    show _ = ((Outcome.mapMachine _ _).leaveTo _).andThen _
    rw [← Outcome.mapMachine_leaveTo]
    exact Outcome.mapMachine_andThen _ ih

variable (m : Machine)

theorem exprPlan (e : Expr) : Follows text peak (e.plan m) (e.plan (m.following text peak)) := by
  cases e with
  | int | bool | str => exact .finish rfl
  | ident x =>
    simp only [Expr.plan, show (m.following text peak).lookup x = m.lookup x from rfl]
    split
    · exact .finish rfl
    · split <;> exact .finish rfl
  | array items => exact .after fun vs m' => .finish rfl
  | hash entries => exact .after fun d m' => .finish rfl
  | unary op e => exact .after fun v m' => .finish (Outcome.mapMachine_ofExcept ..)
  | binary op left right =>
    exact .after fun v m₁ => .after fun w m₂ => .finish (Outcome.mapMachine_ofExcept ..)
  | cond test thenBlock elseBlock =>
    refine .after fun v m' => ?_
    split
    · exact .after fun w m'' => .finish rfl
    · cases elseBlock with
      | none => exact .finish rfl
      | some b => exact .after fun w m'' => .finish rfl
  | function => exact .finish rfl
  | call callee args =>
    exact .after fun f m₁ => .after fun vs m₂ => .after fun v m₃ => .finish rfl
  | index base place =>
    exact .after fun v m₁ => .after fun w m₂ => .finish (Outcome.mapMachine_ofExcept ..)
  | assign target value => exact .after fun v m' => .finish rfl

theorem assignPlan (o : Options) (target value : Expr) :
    Follows text peak (Expr.assignPlan o target value m)
      (Expr.assignPlan o target value (m.following text peak)) := by
  cases target with
  | ident x =>
    simp only [Expr.assignPlan, show (m.following text peak).lookup x = m.lookup x from rfl]
    split
    · exact .after fun v m' => .finish (congrArg _ (Machine.following_assign ..))
    · exact .finish rfl
  | index base place =>
    refine .after fun v m₁ => .after fun w m₂ => ?_
    simp only [show (m₂.following text peak).store = m₂.store from rfl]
    split
    · exact .finish rfl
    · exact .after fun u m₃ => .finish rfl
  | _ => exact .finish rfl

theorem stmtPlan (s : Stmt) : Follows text peak (s.plan m) (s.plan (m.following text peak)) := by
  cases s with
  | letBind | ret | expr => exact .after fun v m' => .finish rfl
  | forLoop init =>
    cases init with
    | none => exact .after fun v m' => .finish rfl
    | some init => exact .after fun _ m₁ => .after fun v m₂ => .finish rfl

theorem callPlan (o : Options) (f : Value) (args : List Value) :
    Follows text peak (f.plan o args m) (f.plan o args (m.following text peak)) := by
  cases f with
  | function c =>
    simp only [Value.plan, show (m.following text peak).store = m.store from rfl,
      show (m.following text peak).depth = m.depth from rfl]
    split
    · exact .finish rfl
    · split
      · exact .finish rfl
      · exact .body fun v m' => .finish rfl
  | builtin b =>
    exact .finish (Outcome.mapMachine_call _ (fun _ => rfl) (fun _ => rfl)
      (fun _ _ => (Machine.following_print ..).symm) b args)
  | _ => exact .finish rfl

/-- The plan of a task after an earlier evaluation. -/
theorem plan (o : Options) (t : Task) :
    Follows text peak (t.plan o m) (t.plan o (m.following text peak)) := by
  cases t with
  | expr e => exact exprPlan m e
  | exprs es =>
    cases es with
    | nil => exact .finish rfl
    | cons e es => exact .after fun v m₁ => .after fun vs m₂ => .finish rfl
  | entries es d =>
    cases es with
    | nil => exact .finish rfl
    | cons entry es =>
      refine .after fun v m₁ => ?_
      split
      · exact .finish rfl
      · exact .after fun w m₂ => .after fun d m₃ => .finish rfl
  | part e =>
    cases e with
    | none => exact .finish rfl
    | some e => exact .after fun v m' => .finish rfl
  | assign target value => exact assignPlan m o target value
  | stmt s => exact stmtPlan m s
  | stmts ss last =>
    cases ss with
    | nil => exact .finish rfl
    | cons s ss => exact .after fun v m₁ => .after fun v m₂ => .finish rfl
  | loop test after body last =>
    refine .after fun v m₁ => ?_
    split
    · exact .after fun last m₂ => .after fun _ m₃ => .after fun v m₄ => .finish rfl
    · exact .finish rfl
  | apply f args => exact callPlan m o f args

end Plan.Follows

/-- What is evaluated after an earlier evaluation ends as it does without it. -/
theorem Task.eval_following (o : Options) (n : Nat) (t : Task) (m : Machine) :
    (t.eval o n m).mapMachine (Machine.following text peak) =
      t.eval o n (m.following text peak) := by
  induction n generalizing t m with
  | zero =>
    rw [eval_zero, eval_zero]
    rfl
  | succ n ih =>
    rw [eval_succ, eval_succ]
    exact (Plan.Follows.plan m o t).run_eq ih

/-- A program that is evaluated after an earlier evaluation ends as it does without it, and what it
records comes behind what has been recorded. -/
theorem Program.eval_following (o : Options) (fuel : Nat) (p : Program) (m : Machine) :
    Program.eval o fuel p (m.following text peak) =
      (Program.eval o fuel p m).map fun (ending, m') => (ending, m'.following text peak) := by
  exact eval_of_mapMachine (Task.eval_following text peak o fuel (.stmts p none) m)

end MonkeyLang
