import MonkeyLang.Proofs.Evaluation.Plan

/-!
# Moments of an evaluation

An evaluation comes to many moments before it ends, or without ever ending. At each of them some task
is begun in some machine. Between the first moment and a later one lie the bodies of the functions
that have been entered and not yet left: `Reaches o a k b` says that the evaluation begun at `a` comes
to `b`, with `k` more bodies under way than at `a`.

## Main statements

* `Moment.Reaches.stops` : a runtime error and `exit` end everything that has led to them.
* `Moment.Agree.outcome_eq`, `Moment.Agree.reaches` : if two options plan the same at every moment that
  is reached under the first, the evaluations end in the same way and come to the same moments.
-/

namespace MonkeyLang

variable {α : Type}

/-! ### What a plan begins -/

section

variable (rec : (t : Task) → Machine → Outcome t.Result)

/-- Carrying out the plan begins the task `t` in the machine `m`, inside `j` bodies that the plan has
entered: none, or one if the task is the body of a function. -/
inductive Plan.Begins : Plan α → Nat → Task → Machine → Prop where
  /-- A task is begun. -/
  | after {t : Task} {m : Machine} {next : t.Result → Machine → Plan α} :
    Begins (.after t m next) 0 t m
  /-- A task is begun later, with the result of an earlier one. -/
  | later {t t' : Task} {m m' m'' : Machine} {a : t.Result} {j : Nat}
      {next : t.Result → Machine → Plan α} (ends : rec t m = .done a m')
      (begins : Begins (next a m') j t' m'') : Begins (.after t m next) j t' m''
  /-- The body of a function is begun. -/
  | body {c : Closure} {args : List Value} {m : Machine} {next : Value → Machine → Plan α} :
    Begins (.body c args m next) 1 c.task (m.enter c args)
  /-- A task is begun after a body, with the value of the call. -/
  | left {c : Closure} {args : List Value} {t : Task} {m m' m'' : Machine} {v : Value} {j : Nat}
      {next : Value → Machine → Plan α}
      (ends : (rec c.task (m.enter c args)).leaveTo m.frame = .done v m')
      (begins : Begins (next v m') j t m'') : Begins (.body c args m next) j t m''

end

/-- What ends everything up to the program: a runtime error or `exit`, but not `return`. -/
def Signal.Stops (s : Signal) : Prop := ∀ v, s ≠ .returned v

theorem Outcome.leaveTo_signal {s : Signal} (hs : s.Stops) (caller : FrameId) (m : Machine) :
    (Outcome.signal s m).leaveTo caller = .signal s (m.leave caller) := by
  cases s with
  | returned v => exact absurd rfl (hs v)
  | failed | exited => rfl

/-- A plan ends with a signal that stops everything, if a task that it begins does. The store and the
output are those of the task. -/
theorem Plan.Begins.stops {rec : (t : Task) → Machine → Outcome t.Result} {p : Plan α} {j : Nat}
    {t : Task} {m m' : Machine} {s : Signal} (hs : s.Stops) (h : p.Begins rec j t m)
    (ht : rec t m = .signal s m') :
    ∃ m'', p.run rec = .signal s m'' ∧ m''.store = m'.store ∧ m''.printed = m'.printed := by
  induction h with
  | after =>
    rw [Plan.run, ht]
    exact ⟨m', rfl, rfl, rfl⟩
  | later ends _ ih =>
    rw [Plan.run, ends]
    exact ih ht
  | @body c args m =>
    rw [Plan.run, ht, Outcome.leaveTo_signal hs]
    exact ⟨m'.leave m.frame, rfl, rfl, rfl⟩
  | left ends _ ih =>
    rw [Plan.run, ends]
    exact ih ht

/-! ### Moments -/

/-- A moment of an evaluation: how many steps are left, what is begun, and in which machine. -/
structure Moment where
  /-- The number of steps that are left. -/
  fuel : Nat
  /-- What is evaluated. -/
  task : Task
  /-- The state in which it is. -/
  machine : Machine

namespace Moment

/-- How what is begun at a moment ends. -/
def outcome (o : Options) (a : Moment) : Outcome a.task.Result := a.task.eval o a.fuel a.machine

/-- A step before `outOfFuel`: the task at `a` begins that at `b`, inside `j` more bodies. -/
inductive Begins (o : Options) : Moment → Nat → Moment → Prop where
  /-- Every task that the plan begins has one step less. -/
  | step {n j : Nat} {t t' : Task} {m m' : Machine}
      (h : (t.plan o m).Begins (fun t m => t.eval o n m) j t' m') : Begins o ⟨n + 1, t, m⟩ j ⟨n, t', m'⟩

/-- The evaluation begun at a moment comes to another one, at which `k` more bodies of functions are
under way. -/
inductive Reaches (o : Options) : Moment → Nat → Moment → Prop where
  /-- It is there from the start. -/
  | refl (a : Moment) : Reaches o a 0 a
  /-- It begins the task of a next moment. -/
  | next {a b c : Moment} {j k : Nat} (first : a.Begins o j b) (rest : Reaches o b k c) :
    Reaches o a (j + k) c

variable {o o₁ o₂ : Options} {a b c : Moment} {j k : Nat}

theorem Reaches.trans (h : a.Reaches o j b) (h' : b.Reaches o k c) : a.Reaches o (j + k) c := by
  induction h with
  | refl =>
    rw [Nat.zero_add]
    exact h'
  | next first _ ih =>
    rw [Nat.add_assoc]
    exact .next first (ih h')

/-- A runtime error and `exit` end everything that has led to them, and nothing changes the store or
is printed on the way. -/
theorem Reaches.stops {s : Signal} {m : Machine} (hs : s.Stops) (h : a.Reaches o k b)
    (hb : b.outcome o = .signal s m) :
    ∃ m', a.outcome o = .signal s m' ∧ m'.store = m.store ∧ m'.printed = m.printed := by
  induction h with
  | refl => exact ⟨m, hb, rfl, rfl⟩
  | next first _ ih =>
    obtain ⟨m₁, h₁, hstore₁, hprinted₁⟩ := ih hb
    obtain ⟨h⟩ := first
    obtain ⟨m₂, h₂, hstore₂, hprinted₂⟩ := h.stops hs h₁
    exact ⟨m₂, (Task.eval_succ ..).trans h₂, hstore₂.trans hstore₁, hprinted₂.trans hprinted₁⟩

end Moment

/-! ### Two ways to plan -/

/-- Two plans do the same, as far as the results of tasks let them come. -/
inductive Plan.Agree (rec : (t : Task) → Machine → Outcome t.Result) : Plan α → Plan α → Prop where
  /-- Both end in the same way. -/
  | finish (r : Outcome α) : Agree rec (.finish r) (.finish r)
  /-- Both begin the same task and agree on what follows. -/
  | after {t : Task} {m : Machine} {next₁ next₂ : t.Result → Machine → Plan α}
      (h : ∀ a m', rec t m = .done a m' → Agree rec (next₁ a m') (next₂ a m')) :
    Agree rec (.after t m next₁) (.after t m next₂)
  /-- Both enter the same function and agree on what follows. -/
  | body {c : Closure} {args : List Value} {m : Machine} {next₁ next₂ : Value → Machine → Plan α}
      (h : ∀ v m', (rec c.task (m.enter c args)).leaveTo m.frame = .done v m' →
        Agree rec (next₁ v m') (next₂ v m')) :
    Agree rec (.body c args m next₁) (.body c args m next₂)

namespace Plan.Agree

variable {rec rec₁ rec₂ : (t : Task) → Machine → Outcome t.Result} {p p₁ p₂ : Plan α}

theorem refl (p : Plan α) : Agree rec p p := by
  induction p with
  | finish r => exact .finish r
  | after t m next ih => exact .after fun a m' _ => ih a m'
  | body c args m next ih => exact .body fun v m' _ => ih v m'

theorem of_eq (h : p₁ = p₂) : Agree rec p₁ p₂ := h ▸ .refl p₁

/-- Plans that agree end in the same way, if the tasks that are begun do. -/
theorem run_eq (h : Agree rec₁ p₁ p₂)
    (hrec : ∀ j t m, p₁.Begins rec₁ j t m → rec₁ t m = rec₂ t m) : p₁.run rec₁ = p₂.run rec₂ := by
  induction h with
  | finish r => rfl
  | after h ih =>
    rw [Plan.run, Plan.run, ← hrec _ _ _ .after]
    exact Outcome.andThen_congr fun a m' ends =>
      ih a m' ends fun j t m begins => hrec j t m (.later ends begins)
  | body h ih =>
    rw [Plan.run, Plan.run, ← hrec _ _ _ .body]
    exact Outcome.andThen_congr fun v m' ends =>
      ih v m' ends fun j t m begins => hrec j t m (.left ends begins)

/-- Plans that agree begin the same tasks. -/
theorem begins (h : Agree rec₁ p₁ p₂)
    (hrec : ∀ j t m, p₁.Begins rec₁ j t m → rec₁ t m = rec₂ t m) {j : Nat} {t : Task} {m : Machine}
    (hb : p₂.Begins rec₂ j t m) : p₁.Begins rec₁ j t m := by
  induction h with
  | finish r => cases hb
  | after h ih =>
    cases hb with
    | after => exact .after
    | later ends begins =>
      rw [← hrec _ _ _ .after] at ends
      exact .later ends (ih _ _ ends (fun j t m b => hrec j t m (.later ends b)) begins)
  | body h ih =>
    cases hb with
    | body => exact .body
    | left ends begins =>
      rw [← hrec _ _ _ .body] at ends
      exact .left ends (ih _ _ ends (fun j t m b => hrec j t m (.left ends b)) begins)

end Plan.Agree

namespace Moment

variable {o₁ o₂ : Options} {a b : Moment} {k : Nat}

/-- At every moment that is reached under the options `o₁` and at which there is a step left, the
options `o₂` plan the same. -/
def Agree (o₁ o₂ : Options) (a : Moment) : Prop :=
  ∀ k n t m, a.Reaches o₁ k ⟨n + 1, t, m⟩ →
    Plan.Agree (fun t m => t.eval o₁ n m) (t.plan o₁ m) (t.plan o₂ m)

theorem Agree.of_begins {j : Nat} (h : a.Agree o₁ o₂) (hb : a.Begins o₁ j b) : b.Agree o₁ o₂ :=
  fun k n t m hr => h (j + k) n t m (.next hb hr)

/-- The evaluations end in the same way. -/
theorem Agree.outcome_eq (h : a.Agree o₁ o₂) : a.outcome o₁ = a.outcome o₂ := by
  obtain ⟨n, t, m⟩ := a
  induction n generalizing t m with
  | zero => exact (Task.eval_zero o₁ t m).trans (Task.eval_zero o₂ t m).symm
  | succ n ih =>
    have hplan := h 0 n t m (.refl _)
    show t.eval o₁ (n + 1) m = t.eval o₂ (n + 1) m
    rw [Task.eval_succ, Task.eval_succ]
    exact hplan.run_eq fun j t' m' hb => ih t' m' (h.of_begins (.step hb))

/-- The evaluations come to the same moments. -/
theorem Agree.reaches (h : a.Agree o₁ o₂) (hr : a.Reaches o₂ k b) : a.Reaches o₁ k b := by
  induction hr with
  | refl a => exact .refl a
  | next first _ ih =>
    obtain ⟨hb⟩ := first
    have hb₁ := (h 0 _ _ _ (.refl _)).begins
      (fun j t' m' hb' => (h.of_begins (.step hb')).outcome_eq) hb
    exact .next (.step hb₁) (ih (h.of_begins (.step hb₁)))

/-- Programs end in the same way. -/
theorem Agree.eval_eq {fuel : Nat} {p : Program} {m : Machine}
    (h : Agree o₁ o₂ ⟨fuel, .stmts p none, m⟩) :
    Program.eval o₁ fuel p m = Program.eval o₂ fuel p m := by
  rw [Program.eval, Program.eval, show Stmt.evalAll o₁ fuel p none m = _ from h.outcome_eq]
  rfl

end Moment

end MonkeyLang
