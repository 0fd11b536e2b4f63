import Mathlib.Logic.Relation
import MonkeyLang.Proofs.Parsing.Descent

/-!
# Moments of reading

While a production is read, others are begun. A moment says what is begun, from which state on, and
how many steps are left for it; `Moment.Reaches` leads from a moment to all those that come before
it has been read.

A property of states that every single move keeps holds at all moments that are reached and when
reading ends. So do all the facts about where reading can be and which errors it can have found.

## Main definitions

* `Moment`, `Moment.Begins`, `Moment.Reaches` : what is begun, directly and after any time.
* `Closed` : a property of states that every move keeps.

## Main statements

* `Closed.ends`, `Closed.reaches` : such a property holds in the end and at every moment.
-/

namespace MonkeyLang.Parser

variable {α : Type}

/-! ### Properties that every move keeps -/

/-- A property of states that every move keeps. An error that is reported is at the current
token. -/
structure Closed (P : State → Prop) : Prop where
  advance : ∀ s, P s → P s.advance
  report : ∀ s e, P s → e.span = s.span → P (s.report e)
  recover : ∀ s scope start, P s → P (s.recover scope start)

/-- The property holds where reading ends, and if it ends with an error, that is at the current
token. -/
def Outcome.Keeps (o : Outcome α) (P : State → Prop) : Prop :=
  o.Ends (fun _ s => P s) (fun e s => P s ∧ e.span = s.span)

namespace Closed

variable {P : State → Prop} (hP : Closed P)
include hP

section

variable {rec : (p : Production) → State → Outcome p.Result} {Q : Production → State → Prop}
  (hrec : ∀ p s, P s → (rec p s).Keeps P)
include hrec

theorem run_keeps (r : Routine α) {s : State} (hs : P s) : ((r.plan s).run rec).Keeps P := by
  induction r generalizing s with
  | done => exact hs
  | fail => exact ⟨hs, rfl⟩
  | look next ih => exact ih _ _ hs
  | last next ih => exact ih _ hs
  | advance next ih => exact ih (hP.advance s hs)
  | read p inside next ih =>
    have hp := hrec p s hs
    rw [Routine.run_read]
    cases hr : rec p s with
    | done x t =>
      rw [hr] at hp
      cases inside <;> exact ih x hp
    | failed e t =>
      rw [hr] at hp
      cases inside <;> exact hp
    | outOfFuel => cases inside <;> trivial
  | attempt scope next broken ih ihb =>
    have hp := hrec .statement s hs
    rw [Routine.plan, Plan.run]
    cases hr : rec .statement s with
    | done st t =>
      rw [hr] at hp
      exact ih st hp
    | failed e t =>
      rw [hr] at hp
      exact ihb (hP.recover _ scope _ (hP.report t e hp.1 hp.2))
    | outOfFuel => trivial

theorem any (r : Routine α) {s : State} (hs : P s) (hQ : (r.plan s).Any rec Q) :
    ∃ p t, Q p t ∧ P t := by
  induction r generalizing s with
  | done | fail => exact hQ.elim
  | look next ih => exact ih _ _ hs hQ
  | last next ih => exact ih _ hs hQ
  | advance next ih => exact ih (hP.advance s hs) hQ
  | read p inside next ih =>
    rw [Routine.plan, Plan.Any] at hQ
    rcases hQ with hq | hQ
    · exact ⟨p, s, hq, hs⟩
    have hp := hrec p s hs
    cases hr : rec p s with
    | done x t =>
      rw [hr] at hQ hp
      exact ih x hp hQ
    | failed | outOfFuel =>
      rw [hr] at hQ
      exact hQ.elim
  | attempt scope next broken ih ihb =>
    rw [Routine.plan, Plan.Any] at hQ
    rcases hQ with hq | hQ
    · exact ⟨.statement, s, hq, hs⟩
    have hp := hrec .statement s hs
    cases hr : rec .statement s with
    | done st t =>
      rw [hr] at hQ hp
      exact ih st hp hQ
    | failed e t =>
      rw [hr] at hQ hp
      exact ihb (hP.recover _ scope _ (hP.report t e hp.1 hp.2)) hQ
    | outOfFuel =>
      rw [hr] at hQ
      exact hQ.elim

end

/-- The property holds where reading ends. -/
theorem ends (n : Nat) (p : Production) {s : State} (hs : P s) : (p.read n s).Keeps P := by
  induction n generalizing p s with
  | zero =>
    rw [Production.read_zero]
    trivial
  | succ n ih =>
    rw [Production.read_succ, Production.plan_eq]
    exact hP.run_keeps (fun p s hs => ih p hs) p.routine hs

end Closed

/-! ### Moments -/

/-- A moment of reading. -/
structure Moment where
  /-- The number of steps that are left. -/
  fuel : Nat
  /-- What is begun. -/
  production : Production
  /-- The state from which it is read. -/
  state : State

namespace Moment

/-- How what is begun at a moment ends. -/
def outcome (a : Moment) : Outcome a.production.Result := a.production.read a.fuel a.state

/-- What is begun at `a` begins what is begun at `b`. -/
inductive Begins : Moment → Moment → Prop where
  /-- What the plan comes to has one step less. -/
  | step {n : Nat} {p q : Production} {s t : State}
      (h : (p.plan s).Any (fun p s => p.read n s) fun q' t' => q' = q ∧ t' = t) :
    Begins ⟨n + 1, p, s⟩ ⟨n, q, t⟩

/-- Before what is begun at `a` has been read, reading comes to `b`. -/
abbrev Reaches : Moment → Moment → Prop := Relation.ReflTransGen Begins

variable {a b : Moment}

/-- What is begun suits its place, and is further on or of a smaller rank. -/
theorem Begins.descends (h : a.Begins b) (ha : a.production.Suits a.state.kind) :
    b.production.Suits b.state.kind ∧ State.Past 0 a.state b.state ∧
      (State.Past 1 a.state b.state ∨ b.production.rank < a.production.rank) := by
  cases h with
  | step h =>
    obtain ⟨q, t, ⟨rfl, rfl⟩, hd⟩ := Production.descends ha h
    exact hd

/-- Everything suits its place. -/
theorem Reaches.suits (h : a.Reaches b) (ha : a.production.Suits a.state.kind) :
    b.production.Suits b.state.kind := by
  induction h with
  | refl => exact ha
  | tail _ hb ih => exact (hb.descends ih).1

end Moment

/-- A property that every move keeps holds at every moment that is reached. -/
theorem Closed.reaches {P : State → Prop} (hP : Closed P) {a b : Moment} (h : a.Reaches b)
    (ha : P a.state) : P b.state := by
  induction h with
  | refl => exact ha
  | tail _ hb ih =>
    cases hb with
    | step hb =>
      rw [Production.plan_eq] at hb
      obtain ⟨q, t, ⟨rfl, rfl⟩, ht⟩ := hP.any (fun p s hs => hP.ends _ p hs) _ ih hb
      exact ht

end MonkeyLang.Parser
