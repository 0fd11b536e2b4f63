import Mathlib.Data.List.Infix
import Mathlib.Data.List.Lex
import MonkeyLang.Proofs.Evaluation.Moments
import MonkeyLang.Proofs.Evaluation.Parts

/-!
# Signals that end everything

The moments of an evaluation form a tree. What a task begins stands below it, in the order in which it
is begun, so every moment has an address: the list of positions on the way down to it. Moments come in
the lexicographic order of their addresses.

A runtime error and `exit` end everything. They arise in the step of some task, which changes nothing
in that step. From there on no other moment comes, and all that is under way ends with the signal, the
store and the output as they were when it arose.

## Main definitions

* `Moment.At` : the moment at an address.
* `Moment.Raises` : the moments at which a signal arises.

## Main statements

* `Moment.stops_everything` : what happens when part of an evaluation ends with such a signal.
-/

namespace MonkeyLang

variable {α : Type} {s : Signal}

/-! ### Addresses -/

section

variable (rec : (t : Task) → Machine → Outcome t.Result)

/-- The task `t`, in the machine `m`, is the one at the given position among those that carrying out the
plan begins. Positions count from zero. -/
inductive Plan.BeginsAt : Plan α → Nat → Task → Machine → Prop where
  /-- A first task. -/
  | after {t : Task} {m : Machine} {next : t.Result → Machine → Plan α} :
    BeginsAt (.after t m next) 0 t m
  /-- A task that is begun with the result of an earlier one. -/
  | later {t t' : Task} {m m' m'' : Machine} {a : t.Result} {i : Nat}
      {next : t.Result → Machine → Plan α} (ends : rec t m = .done a m')
      (begins : BeginsAt (next a m') i t' m'') : BeginsAt (.after t m next) (i + 1) t' m''
  /-- The body of a function. -/
  | body {c : Closure} {args : List Value} {m : Machine} {next : Value → Machine → Plan α} :
    BeginsAt (.body c args m next) 0 c.task (m.enter c args)
  /-- A task that is begun with the value of a call. -/
  | left {c : Closure} {args : List Value} {t : Task} {m m' m'' : Machine} {v : Value} {i : Nat}
      {next : Value → Machine → Plan α}
      (ends : (rec c.task (m.enter c args)).leaveTo m.frame = .done v m')
      (begins : BeginsAt (next v m') i t m'') : BeginsAt (.body c args m next) (i + 1) t m''

/-- Carrying out the plan in a machine ends with the signal `s` that the plan itself gives, when all
that it has begun has ended with results. The machine is as the last of that has left it. -/
inductive Plan.Raises (s : Signal) : Machine → Plan α → Machine → Prop where
  /-- At once. -/
  | now {m : Machine} : Raises s m (.finish (.signal s m)) m
  /-- After a task. -/
  | later {t : Task} {m m' m'' : Machine} {a : t.Result} {next : t.Result → Machine → Plan α}
      (ends : rec t m = .done a m') (raises : Raises s m' (next a m') m'') :
      Raises s m (.after t m next) m''
  /-- After the body of a function. -/
  | left {c : Closure} {args : List Value} {m m' m'' : Machine} {v : Value}
      {next : Value → Machine → Plan α}
      (ends : (rec c.task (m.enter c args)).leaveTo m.frame = .done v m')
      (raises : Raises s m' (next v m') m'') : Raises s m (.body c args m next) m''

end

/-- A call ends with a signal only if the body of the function does. -/
theorem Outcome.eq_signal_of_leaveTo {r : Outcome (Option Value)} {caller : FrameId} {m : Machine}
    (h : r.leaveTo caller = .signal s m) : ∃ m', r = .signal s m' := by
  cases r with
  | done | outOfFuel => cases h
  | signal s' m' =>
    cases s' with
    | returned v => cases h
    | failed | exited =>
      obtain ⟨rfl, -⟩ := Outcome.signal.inj h
      exact ⟨m', rfl⟩

namespace Plan

variable {rec : (t : Task) → Machine → Outcome t.Result} {p : Plan α} {i k : Nat} {t t' : Task}
  {m m' m₁ : Machine}

namespace BeginsAt

theorem exists_begins (h : p.BeginsAt rec i t m) : ∃ j, p.Begins rec j t m := by
  induction h with
  | after => exact ⟨0, .after⟩
  | later ends _ ih =>
    obtain ⟨j, hj⟩ := ih
    exact ⟨j, .later ends hj⟩
  | body => exact ⟨1, .body⟩
  | left ends _ ih =>
    obtain ⟨j, hj⟩ := ih
    exact ⟨j, .left ends hj⟩

/-- Only one task is begun at a position. -/
theorem unique (h : p.BeginsAt rec i t m) (h' : p.BeginsAt rec i t' m') : t' = t ∧ m' = m := by
  induction h with
  | after | body =>
    cases h'
    exact ⟨rfl, rfl⟩
  | later ends _ ih =>
    obtain - | ⟨ends', h'⟩ := h'
    obtain ⟨rfl, rfl⟩ := Outcome.done.inj (ends.symm.trans ends')
    exact ih h'
  | left ends _ ih =>
    obtain - | - | - | ⟨ends', h'⟩ := h'
    obtain ⟨rfl, rfl⟩ := Outcome.done.inj (ends.symm.trans ends')
    exact ih h'

/-- After a task that ends with a signal that stops everything, none is begun. -/
theorem le_of_stops (hs : s.Stops) (h : p.BeginsAt rec i t m) (ht : rec t m = .signal s m₁)
    (h' : p.BeginsAt rec k t' m') : k ≤ i := by
  induction h generalizing k with
  | after =>
    cases h' with
    | after => exact Nat.le_refl 0
    | later ends =>
      rw [ht] at ends
      cases ends
  | body =>
    cases h' with
    | body => exact Nat.le_refl 0
    | left ends =>
      rw [ht, Outcome.leaveTo_signal hs] at ends
      cases ends
  | later ends _ ih =>
    cases h' with
    | after => exact Nat.zero_le _
    | later ends' h' =>
      obtain ⟨rfl, rfl⟩ := Outcome.done.inj (ends.symm.trans ends')
      exact Nat.succ_le_succ (ih ht h')
  | left ends _ ih =>
    cases h' with
    | body => exact Nat.zero_le _
    | left ends' h' =>
      obtain ⟨rfl, rfl⟩ := Outcome.done.inj (ends.symm.trans ends')
      exact Nat.succ_le_succ (ih ht h')

end BeginsAt

/-- If a plan ends with a signal, it has begun a task that does, or gives the signal itself. -/
theorem MadeOf.begins_or_raises {F : Task → Prop} (hp : p.MadeOf F m)
    (hrun : p.run rec = .signal s m') :
    (∃ i t m₁ m₂, p.BeginsAt rec i t m₁ ∧ rec t m₁ = .signal s m₂) ∨ p.Raises rec s m m' := by
  induction p generalizing m with
  | finish r =>
    obtain rfl : r = .signal s m' := hrun
    obtain rfl : m' = m := hp
    exact .inr .now
  | after t m₁ next ih =>
    obtain ⟨rfl, -, hnext⟩ := hp
    rw [run] at hrun
    cases ht : rec t m₁ with
    | outOfFuel => simp [ht] at hrun
    | signal s' m₂ =>
      rw [ht] at hrun
      obtain ⟨rfl, -⟩ := Outcome.signal.inj hrun
      exact .inl ⟨0, t, m₁, m₂, .after, ht⟩
    | done a m₂ =>
      rw [ht] at hrun
      obtain ⟨i, t', m₃, m₄, hbegins, hend⟩ | hraises := ih a m₂ (hnext a m₂) hrun
      · exact .inl ⟨i + 1, t', m₃, m₄, .later ht hbegins, hend⟩
      · exact .inr (.later ht hraises)
  | body c args m₁ next ih =>
    obtain ⟨rfl, hnext⟩ := hp
    rw [run] at hrun
    cases hbody : (rec c.task (m₁.enter c args)).leaveTo m₁.frame with
    | outOfFuel => simp [hbody] at hrun
    | signal s' m₂ =>
      rw [hbody] at hrun
      obtain ⟨rfl, -⟩ := Outcome.signal.inj hrun
      obtain ⟨m₃, hm₃⟩ := Outcome.eq_signal_of_leaveTo hbody
      exact .inl ⟨0, c.task, _, m₃, .body, hm₃⟩
    | done v m₂ =>
      rw [hbody] at hrun
      obtain ⟨i, t', m₃, m₄, hbegins, hend⟩ | hraises := ih v m₂ (hnext v m₂) hrun
      · exact .inl ⟨i + 1, t', m₃, m₄, .left hbody hbegins, hend⟩
      · exact .inr (.left hbody hraises)

theorem Raises.run_eq (h : p.Raises rec s m m') : p.run rec = .signal s m' := by
  induction h with
  | now => rfl
  | later ends _ ih | left ends _ ih =>
    rw [run, ends]
    exact ih

end Plan

namespace Moment

/-- The moment `b` is at the given address in the tree of the moments to which the evaluation begun at
`a` comes. -/
inductive At (o : Options) : Moment → List Nat → Moment → Prop where
  /-- The evaluation begins at the root. -/
  | here (a : Moment) : At o a [] a
  /-- Below it stands what it begins. -/
  | inside {n i : Nat} {p : List Nat} {t t' : Task} {m m' : Machine} {b : Moment}
      (begins : (t.plan o m).BeginsAt (fun t m => t.eval o n m) i t' m')
      (rest : At o ⟨n, t', m'⟩ p b) : At o ⟨n + 1, t, m⟩ (i :: p) b

/-- The signal `s` arises at the moment, in the machine `m'`. -/
inductive Raises (o : Options) (s : Signal) : Moment → Machine → Prop where
  /-- In the step of the task. -/
  | step {n : Nat} {t : Task} {m m' : Machine}
      (h : (t.plan o m).Raises (fun t m => t.eval o n m) s m m') : Raises o s ⟨n + 1, t, m⟩ m'

variable {o : Options} {a b c : Moment} {k : Nat} {p q : List Nat} {m m' : Machine}

namespace At

theorem exists_reaches (h : a.At o p b) : ∃ k, a.Reaches o k b := by
  induction h with
  | here a => exact ⟨0, .refl a⟩
  | inside begins _ ih =>
    obtain ⟨k, hk⟩ := ih
    obtain ⟨j, hj⟩ := begins.exists_begins
    exact ⟨j + k, .next (.step hj) hk⟩

theorem trans (h : a.At o p b) (h' : b.At o q c) : a.At o (p ++ q) c := by
  induction h with
  | here => exact h'
  | inside begins _ ih => exact .inside begins (ih h')

theorem stops (hs : s.Stops) (h : a.At o p b) (hb : b.outcome o = .signal s m) :
    ∃ m', a.outcome o = .signal s m' ∧ m'.store = m.store ∧ m'.printed = m.printed := by
  obtain ⟨k, hk⟩ := h.exists_reaches
  exact hk.stops hs hb

/-- The last moments are those below one that ends with a signal that stops everything. -/
theorem lt_or_below (hs : s.Stops) (h : a.At o p b) (hb : b.outcome o = .signal s m)
    (h' : a.At o q c) : q < p ∨ p <+: q := by
  induction h generalizing q with
  | here => exact .inr List.nil_prefix
  | @inside n i p t t' m₀ m₁ b begins rest ih =>
    cases h' with
    | here => exact .inl (List.nil_lt_cons i p)
    | @inside _ k q _ t'' _ m₂ _ begins' rest' =>
      obtain ⟨m₃, hend, -⟩ := rest.stops hs hb
      obtain hlt | rfl := Nat.lt_or_eq_of_le (begins.le_of_stops hs hend begins')
      · exact .inl (List.cons_lt_cons_iff.mpr (.inl hlt))
      · obtain ⟨rfl, rfl⟩ := begins.unique begins'
        obtain hlt | hprefix := ih hb rest'
        · exact .inl (List.cons_lt_cons_iff.mpr (.inr ⟨rfl, hlt⟩))
        · exact .inr (List.cons_prefix_cons.mpr ⟨rfl, hprefix⟩)

end At

theorem Raises.outcome_eq (h : a.Raises o s m) : a.outcome o = .signal s m := by
  obtain ⟨h⟩ := h
  exact (Task.eval_succ ..).trans h.run_eq

/-- A signal with which an evaluation ends has arisen at some moment of it. -/
theorem exists_raises (ha : a.outcome o = .signal s m) :
    ∃ p b m', a.At o p b ∧ b.Raises o s m' := by
  obtain ⟨n, t, m₀⟩ := a
  induction n generalizing t m₀ m with
  | zero => cases (Task.eval_zero o t m₀).symm.trans ha
  | succ n ih =>
    have hrun := (Task.eval_succ o n t m₀).symm.trans ha
    obtain ⟨i, t', m₁, m₂, hbegins, hend⟩ | hraises := t.plan_madeOf.begins_or_raises hrun
    · obtain ⟨p, b, m', hp, hb⟩ := ih t' m₁ hend
      exact ⟨i :: p, b, m', .inside hbegins hp, hb⟩
    · exact ⟨[], _, m, .here _, .step hraises⟩

/-- A runtime error and `exit` end everything at once. If part of an evaluation, at the address `p`, ends
with such a signal, then the whole does, with the store and the output of that part. They are those of
the machine in which the signal arose, at some moment of the part; and neither after the part nor after
that moment does the evaluation come to any other moment than those below. -/
theorem stops_everything (hs : s.Stops) (hb : a.At o p b) (hsignal : b.outcome o = .signal s m) :
    (∃ m', a.outcome o = .signal s m' ∧ m'.store = m.store ∧ m'.printed = m.printed) ∧
      (∀ q c, a.At o q c → q < p ∨ p <+: q) ∧
      ∃ r d m₀, a.At o (p ++ r) d ∧ d.Raises o s m₀ ∧
        m.store = m₀.store ∧ m.printed = m₀.printed ∧
        ∀ q c, a.At o q c → q < p ++ r ∨ p ++ r <+: q := by
  refine ⟨hb.stops hs hsignal, fun q c hc => hb.lt_or_below hs hsignal hc, ?_⟩
  obtain ⟨r, d, m₀, hd, hraises⟩ := exists_raises hsignal
  obtain ⟨m', hend, hstore, hprinted⟩ := hd.stops hs hraises.outcome_eq
  obtain ⟨-, rfl⟩ := Outcome.signal.inj (hsignal.symm.trans hend)
  exact ⟨r, d, m₀, hb.trans hd, hraises, hstore, hprinted, fun q c hc =>
    (hb.trans hd).lt_or_below hs hraises.outcome_eq hc⟩

/-- The division by zero in the body of the function ends `[print("a"), fn() { 1 / 0 }(), print("b")]`
with one line printed. -/
theorem stops_everything_division :
    let say (text : String) : Expr := .call (.ident "print" .nowhere) [.str text .nowhere] .nowhere
    let quotient : Expr := .binary .div (.int 1 .nowhere) (.int 0 .nowhere) .nowhere
    let body : Block := ⟨[.expr quotient .nowhere], .nowhere⟩
    let failing : Expr := .call (.function [] body .nowhere .nowhere) [] .nowhere
    let a : Moment := ⟨12, .expr (.array [say "a", failing, say "b"] .nowhere), .initial⟩
    let s : Signal := .failed .divisionByZero
    ∃ b m, b.task = .expr quotient ∧ m.printed = "a\n" ∧ s.Stops ∧ a.At {} [0, 1, 0, 2, 0, 0, 0] b ∧
      b.outcome {} = .signal s m ∧
      (∃ m', a.outcome {} = .signal s m' ∧ m'.store = m.store ∧ m'.printed = m.printed) ∧
      (∀ q c, a.At {} q c → q < [0, 1, 0, 2, 0, 0, 0] ∨ [0, 1, 0, 2, 0, 0, 0] <+: q) ∧
      ∃ r d m₀, a.At {} ([0, 1, 0, 2, 0, 0, 0] ++ r) d ∧ d.Raises {} s m₀ ∧
        m.store = m₀.store ∧ m.printed = m₀.printed ∧
        ∀ q c, a.At {} q c →
          q < [0, 1, 0, 2, 0, 0, 0] ++ r ∨ [0, 1, 0, 2, 0, 0, 0] ++ r <+: q := by
  intro say quotient body failing a s
  have hs : s.Stops := nofun
  have hb : a.At {} [0, 1, 0, 2, 0, 0, 0] _ :=
    .inside .after <| .inside (.later rfl .after) <| .inside .after <|
      .inside (.later rfl (.later rfl .after)) <| .inside .body <| .inside .after <|
      .inside .after <| .here _
  exact ⟨_, _, rfl, by decide +kernel, hs, hb, rfl, stops_everything hs hb rfl⟩

end Moment

end MonkeyLang
