import MonkeyLang.Proofs.Parsing.Soundness
import MonkeyLang.Proofs.Parsing.Termination

/-!
# Reading is local

What is read depends on the tokens up to the one that stands behind it, and on nothing further on.
Two states are in step if the same tokens come next at both, up to a token `x`, and any others
behind it. As long as `x` has not been consumed and no error has been reported, reading from the
first state ends as reading from the second does, and the states behind it are in step again.

The span of the token consumed last is the only thing that a routine sees and that does not come
from the tokens ahead. So it is part of the relation, as soon as a token has been consumed.

## Main definitions

* `State.After` : what is known of a state that is reached from another one.
* `State.InStep`, `Outcome.Follows` : two states, and two outcomes, that are alike up to `x`.

## Main statements

* `Production.follows` : two runs from states that are in step.
-/

namespace MonkeyLang.Parser

variable {α : Type}

/-! ### What is reached from a state -/

/-- `s'` is reached from `s`: tokens have been consumed from the front, and errors have been added
at the end. -/
structure State.After (s s' : State) : Prop where
  past : State.Past 0 s s'
  errors : s.errors <+: s'.errors

namespace State.After

variable {s s' s'' : State}

theorem refl (s : State) : After s s := ⟨Past.refl s, List.prefix_refl _⟩

theorem trans (h : After s s') (h' : After s' s'') : After s s'' :=
  ⟨h.past.trans h'.past, h.errors.trans h'.errors⟩

theorem suffix (h : After s s') : s'.cursor.rest <:+ s.cursor.rest := by
  obtain ⟨ts, hr, -⟩ := h.past
  exact ⟨ts, hr.symm⟩

theorem report (s : State) (e : ParseError) : After s (s.report e) := by
  refine ⟨by simpa only [Past, cursor_report] using Past.refl s, ?_⟩
  unfold State.report
  split
  · exact List.prefix_refl _
  · exact List.prefix_append _ _

theorem closed (s : State) : Closed (After s) where
  advance s' h := h.trans ⟨s'.past_advance, List.prefix_refl _⟩
  report s' e h _ := h.trans (report s' e)
  recover s' scope start h := h.trans ⟨s'.past_recover_self scope start, List.prefix_refl _⟩

end State.After

/-- What the moves come to is reached from where they begin, if that is so for what they read. -/
theorem Routine.run_after {rec : (p : Production) → State → Outcome p.Result}
    (hrec : ∀ p s, (rec p s).Keeps s.After) (r : Routine α) (s : State) :
    ((r.plan s).run rec).Keeps s.After :=
  (State.After.closed s).run_keeps
    (fun p u hu => (hrec p u).mono (fun _ _ hv => hu.trans hv) fun _ _ hv => ⟨hu.trans hv.1, hv.2⟩)
    r (.refl s)

/-- What comes out is reached from where reading began. -/
theorem Production.keeps_after (n : Nat) (p : Production) (s : State) :
    (p.read n s).Keeps s.After :=
  (State.After.closed s).ends n p (.refl s)

/-! ### In step -/

variable {x : Token} {as bs : List Token}

/-- The same tokens come next at both states, up to the token `x`, and then `as` at the first and
`bs` at the second. If tokens have been consumed, the last of them stood at the same place. -/
structure State.InStep (x : Token) (as bs : List Token) (i : Nat) (s t : State) : Prop where
  ahead : ∃ cs, s.cursor.rest = cs ++ x :: as ∧ t.cursor.rest = cs ++ x :: bs
  previous : 1 ≤ i → s.previous = t.previous

namespace State.InStep

variable {i j : Nat} {s t : State}

theorem mono (h : InStep x as bs i s t) (hj : j ≤ i) : InStep x as bs j s t :=
  ⟨h.ahead, fun h1 => h.previous (Nat.le_trans h1 hj)⟩

theorem rest_eq {cs : List Token} (h : InStep x as bs i s t) (hs : s.cursor.rest = cs ++ x :: as) :
    t.cursor.rest = cs ++ x :: bs := by
  obtain ⟨ds, hs', ht⟩ := h.ahead
  rwa [List.append_cancel_right (hs.symm.trans hs')]

theorem current_eq (h : InStep x as bs i s t) : s.cursor.current = t.cursor.current := by
  obtain ⟨cs, hs, ht⟩ := h.ahead
  simp only [Cursor.current, hs, ht]
  cases cs <;> rfl

theorem kind_eq (h : InStep x as bs i s t) : s.kind = t.kind := congrArg Token.kind h.current_eq

theorem span_eq (h : InStep x as bs i s t) : s.span = t.span := congrArg Token.span h.current_eq

/-- Both consume the same token, unless it is `x`. -/
theorem advance (h : InStep x as bs i s t) (hk : s.kind ≠ .eof) :
    InStep x as bs (i + 1) s.advance t.advance ∨ s.advance.cursor.rest = as := by
  obtain ⟨⟨position, previous, rest⟩, errors⟩ := s
  obtain ⟨⟨position', previous', rest'⟩, errors'⟩ := t
  obtain ⟨cs, rfl, rfl⟩ := h.ahead
  cases cs with
  | nil =>
    have hx : (x.kind == .eof) = false := by
      simpa [State.kind, Cursor.kind, Cursor.current] using hk
    right
    simp [State.advance, Cursor.advance, hx]
  | cons c cs =>
    have hc : (c.kind == .eof) = false := by
      simpa [State.kind, Cursor.kind, Cursor.current] using hk
    left
    exact ⟨⟨cs, by simp [State.advance, Cursor.advance, hc]⟩, fun _ => by
      simp [State.advance, State.previous, Cursor.advance, hc]⟩

end State.InStep

/-- The token `x` has not been consumed, and no error has been reported. -/
structure State.Clean (x : Token) (as : List Token) (s : State) : Prop where
  errors : s.errors = []
  before : (x :: as) <:+ s.cursor.rest

theorem State.After.clean {s s' : State} (h : s.After s') (hs : s'.Clean x as) : s.Clean x as :=
  ⟨List.prefix_nil.1 (hs.errors ▸ h.errors), hs.before.trans h.suffix⟩

/-- If the first outcome is clean, the second is the same, with the errors `es` as before, and the
states behind are in step. -/
def Outcome.Follows (x : Token) (as bs : List Token) (i : Nat) (es : List ParseError) :
    Outcome α → Outcome α → Prop
  | .done r s', o =>
    s'.Clean x as → ∃ t', o = .done r t' ∧ s'.InStep x as bs i t' ∧ t'.errors = es
  | .failed e s', o =>
    s'.Clean x as → ∃ t', o = .failed e t' ∧ s'.InStep x as bs 0 t' ∧ t'.errors = es
  | .outOfFuel, _ => True

namespace Outcome.Follows

variable {o o' : Outcome α} {i : Nat} {es : List ParseError} {s : State}

/-- What goes on from a state that is not clean does not end in one. -/
theorem of_not_clean (h : o.Keeps s.After) (hs : ¬ s.Clean x as) : o.Follows x as bs i es o' := by
  cases o with
  | done r s' => exact fun hs' => absurd (State.After.clean h hs') hs
  | failed e s' => exact fun hs' => absurd (State.After.clean h.1 hs') hs
  | outOfFuel => trivial

end Outcome.Follows

/-! ### Reading in step -/

section

variable {p : Production} {rec : (p : Production) → State → Outcome p.Result} {i j : Nat}
  {s t : State}

/-- Moves that are in order are made in step. -/
theorem Routine.Orderly.follows {r : Routine α} (hafter : ∀ q u, (rec q u).Keeps u.After)
    (hrec : ∀ q i u v, q.Suits u.kind → u.InStep x as bs i v → u.errors = [] →
      (rec q u).Follows x as bs (i + q.least) v.errors (rec q v))
    (h : r.Orderly p j s.kind) (hst : s.InStep x as bs (i + j) t) (hs : s.errors = []) :
    ((r.plan s).run rec).Follows x as bs (i + p.least) t.errors ((r.plan t).run rec) := by
  induction r generalizing s t j with
  | done r => exact fun _ => ⟨t, rfl, hst.mono (Nat.add_le_add_left h i), rfl⟩
  | fail cause context =>
    intro _
    refine ⟨t, ?_, hst.mono (Nat.zero_le _), rfl⟩
    rw [plan, Plan.run, hst.span_eq]
  | look next ih =>
    rw [plan, plan, ← hst.kind_eq, ← hst.span_eq]
    exact ih _ _ (h s.span) hst hs
  | last next ih =>
    rw [plan, plan, ← hst.previous (Nat.le_trans h.1 (Nat.le_add_left j i))]
    exact ih _ (h.2 s.previous) hst hs
  | advance next ih =>
    rcases hst.advance h.1 with hst' | hlost
    · exact ih (h.2 _) hst' hs
    · refine .of_not_clean (run_after hafter next s.advance) fun hc => ?_
      have := hc.before.length_le
      rw [hlost, List.length_cons] at this
      omega
  | read q inside next ih =>
    have hq := hrec q _ s t h.1 hst hs
    rw [run_read, run_read]
    cases hr : rec q s with
    | done y u =>
      rw [hr] at hq
      by_cases hu : u.Clean x as
      · obtain ⟨v, hv, huv, he⟩ := hq hu
        rw [hv]
        have := ih y (h.2.2 y u.kind) (by rwa [← Nat.add_assoc]) hu.errors
        rw [he] at this
        cases inside <;> exact this
      · cases inside <;> exact .of_not_clean (run_after hafter (next y) u) hu
    | failed e u =>
      rw [hr] at hq
      cases inside <;>
        · intro hu
          obtain ⟨v, hv, huv⟩ := hq hu
          rw [hv]
          exact ⟨v, rfl, huv⟩
    | outOfFuel => cases inside <;> trivial
  | attempt scope next broken ih ihb =>
    have hq := hrec .statement _ s t trivial hst hs
    rw [plan, plan, Plan.run, Plan.run]
    cases hr : rec .statement s with
    | done st u =>
      rw [hr] at hq
      by_cases hu : u.Clean x as
      · obtain ⟨v, hv, huv, he⟩ := hq hu
        rw [hv]
        have := ih st (h.2.2.1 st u.kind) (by rwa [← Nat.add_assoc]) hu.errors
        rwa [he] at this
      · exact .of_not_clean (run_after hafter (next st) u) hu
    | failed e u =>
      refine .of_not_clean (run_after hafter broken _) fun hc => State.errors_report_ne_nil e hc.errors
    | outOfFuel => trivial

end

/-- Reading from two states that are in step. -/
theorem Production.follows {n i : Nat} {p : Production} {s t : State} (hp : p.Suits s.kind)
    (hst : s.InStep x as bs i t) (hs : s.errors = []) :
    (p.read n s).Follows x as bs (i + p.least) t.errors (p.read n t) := by
  induction n generalizing p s t i with
  | zero =>
    rw [read_zero]
    trivial
  | succ n ih =>
    rw [read_succ, read_succ, plan_eq, plan_eq]
    exact (p.orderly hp).follows (fun q u => q.keeps_after n u) (fun q i u v => ih) hst hs

end MonkeyLang.Parser
