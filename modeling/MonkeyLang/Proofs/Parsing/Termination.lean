import MonkeyLang.Proofs.Parsing.Moments

/-!
# Reading ends

Every list of tokens is read to an end, and what comes out does not depend on the bound on the
number of steps once that is large enough. On the way the cursor never leaves the list, and whatever
is begun is further on in it or of a smaller rank than what begins it. The loops of the parser begin
their own next turn, which does not lower the rank, so every turn of them is further on. Skipping
looks at one token after the other.

## Main statements

* `Production.read_mono` : reading with more steps.
* `Program.reading_ends` : reading ends, and why.
-/

namespace MonkeyLang.Parser

variable {α : Type}

/-! ### More steps -/

/-- If productions are read as before, the plan is carried out as before. -/
theorem Plan.run_mono {rec rec' : (p : Production) → State → Outcome p.Result}
    (h : ∀ p s, rec p s ≠ .outOfFuel → rec' p s = rec p s) (p : Plan α)
    (hp : p.run rec ≠ .outOfFuel) : p.run rec' = p.run rec := by
  induction p with
  | finish o => rfl
  | after q inside s next ih =>
    unfold run at hp ⊢
    cases hq : rec q s with
    | done r t =>
      rw [h q s (by simp [hq]), hq]
      rw [hq] at hp
      cases inside <;> exact ih r t hp
    | failed e t => rw [h q s (by simp [hq]), hq]; cases inside <;> rfl
    | outOfFuel =>
      rw [hq] at hp
      cases inside <;> exact absurd rfl hp
  | attempt s next broken ih ihb =>
    unfold run at hp ⊢
    cases hq : rec .statement s with
    | done st t =>
      rw [h .statement s (by simp [hq]), hq]
      rw [hq] at hp
      exact ih st t hp
    | failed e t =>
      rw [h .statement s (by simp [hq]), hq]
      rw [hq] at hp
      exact ihb e t hp
    | outOfFuel =>
      rw [hq] at hp
      exact absurd rfl hp

/-- More steps do not change how reading ends. -/
theorem Production.read_mono {n k : Nat} {p : Production} {s : State} (hnk : n ≤ k)
    (h : p.read n s ≠ .outOfFuel) : p.read k s = p.read n s := by
  induction n generalizing k p s with
  | zero => exact absurd (p.read_zero s) h
  | succ n ih =>
    obtain ⟨k, rfl⟩ : ∃ j, k = j + 1 := ⟨k - 1, by omega⟩
    rw [read_succ] at h ⊢
    rw [read_succ]
    exact Plan.run_mono (fun q t hq => ih (by omega) hq) _ h

/-! ### Places in the list -/

/-- Skipping goes forward, wherever the broken statement began. -/
theorem State.past_recover_self (s : State) (scope : Scope) (start : Nat) :
    State.Past 0 s (s.recover scope start) := by
  have skipped {c : Cursor} (hc : State.Past 0 s ⟨c, s.errors⟩) :
      State.Past 0 s ⟨resume scope 0 c.position c.previous c.rest, s.errors⟩ := by
    obtain ⟨us, hr, hp⟩ := exists_resume_rest scope 0 c.position c.previous c.rest
    exact hc.trans ⟨us, hr, hp, Nat.zero_le _⟩
  unfold State.recover
  split
  · exact skipped s.past_advance
  · exact skipped (State.Past.refl s)

/-- The state stands in the list: what has not been consumed is the list from its position on. -/
structure State.Along (tokens : List Token) (s : State) : Prop where
  position_le : s.cursor.position ≤ tokens.length
  rest_eq : s.cursor.rest = tokens.drop s.cursor.position

namespace State.Along

variable {tokens : List Token} {s s' : State}

theorem past (h : s.Along tokens) (hp : Past 0 s s') : s'.Along tokens := by
  obtain ⟨ts, hr, hpos, -⟩ := hp
  have hrest : tokens.drop s.cursor.position = ts ++ s'.cursor.rest := h.rest_eq.symm.trans hr
  have hlen := congrArg List.length hrest
  rw [List.length_drop, List.length_append] at hlen
  have hle := h.position_le
  exact {
    position_le := by omega
    rest_eq := by rw [hpos, ← List.drop_drop, hrest, List.drop_left] }

theorem closed (tokens : List Token) : Closed (State.Along tokens) where
  advance s h := h.past s.past_advance
  report s e h _ := ⟨by simpa using h.position_le, by simpa using h.rest_eq⟩
  recover s scope start h := h.past (s.past_recover_self scope start)

end State.Along

/-! ### The loops -/

/-- What is begun second is the next turn of the loop that is begun first. -/
def Production.Turns : Production → Production → Prop
  | .statements scope, .statements scope' => scope' = scope
  | .operators min _, .operators min' _ => min' = min
  | .expressionsFrom close, .expressionsFrom close' => close' = close
  | .entries, .entries | .paramNames, .paramNames => True
  | _, _ => False

theorem Production.Turns.rank_eq {p q : Production} (h : p.Turns q) : q.rank = p.rank := by
  unfold Turns at h
  split at h <;> first | rfl | exact h.elim

/-- Skipping ends at the next token, or behind it, or goes on behind it. -/
theorem resume_cons (scope : Scope) (depth position : Nat) (previous : Span) (t : Token)
    (ts : List Token) :
    resume scope depth position previous (t :: ts) = ⟨position, previous, t :: ts⟩ ∨
      resume scope depth position previous (t :: ts) = ⟨position + 1, t.span, ts⟩ ∨
      ∃ depth', resume scope depth position previous (t :: ts) =
        resume scope depth' (position + 1) t.span ts := by
  generalize hc : resume scope depth position previous (t :: ts) = c
  unfold resume at hc
  split at hc
  · exact .inl hc.symm
  · exact .inr (.inl hc.symm)
  · exact .inl hc.symm
  · exact .inl hc.symm
  · exact .inl hc.symm
  · exact .inr (.inr ⟨_, hc.symm⟩)
  · exact .inr (.inr ⟨_, hc.symm⟩)
  · cases scope with
    | block => exact .inl hc.symm
    | program => exact .inr (.inr ⟨_, hc.symm⟩)
  · exact .inr (.inr ⟨_, hc.symm⟩)

end MonkeyLang.Parser

namespace MonkeyLang.Program

open MonkeyLang.Parser

/-- The first moment of reading a program. -/
def firstMoment (fuel : Nat) (tokens : List Token) (reported : List ParseError) : Moment :=
  ⟨fuel, .statements .program, ⟨.ofTokens tokens, reported⟩⟩

/-- Every list of tokens, whatever its tokens are and whatever has been reported before, is read to
an end, always to the same one if there are enough steps. At every moment that is reached on the
way, with any number of steps, the cursor is in the list, and it is where what is begun there ends;
what is begun next is further on, or at the same place and of a smaller rank; and the next turn of a
loop is further on. Skipping ends at or behind the next token or goes on behind it. -/
theorem reading_ends (tokens : List Token) (reported : List ParseError) :
    (∀ n, enough tokens ≤ n → parse? n tokens reported = some (parse tokens reported)) ∧
    (∀ n a, (firstMoment n tokens reported).Reaches a →
      a.state.Along tokens ∧
      a.outcome.Ends (fun _ s => s.Along tokens) (fun _ s => s.Along tokens) ∧
      ∀ b, a.Begins b →
        (a.state.cursor.position < b.state.cursor.position ∨
          b.state.cursor.position = a.state.cursor.position ∧
            b.production.rank < a.production.rank) ∧
        (a.production.Turns b.production →
          a.state.cursor.position < b.state.cursor.position)) ∧
    (∀ scope depth position previous t ts,
      resume scope depth position previous (t :: ts) = ⟨position, previous, t :: ts⟩ ∨
        resume scope depth position previous (t :: ts) = ⟨position + 1, t.span, ts⟩ ∨
        ∃ depth', resume scope depth position previous (t :: ts) =
          resume scope depth' (position + 1) t.span ts) := by
  refine ⟨fun n hn => ?_, fun n a ha => ?_, resume_cons⟩
  · obtain ⟨ss, s, hrun, hparse⟩ := exists_parse_eq tokens reported
    have hmore : statements n .program ⟨.ofTokens tokens, reported⟩ = .done ss s :=
      (Production.read_mono (p := .statements .program) hn (by simp [Production.read, hrun])).trans
        hrun
    rw [hparse, parse?, hmore]
  · have hstart : State.Along tokens ⟨.ofTokens tokens, reported⟩ := ⟨Nat.zero_le _, rfl⟩
    have halong := (State.Along.closed tokens).reaches ha hstart
    refine ⟨halong, ?_, fun b hb => ?_⟩
    · exact ((State.Along.closed tokens).ends a.fuel a.production halong).mono
        (fun _ _ h => h) fun _ _ h => h.1
    · obtain ⟨-, ⟨us, -, hpos, -⟩, hdown⟩ := hb.descends (ha.suits trivial)
      have hforth : a.state.cursor.position < b.state.cursor.position ∨
          b.state.cursor.position = a.state.cursor.position ∧
            b.production.rank < a.production.rank := by
        rcases hdown with ⟨vs, -, hpos', hvs⟩ | hrank
        · exact .inl (by omega)
        · by_cases hz : us.length = 0
          · exact .inr ⟨by omega, hrank⟩
          · exact .inl (by omega)
      refine ⟨hforth, fun hturn => ?_⟩
      rcases hforth with h | ⟨-, hrank⟩
      · exact h
      · exact absurd hturn.rank_eq (Nat.ne_of_lt hrank)

end MonkeyLang.Program
