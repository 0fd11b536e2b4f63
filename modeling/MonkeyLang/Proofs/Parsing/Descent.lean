import MonkeyLang.Proofs.Parsing.Kinds
import MonkeyLang.Proofs.Parsing.Progress
import MonkeyLang.Proofs.Parsing.Routine

/-!
# Reading goes forward or down

A production reads others either further on in the tokens or at a smaller rank, so no chain of
productions that read each other is endless. The loops of the parser are productions that read
themselves, which keeps the rank, so each of their turns is further on.

That the routines are made like this is checked once, on the routines (`Production.orderly`): which
kind of token stands where a production is begun, how many tokens have been consumed by then, and
that the end of the input is never consumed. What follows for states is proved for all routines with
that property.

## Main definitions

* `Production.rank`, `Production.least` : the rank, and the least number of tokens of what is read.
* `Outcome.Ends` : a property holds of the state in which reading ends.

## Main statements

* `Production.forward` : reading goes forward.
* `Production.descends` : what is read on the way is further on or of a smaller rank.
-/

namespace MonkeyLang.Parser

variable {α : Type}

/-! ### What is known of the productions -/

namespace Production

/-- A production is only begun where a token of a kind stands that suits it, and with a closing
token that suits it. -/
def Suits : Production → TokenKind → Prop
  | .unary op, k => k = op.token
  | .grouping, k => k = .lparen
  | .conditional, k => k = .ifKw
  | .function, k => k = .fnKw
  | .arrayLiteral, k => k = .lbracket
  | .hashLiteral, k => k = .lbrace
  | .letBinding, k => k = .letKw
  | .returnStatement, k => k = .returnKw
  | .forLoop, k => k = .forKw
  | .expressions close, _ | .expressionsFrom close, _ => close = .rparen ∨ close = .rbracket
  | .loopPart close, _ => close = .semicolon ∨ close = .rparen
  | _, _ => True

/-- The rank. What a production reads before it has consumed anything is of a smaller rank. -/
def rank : Production → Nat
  | .operators .. | .unary _ | .grouping | .conditional | .function | .arrayLiteral | .hashLiteral
  | .letBinding | .returnStatement | .forLoop | .block | .paramNames => 1
  | .operand => 2
  | .expression _ => 3
  | .expressionsFrom _ | .entries | .statement | .loopInit | .loopPart _ => 4
  | .expressions _ | .statements _ => 5
  | .extension .. => 6

/-- The least number of tokens that are consumed when the production is read. -/
def least : Production → Nat
  | .operators .. | .entries | .loopInit | .loopPart _ | .statements _ => 0
  | _ => 1

end Production

namespace Routine

/-- The moves of the production `p`, of which `j` tokens have been consumed and at which a token of
the kind `k` stands, are in order: the end of the input is not consumed, what is read suits its
place and is further on or of a smaller rank, and at least `p.least` tokens have been consumed in
the end. -/
def Orderly (p : Production) : Nat → Routine α → TokenKind → Prop
  | j, .done _, _ => p.least ≤ j
  | _, .fail _ _, _ => True
  | j, .look next, k => ∀ span, (next k span).Orderly p j k
  | j, .last next, k => 1 ≤ j ∧ ∀ span, (next span).Orderly p j k
  | j, .advance next, k => k ≠ .eof ∧ ∀ k', next.Orderly p (j + 1) k'
  | j, .read q _ next, k =>
    q.Suits k ∧ (1 ≤ j ∨ q.rank < p.rank) ∧ ∀ r k', (next r).Orderly p (j + q.least) k'
  | j, .attempt _ next broken, k =>
    k ≠ .eof ∧ (1 ≤ j ∨ Production.statement.rank < p.rank) ∧
      (∀ st k', (next st).Orderly p (j + 1) k') ∧ ∀ k', broken.Orderly p (j + 1) k'

section

variable {p : Production} {j : Nat} {k : TokenKind}

theorem orderly_ite (c : Prop) [Decidable c] (r r' : Routine α) :
    (if c then r else r').Orderly p j k ↔ (c → r.Orderly p j k) ∧ (¬ c → r'.Orderly p j k) := by
  split <;> simp_all

theorem orderly_expect (c : TokenKind) (context : Option Construct) (next : Span → Routine α) :
    (Routine.expect c context next).Orderly p j k ↔
      ∀ span, k = c → k ≠ .eof ∧ ∀ k', (next span).Orderly p (j + 1) k' := by
  simp [Routine.expect, Orderly, orderly_ite]

theorem orderly_expectIdent (next : String → Routine α) :
    (Routine.expectIdent next).Orderly p j k ↔
      ∀ name, k = .ident name → ∀ k', (next name).Orderly p (j + 1) k' := by
  cases k <;> simp [Routine.expectIdent, Orderly]

theorem orderly_skipOne (c : TokenKind) (next : Routine α) :
    (Routine.skipOne c next).Orderly p j k ↔
      (k = c → k ≠ .eof ∧ ∀ k', next.Orderly p (j + 1) k') ∧ (k ≠ c → next.Orderly p j k) := by
  simp [Routine.skipOne, Orderly, orderly_ite]

end

end Routine

/-! ### The routines are in order -/

section

open Routine

variable {k : TokenKind}

attribute [local simp] Orderly orderly_ite orderly_expect orderly_expectIdent orderly_skipOne
  Production.rank Production.least Production.Suits

/-- The moves of every production are in order where it suits. -/
theorem Production.orderly (p : Production) (h : p.Suits k) : p.routine.Orderly p 0 k := by
  cases p with
  | operators min left =>
    cases hx : Extension.ofToken? k with
    | none => simp [routine, hx]
    | some x =>
      have hk : k ≠ .eof := by
        rintro rfl
        cases hx
      simp [routine, hx, hk]
  | extension x left => cases x <;> simp [routine, extensionRoutine]
  | operand => cases k <;> simp [routine, operandRoutine, UnaryOp.token]
  | statement => cases k <;> simp [routine, statementRoutine]
  | unary op => cases op <;> simp_all [routine, UnaryOp.token]
  | conditional => simp_all [routine, conditionalRoutine]
  | function => simp_all [routine, functionRoutine]
  | forLoop => simp_all [routine, forLoopRoutine]
  | loopInit => cases k <;> simp [routine]
  | expressions close | expressionsFrom close =>
    rcases h with rfl | rfl <;> simp +contextual [routine]
  | _ => simp_all +contextual [routine]

end

/-! ### Where reading ends -/

/-- Reading ends with a construct and a state as `D` says, with an error and a state as `F` says, or
not at all. -/
def Outcome.Ends (o : Outcome α) (D : α → State → Prop) (F : ParseError → State → Prop) : Prop :=
  match o with
  | .done r s => D r s
  | .failed e s => F e s
  | .outOfFuel => True

theorem Outcome.Ends.mono {o : Outcome α} {D E : α → State → Prop} {F G : ParseError → State → Prop}
    (h : o.Ends D F) (hD : ∀ r s, D r s → E r s) (hF : ∀ e s, F e s → G e s) : o.Ends E G := by
  cases o with
  | done r s => exact hD r s h
  | failed e s => exact hF e s h
  | outOfFuel => trivial

/-- A broken statement and what is skipped after it are at least one token. -/
theorem State.past_recover_report {s s' : State} {e : ParseError} (hs : s.kind ≠ .eof)
    (h : State.Past 0 s s') (scope : Scope) :
    State.Past 1 s ((s'.report e).recover scope s.cursor.position) :=
  State.past_recover hs (by simpa only [State.Past, State.cursor_report] using h) scope

/-- A way to read productions that goes forward. -/
def Forward (rec : (p : Production) → State → Outcome p.Result) : Prop :=
  ∀ p s, p.Suits s.kind → (rec p s).Ends (fun _ s' => State.Past p.least s s')
    (fun _ s' => State.Past 0 s s')

namespace Routine

variable {p : Production} {rec : (p : Production) → State → Outcome p.Result} {s s' : State}
  {j : Nat}
  {Q : Production → State → Prop}

/-- What follows a production that is read. -/
theorem run_read {q : Production} {inside : Option Construct} {next : q.Result → Routine α} :
    (((Routine.read q inside next).plan s).run rec) =
      ((rec q s).inside inside).andThen fun r s' => ((next r).plan s').run rec := rfl

/-- Moves that are in order go forward. -/
theorem Orderly.past {r : Routine α} (hrec : Forward rec) (h : r.Orderly p j s'.kind)
    (hs : State.Past j s s') :
    ((r.plan s').run rec).Ends (fun _ t => State.Past p.least s t)
      (fun _ t => State.Past 0 s t) := by
  induction r generalizing s' j with
  | done r => exact hs.mono h
  | fail cause context => exact hs.mono (Nat.zero_le j)
  | look next ih => exact ih _ _ (h s'.span) hs
  | last next ih => exact ih _ (h.2 s'.previous) hs
  | advance next ih => exact ih (h.2 _) (hs.trans (State.past_advance_of_ne_eof h.1))
  | read q inside next ih =>
    have hq := hrec q s' h.1
    rw [run_read]
    cases hr : rec q s' with
    | done x t =>
      rw [hr] at hq
      cases inside <;> exact ih x (h.2.2 x t.kind) (hs.trans hq)
    | failed e t =>
      rw [hr] at hq
      have := (hs.trans hq).mono (Nat.zero_le _)
      cases inside <;> exact this
    | outOfFuel => cases inside <;> trivial
  | attempt scope next broken ih ihb =>
    have hst := hrec .statement s' trivial
    rw [plan, Plan.run]
    cases hr : rec .statement s' with
    | done st t =>
      rw [hr] at hst
      exact ih st (h.2.2.1 st t.kind) (hs.trans hst)
    | failed e t =>
      rw [hr] at hst
      exact ihb (h.2.2.2 _) (hs.trans (State.past_recover_report h.1 hst scope))
    | outOfFuel => trivial

/-- What moves in order read on the way suits its place, and is further on or of a smaller rank. -/
theorem Orderly.descends {r : Routine α} (hrec : Forward rec) (h : r.Orderly p j s'.kind)
    (hs : State.Past j s s') (hQ : (r.plan s').Any rec Q) :
    ∃ q t, Q q t ∧ q.Suits t.kind ∧ State.Past 0 s t ∧ (State.Past 1 s t ∨ q.rank < p.rank) := by
  induction r generalizing s' j with
  | done | fail => exact hQ.elim
  | look next ih => exact ih _ _ (h s'.span) hs hQ
  | last next ih => exact ih _ (h.2 s'.previous) hs hQ
  | advance next ih => exact ih (h.2 _) (hs.trans (State.past_advance_of_ne_eof h.1)) hQ
  | read q inside next ih =>
    rw [plan, Plan.Any] at hQ
    rcases hQ with hq | hQ
    · exact ⟨q, s', hq, h.1, hs.mono (Nat.zero_le j), h.2.1.imp_left hs.mono⟩
    have hd := hrec q s' h.1
    cases hr : rec q s' with
    | done x t =>
      rw [hr] at hQ hd
      exact ih x (h.2.2 x t.kind) (hs.trans hd) hQ
    | failed | outOfFuel =>
      rw [hr] at hQ
      exact hQ.elim
  | attempt scope next broken ih ihb =>
    rw [plan, Plan.Any] at hQ
    rcases hQ with hq | hQ
    · exact ⟨.statement, s', hq, trivial, hs.mono (Nat.zero_le j), h.2.1.imp_left hs.mono⟩
    have hd := hrec .statement s' trivial
    cases hr : rec .statement s' with
    | done st t =>
      rw [hr] at hQ hd
      exact ih st (h.2.2.1 st t.kind) (hs.trans hd) hQ
    | failed e t =>
      rw [hr] at hQ hd
      exact ihb (h.2.2.2 _) (hs.trans (State.past_recover_report h.1 hd scope)) hQ
    | outOfFuel =>
      rw [hr] at hQ
      exact hQ.elim

end Routine

/-- Reading goes forward. -/
theorem Production.forward (n : Nat) : Forward fun p s => p.read n s := by
  induction n with
  | zero =>
    intro p s _
    dsimp only
    rw [read_zero]
    trivial
  | succ n ih =>
    intro p s h
    dsimp only
    rw [read_succ, plan_eq]
    exact (p.orderly h).past ih (State.Past.refl s)

/-- What a production reads on the way is further on or of a smaller rank. -/
theorem Production.descends {n : Nat} {p : Production} {s : State} {Q : Production → State → Prop}
    (h : p.Suits s.kind) (hQ : (p.plan s).Any (fun p s => p.read n s) Q) :
    ∃ q t, Q q t ∧ q.Suits t.kind ∧ State.Past 0 s t ∧ (State.Past 1 s t ∨ q.rank < p.rank) := by
  rw [plan_eq] at hQ
  exact (p.orderly h).descends (forward n) (State.Past.refl s) hQ

end MonkeyLang.Parser
