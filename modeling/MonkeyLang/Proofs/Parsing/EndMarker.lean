import Mathlib
import MonkeyLang.Proofs.Parsing.Recovery

/-!
# The end of the input

Reading sees the tokens up to the first end marker and nothing behind it. A list without an end
marker reads as if `Token.endOfInput` stood at its end.

A routine sees the kind and the span of the current token and the span of the token consumed last.
So a map of states that leaves all of these as they are, and that goes with every single move, goes
with whole runs, whatever the grammar is. To cut the tokens that are left behind the first end
marker, or to put one there, is such a map: nothing is consumed at an end marker, and skipping stops
in front of it.

## Main definitions

* `State.Unseen` : a map of states that reading does not see.
* `terminated` : the tokens up to the first end marker and with it.
* `State.InFront` : a state that has not got past the tokens in front of an end marker.

## Main statements

* `State.Unseen.read` : reading goes with a map that it does not see.
* `Program.parse_terminated` : what tokens are read as.
* `Program.ofTokens_ends_at_marker` : tokens with and without an end marker, and with more behind it.
-/

namespace MonkeyLang.Parser

variable {α : Type}

/-! ### What reading does not see -/

/-- The same ending, in the state that `f` makes of the state. -/
def Outcome.mapState (f : State → State) : Outcome α → Outcome α
  | .done r s => .done r (f s)
  | .failed e s => .failed e (f s)
  | .outOfFuel => .outOfFuel

/-- What a routine sees is the same after `f`, and it does not matter whether `f` comes before or
after a move. -/
structure State.Unseen (f : State → State) : Prop where
  kind : ∀ s, (f s).kind = s.kind
  span : ∀ s, (f s).span = s.span
  previous : ∀ s, (f s).previous = s.previous
  position : ∀ s, (f s).cursor.position = s.cursor.position
  advance : ∀ s, (f s).advance = f s.advance
  report : ∀ s e, (f s).report e = f (s.report e)
  recover : ∀ s scope start, (f s).recover scope start = f (s.recover scope start)

namespace State.Unseen

variable {f : State → State} (hf : Unseen f)
include hf

/-- Moves go with `f` if what they read does. -/
theorem run {rec : (p : Production) → State → Outcome p.Result}
    (hrec : ∀ p s, rec p (f s) = (rec p s).mapState f) (r : Routine α) (s : State) :
    (r.plan (f s)).run rec = ((r.plan s).run rec).mapState f := by
  induction r generalizing s with
  | done r => rfl
  | fail cause context =>
    rw [Routine.plan, Routine.plan, hf.span]
    rfl
  | look next ih =>
    rw [Routine.plan, Routine.plan, hf.kind, hf.span]
    exact ih _ _ s
  | last next ih =>
    rw [Routine.plan, Routine.plan, hf.previous]
    exact ih _ s
  | advance next ih =>
    rw [Routine.plan, Routine.plan, hf.advance]
    exact ih s.advance
  | read p inside next ih =>
    rw [Routine.run_read, Routine.run_read, hrec]
    cases rec p s with
    | done r t => cases inside <;> exact ih r t
    | failed | outOfFuel => cases inside <;> rfl
  | attempt scope next broken ih ihb =>
    rw [Routine.plan, Routine.plan, Plan.run, Plan.run, hrec]
    cases rec .statement s with
    | done st t => exact ih st t
    | failed e t =>
      -- The error is reported after `f`, and the place where the statement began is the same.
      dsimp only [Outcome.mapState]
      rw [hf.report, hf.position, hf.recover]
      exact ihb _
    | outOfFuel => rfl

/-- Reading goes with `f`. -/
theorem read (n : Nat) (p : Production) (s : State) :
    p.read n (f s) = (p.read n s).mapState f := by
  induction n generalizing p s with
  | zero =>
    rw [Production.read_zero, Production.read_zero]
    rfl
  | succ n ih =>
    rw [Production.read_succ, Production.read_succ, Production.plan_eq, Production.plan_eq]
    exact hf.run (fun q t => ih q t) p.routine s

end State.Unseen

end MonkeyLang.Parser

namespace MonkeyLang

/-! ### Cutting behind the end marker -/

/-- The tokens up to the first end marker and with it. If there is none, one is put behind them. -/
def terminated : List Token → List Token
  | [] => [.endOfInput]
  | t :: ts => if t.kind = .eof then [t] else t :: terminated ts

/-- Tokens in front of the first end marker stay. -/
theorem terminated_append {ts : List Token} (h : ∀ t ∈ ts, t.kind ≠ .eof) (us : List Token) :
    terminated (ts ++ us) = ts ++ terminated us := by
  induction ts with
  | nil => rfl
  | cons t ts ih =>
    obtain ⟨ht, hts⟩ := List.forall_mem_cons.1 h
    rw [List.cons_append, terminated, if_neg ht, ih hts, List.cons_append]

/-- The cursor with no tokens left behind the end marker. -/
def Cursor.terminated (c : Cursor) : Cursor := { c with rest := MonkeyLang.terminated c.rest }

namespace Cursor

theorem current_terminated (c : Cursor) : c.terminated.current = c.current := by
  obtain ⟨position, previous, rest⟩ := c
  cases rest with
  | nil => rfl
  | cons t ts =>
    simp only [current, terminated, MonkeyLang.terminated]
    split <;> rfl

theorem advance_terminated (c : Cursor) : c.terminated.advance = c.advance.terminated := by
  obtain ⟨position, previous, rest⟩ := c
  cases rest with
  | nil => rfl
  | cons t ts => by_cases ht : t.kind = .eof <;>
      simp [advance, terminated, MonkeyLang.terminated, ht]

end Cursor

namespace Parser

/-- Skipping stops in front of the end marker. -/
theorem resume_terminated (scope : Scope) (depth position : Nat) (previous : Span)
    (ts : List Token) :
    resume scope depth position previous (terminated ts) =
      (resume scope depth position previous ts).terminated := by
  induction ts generalizing depth position previous with
  | nil => rfl
  | cons t ts ih =>
    by_cases ht : t.kind = .eof
    · simp [terminated, Cursor.terminated, resume, ht]
    have stays : (⟨position, previous, t :: terminated ts⟩ : Cursor) =
        Cursor.terminated ⟨position, previous, t :: ts⟩ := by
      rw [Cursor.terminated, terminated, if_neg ht]
    rw [terminated, if_neg ht]
    unfold resume
    split
    · exact stays
    · rfl
    · exact stays
    · exact stays
    · exact stays
    · exact ih _ _ _
    · exact ih _ _ _
    · cases scope with
      | block => exact stays
      | program => exact ih _ _ _
    · exact ih _ _ _

/-- The state with no tokens left behind the end marker. -/
def State.terminated (s : State) : State := { s with cursor := s.cursor.terminated }

/-- Reading does not see what is behind the end marker, nor whether there is one. -/
theorem State.terminated_unseen : Unseen State.terminated where
  kind s := congrArg Token.kind s.cursor.current_terminated
  span s := congrArg Token.span s.cursor.current_terminated
  previous _ := rfl
  position _ := rfl
  advance s := by rw [advance, terminated, Cursor.advance_terminated]; rfl
  report s e := (apply_ite terminated _ s { s with errors := s.errors ++ [e] }).symm
  recover s scope start := by
    have hfrom : (if s.cursor.position = start then s.cursor.terminated.advance
        else s.cursor.terminated) =
          (if s.cursor.position = start then s.cursor.advance else s.cursor).terminated := by
      rw [Cursor.advance_terminated, apply_ite Cursor.terminated]
    have hresume (c : Cursor) :
        resume scope 0 c.terminated.position c.terminated.previous c.terminated.rest =
          (resume scope 0 c.position c.previous c.rest).terminated :=
      resume_terminated ..
    simp only [recover, terminated]
    rw [← hresume, ← hfrom]
    rfl

end Parser

namespace Program

open MonkeyLang.Parser

/-- What tokens are read as, and which errors are found in them, depends on the tokens up to the
first end marker only, and a missing end marker counts as one. -/
theorem parse_terminated (tokens : List Token) (reported : List ParseError) :
    parse (terminated tokens) reported = parse tokens reported := by
  obtain ⟨ss, s, hrun, hparse⟩ := exists_parse_eq tokens reported
  obtain ⟨ss', s', hrun', hparse'⟩ := exists_parse_eq (terminated tokens) reported
  have hcut : statements (enough tokens) .program ⟨.ofTokens (terminated tokens), reported⟩ =
      .done ss s.terminated := by
    have hread := State.terminated_unseen.read (enough tokens) (.statements .program)
      ⟨.ofTokens tokens, reported⟩
    rwa [Production.read, Production.read, hrun] at hread
  obtain ⟨rfl, rfl⟩ := Yields.unique ⟨_, hrun'⟩ ⟨_, hcut⟩
  rw [hparse, hparse']
  rfl

end Program

namespace Parser

/-! ### In front of the end marker -/

/-- Reading has not got past the tokens `ts`, and the tokens `us` behind them are all left. -/
structure State.InFront (ts us : List Token) (s : State) : Prop where
  position_le : s.cursor.position ≤ ts.length
  rest_eq : s.cursor.rest = ts.drop s.cursor.position ++ us

namespace State.InFront

variable {ts us : List Token} {s s' : State}

/-- Reading that goes forward and leaves the tokens `us` does not get past those in front of
them. -/
theorem past (h : s.InFront ts us) (hp : Past 0 s s') (hus : us <:+ s'.cursor.rest) :
    s'.InFront ts us := by
  obtain ⟨vs, hrest, hpos, -⟩ := hp
  obtain ⟨ws, hws⟩ := hus
  have hdrop : ts.drop s.cursor.position = vs ++ ws := by
    rw [h.rest_eq, ← hws, ← List.append_assoc] at hrest
    exact List.append_cancel_right hrest
  have hlen := congrArg List.length hdrop
  rw [List.length_drop, List.length_append] at hlen
  have hle := h.position_le
  exact {
    position_le := by omega
    rest_eq := by rw [hpos, ← List.drop_drop, hdrop, List.drop_left, hws] }

end State.InFront

/-- Every move stays in front of an end marker. -/
theorem State.InFront.closed (ts us : List Token) {x : Token} (hx : x.kind = .eof) :
    Closed (State.InFront ts (x :: us)) where
  advance s h := h.past s.past_advance (suffix_advance hx ⟨_, h.rest_eq.symm⟩)
  report s e h _ := ⟨by simpa using h.position_le, by simpa using h.rest_eq⟩
  recover s scope start h :=
    h.past (s.past_recover_self scope start) (suffix_recover hx ⟨_, h.rest_eq.symm⟩ scope start)

end Parser

namespace Program

open MonkeyLang.Parser

/-- Tokens without an end marker are read as the same program, and with the same errors, as with
one behind them that stands nowhere, and as with more tokens behind that. Of those nothing is ever
consumed, with any number of steps: at every moment of reading, and wherever what is begun then
ends, all of them are left, and the marker, too. -/
theorem ofTokens_ends_at_marker {ts : List Token} (h : ∀ t ∈ ts, t.kind ≠ .eof)
    (us : List Token) :
    ofTokens (ts ++ [⟨.eof, ⟨0, 0⟩⟩]) = ofTokens ts ∧
    ofTokens (ts ++ ⟨.eof, ⟨0, 0⟩⟩ :: us) = ofTokens ts ∧
    ∀ n a, (firstMoment n (ts ++ ⟨.eof, ⟨0, 0⟩⟩ :: us) []).Reaches a →
      a.state.InFront ts (⟨.eof, ⟨0, 0⟩⟩ :: us) ∧
        a.outcome.Ends (fun _ s => s.InFront ts (⟨.eof, ⟨0, 0⟩⟩ :: us))
          (fun _ s => s.InFront ts (⟨.eof, ⟨0, 0⟩⟩ :: us)) := by
  have hwithout : terminated ts = ts ++ [⟨.eof, ⟨0, 0⟩⟩] := by
    simpa [terminated, Token.endOfInput, Span.nowhere] using terminated_append h []
  have hwith (us : List Token) : terminated (ts ++ ⟨.eof, ⟨0, 0⟩⟩ :: us) = ts ++ [⟨.eof, ⟨0, 0⟩⟩] :=
    terminated_append h _
  have hcut (us : List Token) : ofTokens (ts ++ ⟨.eof, ⟨0, 0⟩⟩ :: us) = ofTokens ts := by
    rw [ofTokens, ofTokens, ← parse_terminated, hwith, ← hwithout, parse_terminated]
  refine ⟨hcut [], hcut us, fun n a ha => ?_⟩
  have hclosed := State.InFront.closed ts us (x := ⟨.eof, ⟨0, 0⟩⟩) rfl
  have hstate := hclosed.reaches ha ⟨Nat.zero_le _, rfl⟩
  exact ⟨hstate, (hclosed.ends a.fuel a.production hstate).mono (fun _ _ h => h) fun _ _ h => h.1⟩

/-- The tokens of `fn() { let 1; x`, a block with a broken statement and without its end. -/
def unfinished : List Token :=
  [⟨.fnKw, ⟨0, 2⟩⟩, ⟨.lparen, ⟨2, 3⟩⟩, ⟨.rparen, ⟨3, 4⟩⟩, ⟨.lbrace, ⟨5, 6⟩⟩, ⟨.letKw, ⟨7, 10⟩⟩,
    ⟨.int 1, ⟨11, 12⟩⟩, ⟨.semicolon, ⟨12, 13⟩⟩, ⟨.ident "x", ⟨14, 15⟩⟩]

/-- The end that is missing is not found behind the marker. -/
theorem ofTokens_unfinished_ends_at_marker :
    (∀ t ∈ unfinished, t.kind ≠ .eof) ∧
    (ofTokens unfinished).errors =
      [⟨.unexpectedToken "\x7d" "end of file", ⟨0, 0⟩, some .block⟩,
        ⟨.unexpectedToken "identifier" "integer", ⟨11, 12⟩, some .letStatement⟩] ∧
    ofTokens (unfinished ++ [⟨.eof, ⟨0, 0⟩⟩]) = ofTokens unfinished ∧
    ofTokens (unfinished ++ [⟨.eof, ⟨0, 0⟩⟩, ⟨.rbrace, ⟨16, 17⟩⟩]) = ofTokens unfinished ∧
    ∀ n a, (firstMoment n (unfinished ++ [⟨.eof, ⟨0, 0⟩⟩, ⟨.rbrace, ⟨16, 17⟩⟩]) []).Reaches a →
      a.state.InFront unfinished [⟨.eof, ⟨0, 0⟩⟩, ⟨.rbrace, ⟨16, 17⟩⟩] ∧
        a.outcome.Ends (fun _ s => s.InFront unfinished [⟨.eof, ⟨0, 0⟩⟩, ⟨.rbrace, ⟨16, 17⟩⟩])
          (fun _ s => s.InFront unfinished [⟨.eof, ⟨0, 0⟩⟩, ⟨.rbrace, ⟨16, 17⟩⟩]) := by
  have h : ∀ t ∈ unfinished, t.kind ≠ .eof := by decide
  exact ⟨h, by cbv, ofTokens_ends_at_marker h [⟨.rbrace, ⟨16, 17⟩⟩]⟩

end Program

end MonkeyLang
