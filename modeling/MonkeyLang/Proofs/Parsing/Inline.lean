import MonkeyLang.Proofs.Parsing.FirstError

/-!
# Reading in front of a semicolon

Where no braces and no loops are, a semicolon is only consumed as the last token of a statement. So
an expression or the part of a statement in front of its semicolon is read, or fails, before the
next semicolon at the latest, and how it does depends on the tokens in front of the semicolon only.

## Main definitions

* `TokenKind.isQuiet` : the tokens that are no semicolon, no brace, no `for` and no end.
* `Production.isInline` : the productions that consume no semicolon and read no statements there.
* `State.Before` : a state from which quiet tokens lead to a semicolon.

## Main statements

* `Production.exists_inline` : the one way in which an inline production is read.
-/

namespace MonkeyLang

/-- The token is no semicolon, no brace, no `for` and not the end of the input. -/
def TokenKind.isQuiet : TokenKind → Bool
  | .semicolon | .lbrace | .rbrace | .forKw | .eof => false
  | _ => true

namespace Parser

variable {α : Type}

/-- Where no braces and no loops are, the production consumes no semicolon and reads no
statement. -/
def Production.isInline : Production → Bool
  | .hashLiteral | .entries | .statement | .returnStatement | .forLoop | .loopInit | .loopPart _
  | .statements _ => false
  | _ => true

/-- Where no opening brace and no `for` is, the moves from a token of the kind `k` on consume no
semicolon, read inline productions only and try no statement. -/
def Routine.Inline : Routine α → TokenKind → Prop
  | .done _, _ => True
  | .fail _ _, _ => True
  | .look next, k => ∀ span, (next k span).Inline k
  | .last next, k => ∀ span, (next span).Inline k
  | .advance next, k => k ≠ .semicolon ∧ ∀ k', k' ≠ .lbrace → k' ≠ .forKw → next.Inline k'
  | .read q _ next, _ =>
    q.isInline = true ∧ ∀ r k', k' ≠ .lbrace → k' ≠ .forKw → (next r).Inline k'
  | .attempt _ _ _, _ => False

namespace Routine

variable {k : TokenKind}

theorem inline_ite (c : Prop) [Decidable c] (r r' : Routine α) :
    (if c then r else r').Inline k ↔ (c → r.Inline k) ∧ (¬ c → r'.Inline k) := by
  split <;> simp_all

theorem inline_expect (c : TokenKind) (context : Option Construct) (next : Span → Routine α) :
    (Routine.expect c context next).Inline k ↔ ∀ span, k = c →
      k ≠ .semicolon ∧ ∀ k', k' ≠ .lbrace → k' ≠ .forKw → (next span).Inline k' := by
  simp [Routine.expect, Inline, inline_ite]

theorem inline_expectIdent (next : String → Routine α) :
    (Routine.expectIdent next).Inline k ↔ ∀ name, k = .ident name →
      ∀ k', k' ≠ .lbrace → k' ≠ .forKw → (next name).Inline k' := by
  cases k <;> simp [Routine.expectIdent, Inline]

end Routine

section

open Routine

variable {k : TokenKind}

attribute [local simp] Inline inline_ite inline_expect inline_expectIdent Production.isInline
  Production.Suits

/-- The moves of an inline production are inline. -/
theorem Production.inline {p : Production} (hp : p.isInline = true) (hs : p.Suits k)
    (hb : k ≠ .lbrace) (hf : k ≠ .forKw) : p.routine.Inline k := by
  cases p with
  | operators min left =>
    cases hx : Extension.ofToken? k with
    | none => simp [routine, hx]
    | some x =>
      have hk : k ≠ .semicolon := by
        rintro rfl
        cases hx
      simp [routine, hx, hk]
  | extension x left => cases x <;> simp +contextual [routine, extensionRoutine]
  | operand => cases k <;> simp_all [routine, operandRoutine]
  | unary op => cases op <;> simp_all [routine, UnaryOp.token]
  | conditional => simp_all [routine, conditionalRoutine]
  | function => simp_all +contextual [routine, functionRoutine]
  | expressions close | expressionsFrom close =>
    rcases hs with rfl | rfl <;> simp +contextual [routine]
  | _ => simp_all +contextual [routine]

end

/-! ### Before the semicolon -/

/-- Quiet tokens lead to the token `x`. -/
def State.Before (x : Token) (as : List Token) (s : State) : Prop :=
  ∃ ts, (∀ t ∈ ts, t.kind.isQuiet = true) ∧ s.cursor.rest = ts ++ x :: as

variable {x : Token} {as : List Token}

theorem State.Before.advance {s : State} (h : s.Before x as) (hx : x.kind = .semicolon)
    (hk : s.kind ≠ .semicolon) (he : s.kind ≠ .eof) : s.advance.Before x as := by
  obtain ⟨ts, hts, hrest⟩ := h
  have hcons := State.rest_eq_cons he
  cases ts with
  | nil =>
    rw [hrest, List.nil_append] at hcons
    exact absurd ((congrArg Token.kind (List.cons.inj hcons).1).symm.trans hx) hk
  | cons t ts =>
    rw [hrest, List.cons_append] at hcons
    exact ⟨ts, fun u hu => hts u (List.mem_cons_of_mem t hu), (List.cons.inj hcons).2.symm⟩

theorem State.Before.isQuiet {s : State} (h : s.Before x as) (hx : x.kind = .semicolon) :
    s.kind.isQuiet = true ∨ s.kind = .semicolon := by
  obtain ⟨ts, hts, hrest⟩ := h
  cases ts with
  | nil => exact .inr (by simp [State.kind, Cursor.kind, Cursor.current, hrest, hx])
  | cons t ts =>
    exact .inl (by simpa [State.kind, Cursor.kind, Cursor.current, hrest] using hts t (by simp))

theorem State.Before.ne_lbrace {s : State} (h : s.Before x as) (hx : x.kind = .semicolon) :
    s.kind ≠ .lbrace := by
  rcases h.isQuiet hx with h | h <;> intro hk <;> simp [hk, TokenKind.isQuiet] at h

theorem State.Before.ne_forKw {s : State} (h : s.Before x as) (hx : x.kind = .semicolon) :
    s.kind ≠ .forKw := by
  rcases h.isQuiet hx with h | h <;> intro hk <;> simp [hk, TokenKind.isQuiet] at h

theorem State.Before.ne_eof {s : State} (h : s.Before x as) (hx : x.kind = .semicolon) :
    s.kind ≠ .eof := by
  rcases h.isQuiet hx with h | h <;> intro hk <;> simp [hk, TokenKind.isQuiet] at h

/-- Reading stays before `x`, and reports nothing. -/
def Outcome.Stays (x : Token) (as : List Token) (s : State) (o : Outcome α) : Prop :=
  o.Ends (fun _ s' => s'.Before x as ∧ s'.errors = s.errors)
    (fun _ s' => s'.Before x as ∧ s'.errors = s.errors)

/-- Inline moves stay before a semicolon. -/
theorem Routine.Inline.stays {rec : (p : Production) → State → Outcome p.Result} {p : Production}
    {j : Nat} {r : Routine α} {s : State} (hx : x.kind = .semicolon)
    (hrec : ∀ q t, q.isInline = true → q.Suits t.kind → t.Before x as →
      (rec q t).Stays x as t)
    (h : r.Inline s.kind) (ho : r.Orderly p j s.kind) (hs : s.Before x as) :
    ((r.plan s).run rec).Stays x as s := by
  induction r generalizing s j with
  | done | fail => exact ⟨hs, rfl⟩
  | look next ih => exact ih _ _ (h s.span) (ho s.span) hs
  | last next ih => exact ih _ (h s.previous) (ho.2 s.previous) hs
  | advance next ih =>
    have hs' := hs.advance hx h.1 ho.1
    exact ih (h.2 _ (hs'.ne_lbrace hx) (hs'.ne_forKw hx)) (ho.2 _) hs'
  | read q inside next ih =>
    have hq := hrec q s h.1 ho.1 hs
    rw [run_read]
    cases hr : rec q s with
    | done y u =>
      rw [hr] at hq
      obtain ⟨hu, he⟩ := hq
      have := ih y (h.2 y _ (hu.ne_lbrace hx) (hu.ne_forKw hx)) (ho.2.2 y u.kind) hu
      rw [Outcome.Stays, he] at this
      cases inside <;> exact this
    | failed e u =>
      rw [hr] at hq
      cases inside <;> exact hq
    | outOfFuel => cases inside <;> trivial
  | attempt => exact h.elim

/-- An inline production stays before a semicolon. -/
theorem Production.stays {n : Nat} {p : Production} {s : State} (hx : x.kind = .semicolon)
    (hp : p.isInline = true) (hs : p.Suits s.kind) (h : s.Before x as) :
    (p.read n s).Stays x as s := by
  induction n generalizing p s with
  | zero =>
    rw [read_zero]
    trivial
  | succ n ih =>
    rw [read_succ, plan_eq]
    exact (p.inline hp hs (h.ne_lbrace hx) (h.ne_forKw hx)).stays hx (fun q t hq ht => ih hq ht)
      (p.orderly hs) h

/-! ### One way to be read -/

/-- From every state at which the tokens `ts` and `x` come next, the production is read with the
result `r`, and then `us` and `x` come next, and the last token consumed is at `previous`. -/
def Production.Takes (n : Nat) (p : Production) (x : Token) (ts : List Token) (r : p.Result)
    (us : List Token) (previous : Span) : Prop :=
  ∀ as s, s.cursor.rest = ts ++ x :: as → ∃ s', p.read n s = .done r s' ∧
    s'.cursor.rest = us ++ x :: as ∧ s'.errors = s.errors ∧ s'.previous = previous

/-- From every state at which the tokens `ts` and `x` come next, reading the production fails with
the error `e`, which is at the first one of the tokens `us` and `x` that then come next. -/
def Production.FailsAt (n : Nat) (p : Production) (x : Token) (ts : List Token) (e : ParseError)
    (us : List Token) : Prop :=
  ∀ as s, s.cursor.rest = ts ++ x :: as → ∃ s', p.read n s = .failed e s' ∧
    s'.cursor.rest = us ++ x :: as ∧ s'.errors = s.errors ∧ e.span = s'.span

/-- In front of a semicolon there is one way in which an inline production is read, whatever comes
behind the semicolon. -/
theorem Production.exists_inline {n : Nat} {p : Production} {ts : List Token}
    (hx : x.kind = .semicolon) (hts : ∀ t ∈ ts, t.kind.isQuiet = true) (hp : p.isInline = true)
    (hl : p.least = 1) (hs : p.Suits (⟨.ofTokens (ts ++ [x]), []⟩ : State).kind)
    (hn : p.read n ⟨.ofTokens (ts ++ [x]), []⟩ ≠ .outOfFuel) :
    (∃ r us previous, us <:+ ts ∧ us.length < ts.length ∧ p.Takes n x ts r us previous) ∨
      ∃ e us, us <:+ ts ∧ p.FailsAt n x ts e us := by
  have hbefore : State.Before x [] ⟨.ofTokens (ts ++ [x]), []⟩ := ⟨ts, hts, rfl⟩
  have hstays := p.stays (n := n) hx hp hs hbefore
  have hforward : (p.read n ⟨.ofTokens (ts ++ [x]), []⟩).Ends
      (fun _ u => State.Past p.least ⟨.ofTokens (ts ++ [x]), []⟩ u)
      (fun _ u => State.Past 0 ⟨.ofTokens (ts ++ [x]), []⟩ u) := Production.forward n p _ hs
  -- What the one run does from the tokens in front of the semicolon alone, every other one does.
  have hfollows (as : List Token) (s : State) (h : s.cursor.rest = ts ++ x :: as) :
      (p.read n ⟨.ofTokens (ts ++ [x]), []⟩).Follows x [] as (0 + p.least) s.errors (p.read n s) :=
    p.follows hs ⟨⟨ts, rfl, h⟩, nofun⟩ rfl
  have within {us : List Token} {u : State} (hrest : u.cursor.rest = us ++ [x])
      (hu : State.Past 0 ⟨.ofTokens (ts ++ [x]), []⟩ u) :
      us <:+ ts ∧ (State.Past 1 ⟨.ofTokens (ts ++ [x]), []⟩ u → us.length < ts.length) := by
    obtain ⟨ds, hds, -⟩ := hu
    have hds : ts ++ [x] = ds ++ us ++ [x] := by rw [List.append_assoc, ← hrest]; exact hds
    refine ⟨⟨ds, (List.append_cancel_right hds).symm⟩, fun hpast => ?_⟩
    have := hpast.left
    simp only [State.left, hrest, Cursor.ofTokens, List.length_append, List.length_cons] at this
    omega
  cases hr : p.read n ⟨.ofTokens (ts ++ [x]), []⟩ with
  | done r u =>
    rw [hr] at hstays hforward hfollows
    obtain ⟨⟨us, -, hrest⟩, he⟩ := hstays
    have hpast : State.Past 1 ⟨.ofTokens (ts ++ [x]), []⟩ u := hl ▸ hforward
    have hus := within hrest (hpast.mono (Nat.zero_le 1))
    refine .inl ⟨r, us, u.previous, hus.1, hus.2 hpast, fun as s h => ?_⟩
    obtain ⟨s', hs', hstep, he'⟩ := hfollows as s h ⟨he, hrest ▸ List.suffix_append us [x]⟩
    exact ⟨s', hs', hstep.rest_eq hrest, he', (hstep.previous (by omega)).symm⟩
  | failed e u =>
    rw [hr] at hstays hforward hfollows
    obtain ⟨⟨us, -, hrest⟩, he⟩ := hstays
    refine .inr ⟨e, us, (within hrest hforward).1, fun as s h => ?_⟩
    obtain ⟨s', hs', hstep, he'⟩ := hfollows as s h ⟨he, hrest ▸ List.suffix_append us [x]⟩
    have hkeeps := p.keeps_after n s
    rw [hs'] at hkeeps
    exact ⟨s', hs', hstep.rest_eq hrest, he', hkeeps.2⟩
  | outOfFuel => exact absurd hr hn

/-! ### Statements -/

/-- The tokens that are left when `us` is left before the semicolon `x`, or nothing and the
semicolon has been consumed, too. -/
def beyond (x : Token) (as : List Token) : List Token → List Token
  | [] => as
  | u :: us => u :: us ++ x :: as

/-- A semicolon that comes next is consumed with the statement. -/
theorem State.skipOne_beyond {s : State} {us : List Token} (hx : x.kind = .semicolon)
    (hus : ∀ t ∈ us, t.kind.isQuiet = true) (h : s.cursor.rest = us ++ x :: as) :
    (s.skipOne .semicolon).cursor.rest = beyond x as us ∧
      (s.skipOne .semicolon).errors = s.errors ∧
      (s.skipOne .semicolon).previous = if us = [] then x.span else s.previous := by
  obtain ⟨⟨position, previous, rest⟩, errors⟩ := s
  obtain rfl : rest = us ++ x :: as := h
  cases us with
  | nil => simp [skipOne, kind, Cursor.kind, Cursor.current, hx, advance, Cursor.advance, beyond,
      State.previous]
  | cons u us =>
    have hu : u.kind ≠ .semicolon := by
      intro hu
      simpa [hu, TokenKind.isQuiet] using hus u (by simp)
    simp [skipOne, kind, Cursor.kind, Cursor.current, hu, beyond]

/-- From every state at which the tokens `ts` and `x` come next, a statement is read in one way: it
is always the same one, and the same tokens are left before `x`, or `x` has been consumed, too; or
it always fails with the same error, at the first of the tokens that are left. -/
def Settled (x : Token) (ts : List Token) : Prop :=
  ∃ n, (∃ st us, us <:+ ts ∧ us.length < ts.length ∧ ∀ as s, s.cursor.rest = ts ++ x :: as →
      ∃ s', statement n s = .done st s' ∧ s'.cursor.rest = beyond x as us ∧ s'.errors = s.errors) ∨
    ∃ e us, us <:+ ts ∧ Production.statement.FailsAt n x ts e us

section

variable {ts : List Token} {c : Token} {n : Nat} (hx : x.kind = .semicolon)
include hx

/-- A statement that is an inline production with its semicolon. -/
theorem settled_of_inline {p : Production} {f : p.Result → Stmt} (inside : Option Construct)
    (hts : ∀ t ∈ ts, t.kind.isQuiet = true) (hp : p.isInline = true) (hl : p.least = 1)
    (hs : p.Suits (⟨.ofTokens (ts ++ [x]), []⟩ : State).kind)
    (hn : p.read n ⟨.ofTokens (ts ++ [x]), []⟩ ≠ .outOfFuel)
    (hst : ∀ as s, s.cursor.rest = ts ++ x :: as → statement (n + 1) s =
      ((p.read n s).inside inside).andThen fun r s' => .done (f r) (s'.skipOne .semicolon)) :
    Settled x ts := by
  refine ⟨n + 1, ?_⟩
  rcases p.exists_inline hx hts hp hl hs hn with
    ⟨r, us, previous, hus, hlt, htakes⟩ | ⟨e, us, hus, hfails⟩
  · refine .inl ⟨f r, us, hus, hlt, fun as s h => ?_⟩
    obtain ⟨s', hs', hrest, he, -⟩ := htakes as s h
    obtain ⟨hrest', he', -⟩ := State.skipOne_beyond hx (fun t ht => hts t (hus.subset ht)) hrest
    refine ⟨s'.skipOne .semicolon, ?_, hrest', he'.trans he⟩
    rw [hst as s h, hs']
    cases inside <;> rfl
  · refine .inr ⟨match inside with | none => e | some c => e.within c, us, hus, fun as s h => ?_⟩
    obtain ⟨s', hs', hrest, he, hspan⟩ := hfails as s h
    refine ⟨s', ?_, hrest, he, ?_⟩
    · show statement (n + 1) s = _
      rw [hst as s h, hs']
      cases inside <;> rfl
    · cases inside <;> exact hspan

/-- A `return` statement. -/
theorem settled_of_returnKw (hc : c.kind = .returnKw) (hts : ∀ t ∈ ts, t.kind.isQuiet = true)
    (hn : expression n .lowest ⟨.ofTokens (ts ++ [x]), []⟩ ≠ .outOfFuel) : Settled x (c :: ts) := by
  have hstart {as : List Token} {s : State} (h : s.cursor.rest = c :: ts ++ x :: as) :
      s.kind = .returnKw ∧ s.span = c.span ∧ s.advance.cursor.rest = ts ++ x :: as := by
    have hk : s.kind = .returnKw := by simp [State.kind, Cursor.kind, Cursor.current, h, hc]
    refine ⟨hk, by simp [State.span, Cursor.span, Cursor.current, h], ?_⟩
    have := State.rest_eq_cons (s := s) (by simp [hk])
    rw [h] at this
    exact (List.cons.inj this).2.symm
  refine ⟨n + 2, ?_⟩
  rcases Production.exists_inline (p := .expression .lowest) hx hts rfl rfl trivial hn with
    ⟨e, us, previous, hus, hlt, htakes⟩ | ⟨e, us, hus, hfails⟩
  · refine .inl ⟨.ret e (c.span.merge (if us = [] then x.span else previous)), us,
      hus.trans (List.suffix_cons c ts), Nat.lt_succ_of_lt hlt, fun as s h => ?_⟩
    obtain ⟨hk, hspan, hrest₀⟩ := hstart h
    obtain ⟨s', hs', hrest, he, hprevious⟩ := htakes as s.advance hrest₀
    have hs' : expression n .lowest s.advance = .done e s' := hs'
    obtain ⟨hrest', he', hlast⟩ := State.skipOne_beyond hx (fun t ht => hts t (hus.subset ht)) hrest
    refine ⟨s'.skipOne .semicolon, ?_, hrest', he'.trans he⟩
    rw [statement, hk]
    dsimp only
    rw [returnStatement, hs', Outcome.done_andThen]
    dsimp only
    rw [hspan, hlast, hprevious]
    rfl
  · refine .inr ⟨e.within .returnStatement, us, hus.trans (List.suffix_cons c ts), fun as s h => ?_⟩
    obtain ⟨hk, -, hrest₀⟩ := hstart h
    obtain ⟨s', hs', hrest, he, hspan⟩ := hfails as s.advance hrest₀
    have hs' : expression n .lowest s.advance = .failed e s' := hs'
    refine ⟨s', ?_, hrest, he, hspan⟩
    show statement (n + 2) s = _
    rw [statement, hk]
    dsimp only
    rw [returnStatement, hs']
    rfl

/-- An expression statement. -/
theorem settled_of_expression (hts : ∀ t ∈ ts, t.kind.isQuiet = true)
    (hk : ∀ as (s : State), s.cursor.rest = ts ++ x :: as → s.kind ≠ .letKw ∧ s.kind ≠ .returnKw)
    (hn : expression n .lowest ⟨.ofTokens (ts ++ [x]), []⟩ ≠ .outOfFuel) : Settled x ts := by
  refine settled_of_inline (p := .expression .lowest) (f := fun e => .expr e e.span) hx none hts rfl
    rfl trivial hn ?_
  intro as s h
  have hbefore : s.Before x as := ⟨ts, hts, h⟩
  rw [statement]
  split
  next hlet => exact absurd hlet (hk as s h).1
  next hret => exact absurd hret (hk as s h).2
  next hfor => exact absurd hfor (hbefore.ne_forKw hx)
  next => rfl

/-- In front of a semicolon there is one way in which a statement is read. -/
theorem settled (hts : ∀ t ∈ ts, t.kind.isQuiet = true) : Settled x ts := by
  have hn (us : List Token) :
      expression (8 * us.length + 11) .lowest ⟨.ofTokens (us ++ [x]), []⟩ ≠ .outOfFuel := by
    refine ((progress _).expression .lowest _ ?_).ne_outOfFuel
    simp [State.left, Cursor.ofTokens]
    omega
  cases ts with
  | nil =>
    refine settled_of_expression hx hts (fun as s h => ?_) (hn [])
    have hk : s.kind = .semicolon := by simp [State.kind, Cursor.kind, Cursor.current, h, hx]
    simp [hk]
  | cons c ts =>
    have hkind {as : List Token} {s : State} (h : s.cursor.rest = c :: ts ++ x :: as) :
        s.kind = c.kind := by
      simp [State.kind, Cursor.kind, Cursor.current, h]
    by_cases hret : c.kind = .returnKw
    · exact settled_of_returnKw hx hret (fun t ht => hts t (List.mem_cons_of_mem c ht)) (hn ts)
    by_cases hlet : c.kind = .letKw
    · have hfirst : (⟨.ofTokens (c :: ts ++ [x]), []⟩ : State).kind = .letKw :=
        (hkind rfl).trans hlet
      have hn : Production.letBinding.read (8 * ts.length + 17)
          ⟨.ofTokens (c :: ts ++ [x]), []⟩ ≠ .outOfFuel := by
        refine ((progress _).letBinding _ ?_ (hfirst.trans_ne (by decide))).ne_outOfFuel
        simp [State.left, Cursor.ofTokens]
        omega
      refine settled_of_inline (p := .letBinding) (f := id) hx (some .letStatement) hts rfl rfl
        hfirst
        hn ?_
      intro as s h
      rw [statement, (hkind h).trans hlet]
      rfl
    · exact settled_of_expression hx hts (fun as s h => by simp [hkind h, hlet, hret])
        (hn (c :: ts))

end

end Parser

end MonkeyLang
