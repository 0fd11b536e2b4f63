import MonkeyLang.Program.Parser

/-!
# The parser makes progress

Between two tokens the parser takes a bounded number of steps: eight steps for each token that is
left, and a few more, are enough for every production (`Progress`). Along the way tokens are only
ever taken from the front, and a production that has to start with a token takes at least one.

The induction is on the number of steps. `Progress n` collects what every production does in `n`
steps, and there is one lemma for the step of each production.

## Main statements

* `progress` : no production runs out of steps.
* `exists_statements_eq_done` : the statements of a program or block are always read to their end.
-/

namespace MonkeyLang.Parser

variable {α β : Type}

/-- The number of tokens that have not been consumed. -/
def State.left (s : State) : Nat := s.cursor.rest.length

/-- `s'` is reached from `s` by consuming tokens from the front, at least `k` of them. -/
def State.Past (k : Nat) (s s' : State) : Prop :=
  ∃ ts, s.cursor.rest = ts ++ s'.cursor.rest ∧
    s'.cursor.position = s.cursor.position + ts.length ∧ k ≤ ts.length

namespace State.Past

variable {k l : Nat} {s s' s'' : State}

theorem refl (s : State) : Past 0 s s := ⟨[], rfl, rfl, Nat.le_refl 0⟩

theorem trans (h : Past k s s') (h' : Past l s' s'') : Past (k + l) s s'' := by
  obtain ⟨ts, hr, hp, hk⟩ := h
  obtain ⟨us, hr', hp', hl⟩ := h'
  refine ⟨ts ++ us, ?_, ?_, ?_⟩
  · rw [hr, hr', List.append_assoc]
  · rw [hp', hp, List.length_append, Nat.add_assoc]
  · rw [List.length_append]
    exact Nat.add_le_add hk hl

theorem mono (h : Past k s s') (hl : l ≤ k) : Past l s s' := by
  obtain ⟨ts, hr, hp, hk⟩ := h
  exact ⟨ts, hr, hp, Nat.le_trans hl hk⟩

/-- So many tokens fewer are left. -/
theorem left (h : Past k s s') : s'.left + k ≤ s.left := by
  obtain ⟨ts, hr, -, hk⟩ := h
  simp only [State.left, hr, List.length_append]
  omega

end State.Past

/-- The construct has been read with at least `k` tokens, or has failed; in neither case have
the steps run out. -/
def Outcome.Consumes (k : Nat) (s : State) : Outcome α → Prop
  | .done _ s' => State.Past k s s'
  | .failed _ s' => State.Past 0 s s'
  | .outOfFuel => False

namespace Outcome.Consumes

variable {o : Outcome α} {s : State} {k l : Nat}

theorem mono (h : o.Consumes k s) (hl : l ≤ k) : o.Consumes l s := by
  cases o with
  | done r s' => exact State.Past.mono h hl
  | failed e s' => exact h
  | outOfFuel => exact h

theorem andThen {next : α → State → Outcome β} (h : o.Consumes k s)
    (hn : ∀ r s', State.Past k s s' → (next r s').Consumes l s') :
    (o.andThen next).Consumes (k + l) s := by
  cases o with
  | done r s' =>
    have hn := hn r s' h
    show (next r s').Consumes (k + l) s
    cases hr : next r s' with
    | done x s'' => rw [hr] at hn; exact State.Past.trans h hn
    | failed e s'' => rw [hr] at hn; exact (State.Past.trans h hn).mono (Nat.zero_le _)
    | outOfFuel => rw [hr] at hn; exact hn
  | failed e s' => exact h
  | outOfFuel => exact h

theorem map (f : α → β) (h : o.Consumes k s) : (o.map f).Consumes k s :=
  h.andThen (l := 0) fun _ s' _ => State.Past.refl s'

theorem within (c : Construct) (h : o.Consumes k s) : (o.within c).Consumes k s := by
  cases o <;> exact h

theorem ne_outOfFuel (h : o.Consumes k s) : o ≠ .outOfFuel := by
  rintro rfl
  exact h

/-- A construct that is read after some tokens counts these, too. -/
theorem after {s' : State} (hs : State.Past k s s') (h : o.Consumes l s') :
    o.Consumes (k + l) s := by
  cases o with
  | done r s'' => exact State.Past.trans hs h
  | failed e s'' => exact (State.Past.trans hs h).mono (Nat.zero_le _)
  | outOfFuel => exact h

end Outcome.Consumes

/-! ### Single tokens -/

section Tokens

variable {s : State}

theorem State.past_advance_of_ne_eof (h : s.kind ≠ .eof) : State.Past 1 s s.advance := by
  obtain ⟨⟨position, previous, rest⟩, errors⟩ := s
  cases rest with
  | nil => exact absurd rfl h
  | cons t ts =>
    have ht : (t.kind == .eof) = false := by
      simpa [State.kind, Cursor.kind, Cursor.current] using h
    exact ⟨[t], by simp [State.advance, Cursor.advance, ht],
      by simp [State.advance, Cursor.advance, ht], Nat.le_refl 1⟩

theorem State.past_advance (s : State) : State.Past 0 s s.advance := by
  by_cases h : s.kind = .eof
  · have hc : s.cursor.advance = s.cursor :=
      Cursor.advance_eq_self (by simpa [Cursor.atEnd, State.kind] using h)
    rw [State.advance, hc]
    exact State.Past.refl s
  · exact (State.past_advance_of_ne_eof h).mono (Nat.zero_le _)

theorem State.past_skipOne (s : State) (k : TokenKind) : State.Past 0 s (s.skipOne k) := by
  unfold State.skipOne
  split
  · exact s.past_advance
  · exact State.Past.refl s

theorem State.expect_consumes {k : TokenKind} (h : k ≠ .eof) : (s.expect k).Consumes 1 s := by
  unfold State.expect
  split
  next hk =>
    have hk : s.kind = k := by simpa using hk
    exact State.past_advance_of_ne_eof (hk ▸ h)
  next => exact State.Past.refl s

theorem State.expectIdent_consumes : s.expectIdent.Consumes 1 s := by
  unfold State.expectIdent
  split
  next hk => exact State.past_advance_of_ne_eof (by simp [hk])
  next => exact State.Past.refl s

/-- Reporting an error consumes nothing. -/
@[simp] theorem State.cursor_report (s : State) (e : ParseError) :
    (s.report e).cursor = s.cursor := by
  unfold State.report
  split <;> rfl

/-- Skipping goes forward only. -/
theorem exists_resume_rest (scope : Scope) (depth position : Nat) (previous : Span)
    (ts : List Token) :
    ∃ us, ts = us ++ (resume scope depth position previous ts).rest ∧
      (resume scope depth position previous ts).position = position + us.length := by
  induction ts generalizing depth position previous with
  | nil => exact ⟨[], rfl, rfl⟩
  | cons t ts ih =>
    have onward (depth : Nat) : ∃ us,
        t :: ts = us ++ (resume scope depth (position + 1) t.span ts).rest ∧
          (resume scope depth (position + 1) t.span ts).position = position + us.length := by
      obtain ⟨us, hr, hp⟩ := ih depth (position + 1) t.span
      exact ⟨t :: us, by rw [List.cons_append, ← hr], by rw [hp, List.length_cons]; omega⟩
    unfold resume
    split
    · exact ⟨[], rfl, rfl⟩
    · exact ⟨[t], rfl, rfl⟩
    · exact ⟨[], rfl, rfl⟩
    · exact ⟨[], rfl, rfl⟩
    · exact ⟨[], rfl, rfl⟩
    · exact onward _
    · exact onward _
    · cases scope with
      | block => exact ⟨[], rfl, rfl⟩
      | program => exact onward 0
    · exact onward _

/-- A broken statement and the tokens that are skipped after it are at least one token, unless
there was none. -/
theorem State.past_recover {s' : State} (hs : s.kind ≠ .eof) (h : State.Past 0 s s')
    (scope : Scope) : State.Past 1 s (s'.recover scope s.cursor.position) := by
  have skipped {c : Cursor} (hc : State.Past 1 s ⟨c, s'.errors⟩) :
      State.Past 1 s ⟨resume scope 0 c.position c.previous c.rest, s'.errors⟩ := by
    obtain ⟨us, hr, hp⟩ := exists_resume_rest scope 0 c.position c.previous c.rest
    exact hc.trans ⟨us, hr, hp, Nat.zero_le _⟩
  unfold State.recover
  obtain ⟨ts, hr, hp, -⟩ := h
  split
  next stuck =>
    -- Nothing has been consumed, so `s'` stands at the token at which `s` stands.
    have hts : ts = [] := List.eq_nil_of_length_eq_zero (by omega)
    have hrest : s.cursor.rest = s'.cursor.rest := by rw [hr, hts, List.nil_append]
    have hk : s'.kind ≠ .eof := by
      simpa only [State.kind, Cursor.kind, Cursor.current, hrest] using hs
    obtain ⟨us, hr', hp', hl⟩ := State.past_advance_of_ne_eof hk
    exact skipped ⟨us, by rw [hrest, hr']; rfl, by rw [← stuck, ← hp']; rfl, hl⟩
  next moved =>
    have hts : 1 ≤ ts.length := by
      have : ts.length ≠ 0 := fun hz => moved (by omega)
      omega
    exact skipped ⟨ts, hr, hp, hts⟩

end Tokens

/-! ### Productions -/

theorem paramNames_consumes {n : Nat} {s : State} (h : s.left + 1 ≤ n) :
    (paramNames n s).Consumes 1 s := by
  induction n generalizing s with
  | zero => omega
  | succ n ih =>
    rw [paramNames]
    refine State.expectIdent_consumes.andThen (l := 0) fun name s' hs => ?_
    have hl := hs.left
    split
    next hc =>
      have ha := s'.past_advance.left
      exact (((ih (by omega)).mono (Nat.zero_le 1)).after s'.past_advance).map _
    next => exact ((State.expect_consumes (by decide)).mono (Nat.zero_le 1)).map _

theorem params_consumes {n : Nat} {s : State} (h : s.left + 1 ≤ n) :
    (params n s).Consumes 1 s := by
  rw [params]
  refine (State.expect_consumes (by decide)).andThen (l := 0) fun _ s' hs => ?_
  have hl := hs.left
  split
  · exact s'.past_advance
  · exact (paramNames_consumes (by omega)).mono (Nat.zero_le 1)

/-- What every production does in `n` steps, if there are enough of them. A production that starts
by consuming its first token is only tried when there is one. -/
structure Progress (n : Nat) : Prop where
  expression : ∀ min s, 8 * s.left + 3 ≤ n → (expression n min s).Consumes 1 s
  operators : ∀ min e s, 8 * s.left + 1 ≤ n → (operators n min e s).Consumes 0 s
  extension : ∀ x e s, 8 * s.left + 6 ≤ n → (extension n x e s).Consumes 0 s
  operand : ∀ s, 8 * s.left + 2 ≤ n → (operand n s).Consumes 1 s
  unary : ∀ op s, 8 * s.left + 1 ≤ n → s.kind ≠ .eof → (unary n op s).Consumes 1 s
  grouping : ∀ s, 8 * s.left + 1 ≤ n → s.kind ≠ .eof → (grouping n s).Consumes 1 s
  conditional : ∀ s, 8 * s.left + 1 ≤ n → s.kind ≠ .eof → (conditional n s).Consumes 1 s
  function : ∀ s, 8 * s.left + 1 ≤ n → s.kind ≠ .eof → (function n s).Consumes 1 s
  arrayLiteral : ∀ s, 8 * s.left + 1 ≤ n → s.kind ≠ .eof → (arrayLiteral n s).Consumes 1 s
  hashLiteral : ∀ s, 8 * s.left + 1 ≤ n → s.kind ≠ .eof → (hashLiteral n s).Consumes 1 s
  expressions : ∀ close s, close ≠ .eof → 8 * s.left + 5 ≤ n →
    (expressions n close s).Consumes 0 s
  expressionsFrom : ∀ close s, close ≠ .eof → 8 * s.left + 4 ≤ n →
    (expressionsFrom n close s).Consumes 0 s
  entries : ∀ s, 8 * s.left + 4 ≤ n → (entries n s).Consumes 0 s
  statement : ∀ s, 8 * s.left + 4 ≤ n → (statement n s).Consumes 1 s
  letBinding : ∀ s, 8 * s.left + 1 ≤ n → s.kind ≠ .eof → (letBinding n s).Consumes 1 s
  returnStatement : ∀ s, 8 * s.left + 1 ≤ n → s.kind ≠ .eof → (returnStatement n s).Consumes 1 s
  forLoop : ∀ s, 8 * s.left + 1 ≤ n → s.kind ≠ .eof → (forLoop n s).Consumes 1 s
  loopInit : ∀ s, 8 * s.left + 4 ≤ n → (loopInit n s).Consumes 0 s
  loopPart : ∀ close s, 8 * s.left + 4 ≤ n → (loopPart n close s).Consumes 0 s
  block : ∀ s, 8 * s.left + 1 ≤ n → (block n s).Consumes 1 s
  statements : ∀ scope s, 8 * s.left + 5 ≤ n → (statements n scope s).Consumes 0 s

namespace Progress

variable {n : Nat}

theorem zero : Progress 0 := by
  constructor <;> intros <;> omega

section Step

variable (ih : Progress n) {s : State}
include ih

theorem expression_succ (min : Precedence) (h : 8 * s.left + 3 ≤ n + 1) :
    (Parser.expression (n + 1) min s).Consumes 1 s := by
  rw [Parser.expression]
  refine (ih.operand s (by omega)).andThen (l := 0) fun e s' hs => ?_
  have hl := hs.left
  exact ih.operators min e s' (by omega)

theorem operators_succ (min : Precedence) (e : Expr) (h : 8 * s.left + 1 ≤ n + 1) :
    (Parser.operators (n + 1) min e s).Consumes 0 s := by
  rw [Parser.operators]
  split
  · exact State.Past.refl s
  next x hx =>
    split
    · have ha := State.past_advance_of_ne_eof (s := s) (by
      rintro he
      simp [he, Extension.ofToken?] at hx)
      have hl := ha.left
      refine ((((ih.extension x e s.advance (by omega)).andThen (l := 0) fun e s' hs => ?_)).after
        ha).mono (Nat.zero_le _)
      have hl' := hs.left
      exact ih.operators min e s' (by omega)
    · exact State.Past.refl s

theorem extension_succ (x : Extension) (e : Expr) (h : 8 * s.left + 6 ≤ n + 1) :
    (Parser.extension (n + 1) x e s).Consumes 0 s := by
  cases x with
  | call =>
    rw [Parser.extension]
    exact ((ih.expressions .rparen s (by decide) (by omega)).within _).andThen (l := 0)
      fun _ s' _ => State.Past.refl s'
  | index =>
    rw [Parser.extension]
    refine (((ih.expression .lowest s (by omega)).andThen (l := 0) fun place s' hs => ?_).within
      _).mono (Nat.zero_le _) |>.andThen (l := 0) fun _ s' _ => State.Past.refl s'
    exact ((State.expect_consumes (by decide)).mono (Nat.zero_le 1)).map _
  | assign =>
    rw [Parser.extension]
    exact ((ih.expression .lowest s (by omega)).mono (Nat.zero_le 1)).map _
  | binary op =>
    rw [Parser.extension]
    exact ((ih.expression _ s (by omega)).mono (Nat.zero_le 1)).map _

theorem operand_succ (h : 8 * s.left + 2 ≤ n + 1) : (Parser.operand (n + 1) s).Consumes 1 s := by
  have past {k : TokenKind} (hk : s.kind = k) (hne : k ≠ .eof) : State.Past 1 s s.advance :=
    State.past_advance_of_ne_eof (hk ▸ hne)
  have some {k : TokenKind} (hk : s.kind = k) (hne : k ≠ .eof) : s.kind ≠ .eof := hk ▸ hne
  rw [Parser.operand]
  split
  next hk => exact past hk (by simp)
  next hk => exact past hk (by simp)
  next hk => exact past hk (by simp)
  next hk => exact past hk (by simp)
  next hk => exact past hk (by simp)
  next hk => exact ih.unary .not s (by omega) (some hk (by simp))
  next hk => exact ih.unary .neg s (by omega) (some hk (by simp))
  next hk => exact (ih.grouping s (by omega) (some hk (by simp))).within _
  next hk => exact (ih.conditional s (by omega) (some hk (by simp))).within _
  next hk => exact (ih.function s (by omega) (some hk (by simp))).within _
  next hk => exact (ih.arrayLiteral s (by omega) (some hk (by simp))).within _
  next hk => exact (ih.hashLiteral s (by omega) (some hk (by simp))).within _
  next => split <;> exact State.Past.refl s

theorem unary_succ (op : UnaryOp) (h : 8 * s.left + 1 ≤ n + 1) (hs : s.kind ≠ .eof) :
    (Parser.unary (n + 1) op s).Consumes 1 s := by
  have ha := State.past_advance_of_ne_eof hs
  have hl := ha.left
  rw [Parser.unary]
  exact (((ih.expression .unary s.advance (by omega)).mono (Nat.zero_le 1)).map _).after ha

theorem grouping_succ (h : 8 * s.left + 1 ≤ n + 1) (hs : s.kind ≠ .eof) :
    (Parser.grouping (n + 1) s).Consumes 1 s := by
  have ha := State.past_advance_of_ne_eof hs
  have hl := ha.left
  rw [Parser.grouping]
  refine (((ih.expression .lowest s.advance (by omega)).andThen (l := 1) fun e s' _ => ?_).mono
    (Nat.zero_le _)).after ha
  exact (State.expect_consumes (by decide)).map _

theorem conditional_succ (h : 8 * s.left + 1 ≤ n + 1) (hs : s.kind ≠ .eof) :
    (Parser.conditional (n + 1) s).Consumes 1 s := by
  have ha := State.past_advance_of_ne_eof hs
  have hl := ha.left
  rw [Parser.conditional]
  refine (Outcome.Consumes.mono (k := 1 + (1 + (1 + (1 + 0)))) ?_ (Nat.zero_le _)).after ha
  refine (State.expect_consumes (by decide)).andThen fun _ s₁ h₁ => ?_
  have l₁ := h₁.left
  refine (ih.expression .lowest s₁ (by omega)).andThen fun test s₂ h₂ => ?_
  have l₂ := h₂.left
  refine (State.expect_consumes (by decide)).andThen fun _ s₃ h₃ => ?_
  have l₃ := h₃.left
  refine (ih.block s₃ (by omega)).andThen fun thenBlock s₄ h₄ => ?_
  have l₄ := h₄.left
  split
  · have l₅ := s₄.past_advance.left
    exact (((ih.block s₄.advance (by omega)).mono (Nat.zero_le 1)).map _).after s₄.past_advance
  · exact State.Past.refl s₄

theorem function_succ (h : 8 * s.left + 1 ≤ n + 1) (hs : s.kind ≠ .eof) :
    (Parser.function (n + 1) s).Consumes 1 s := by
  have ha := State.past_advance_of_ne_eof hs
  have hl := ha.left
  rw [Parser.function]
  refine (((Outcome.Consumes.within _ (params_consumes (by omega))).andThen (l := 1)
    fun names s' hs' => ?_).mono (Nat.zero_le _)).after ha
  have hl' := hs'.left
  exact (ih.block s' (by omega)).map _

theorem arrayLiteral_succ (h : 8 * s.left + 1 ≤ n + 1) (hs : s.kind ≠ .eof) :
    (Parser.arrayLiteral (n + 1) s).Consumes 1 s := by
  have ha := State.past_advance_of_ne_eof hs
  have hl := ha.left
  rw [Parser.arrayLiteral]
  refine Outcome.Consumes.after (l := 0 + 0) ha ?_
  exact (ih.expressions .rbracket s.advance (by decide) (by omega)).andThen
    fun items s' _ => State.Past.refl s'

theorem hashLiteral_succ (h : 8 * s.left + 1 ≤ n + 1) (hs : s.kind ≠ .eof) :
    (Parser.hashLiteral (n + 1) s).Consumes 1 s := by
  have ha := State.past_advance_of_ne_eof hs
  have hl := ha.left
  rw [Parser.hashLiteral]
  refine (((ih.entries s.advance (by omega)).andThen (l := 1) fun es s' _ => ?_).mono
    (Nat.zero_le _)).after ha
  exact (State.expect_consumes (by decide)).map _

theorem expressions_succ {close : TokenKind} (hc : close ≠ .eof) (h : 8 * s.left + 5 ≤ n + 1) :
    (Parser.expressions (n + 1) close s).Consumes 0 s := by
  rw [Parser.expressions]
  split
  · exact s.past_advance
  · exact ih.expressionsFrom close s hc (by omega)

theorem expressionsFrom_succ {close : TokenKind} (hc : close ≠ .eof)
    (h : 8 * s.left + 4 ≤ n + 1) : (Parser.expressionsFrom (n + 1) close s).Consumes 0 s := by
  rw [Parser.expressionsFrom]
  refine ((ih.expression .lowest s (by omega)).andThen (l := 0) fun e s' hs => ?_).mono
    (Nat.zero_le _)
  have hl := hs.left
  split
  · have hl' := s'.past_advance.left
    exact ((ih.expressionsFrom close s'.advance hc (by omega)).map _).after s'.past_advance
  · exact ((State.expect_consumes hc).mono (Nat.zero_le 1)).map _

theorem entries_succ (h : 8 * s.left + 4 ≤ n + 1) :
    (Parser.entries (n + 1) s).Consumes 0 s := by
  rw [Parser.entries]
  split
  · exact State.Past.refl s
  refine Outcome.Consumes.mono (k := 1 + (1 + (1 + 0))) ?_ (Nat.zero_le _)
  refine (ih.expression .lowest s (by omega)).andThen fun key s₁ h₁ => ?_
  have l₁ := h₁.left
  refine (State.expect_consumes (by decide)).andThen fun _ s₂ h₂ => ?_
  have l₂ := h₂.left
  refine (ih.expression .lowest s₂ (by omega)).andThen fun value s₃ h₃ => ?_
  have l₃ := h₃.left
  split
  · have l₄ := s₃.past_advance.left
    exact ((ih.entries s₃.advance (by omega)).map _).after s₃.past_advance
  · exact State.Past.refl s₃

theorem statement_succ (h : 8 * s.left + 4 ≤ n + 1) :
    (Parser.statement (n + 1) s).Consumes 1 s := by
  rw [Parser.statement]
  split
  next hk =>
    exact ((ih.letBinding s (by omega) (by simp [hk])).within _).andThen (l := 0)
      fun binding s' _ => s'.past_skipOne _
  next hk => exact (ih.returnStatement s (by omega) (by simp [hk])).within _
  next hk => exact (ih.forLoop s (by omega) (by simp [hk])).within _
  next =>
    exact (ih.expression .lowest s (by omega)).andThen (l := 0) fun e s' _ => s'.past_skipOne _

theorem letBinding_succ (h : 8 * s.left + 1 ≤ n + 1) (hs : s.kind ≠ .eof) :
    (Parser.letBinding (n + 1) s).Consumes 1 s := by
  have ha := State.past_advance_of_ne_eof hs
  have hl := ha.left
  rw [Parser.letBinding]
  refine (Outcome.Consumes.mono (k := 1 + (1 + 1)) ?_ (Nat.zero_le _)).after ha
  refine State.expectIdent_consumes.andThen fun name s₁ h₁ => ?_
  have l₁ := h₁.left
  refine (State.expect_consumes (by decide)).andThen fun _ s₂ h₂ => ?_
  have l₂ := h₂.left
  exact (ih.expression .lowest s₂ (by omega)).map _

theorem returnStatement_succ (h : 8 * s.left + 1 ≤ n + 1) (hs : s.kind ≠ .eof) :
    (Parser.returnStatement (n + 1) s).Consumes 1 s := by
  have ha := State.past_advance_of_ne_eof hs
  have hl := ha.left
  rw [Parser.returnStatement]
  refine (Outcome.Consumes.mono (k := 1 + 0) ?_ (Nat.zero_le _)).after ha
  exact (ih.expression .lowest s.advance (by omega)).andThen fun value s' _ => s'.past_skipOne _

theorem forLoop_succ (h : 8 * s.left + 1 ≤ n + 1) (hs : s.kind ≠ .eof) :
    (Parser.forLoop (n + 1) s).Consumes 1 s := by
  have ha := State.past_advance_of_ne_eof hs
  have hl := ha.left
  rw [Parser.forLoop]
  refine (Outcome.Consumes.mono (k := 1 + (0 + (1 + (0 + (1 + (0 + (1 + (1 + 0))))))))
    ?_ (Nat.zero_le _)).after ha
  refine (State.expect_consumes (by decide)).andThen fun _ s₁ h₁ => ?_
  have l₁ := h₁.left
  refine (ih.loopInit s₁ (by omega)).andThen fun init s₂ h₂ => ?_
  have l₂ := h₂.left
  refine (State.expect_consumes (by decide)).andThen fun _ s₃ h₃ => ?_
  have l₃ := h₃.left
  refine (ih.loopPart .semicolon s₃ (by omega)).andThen fun test s₄ h₄ => ?_
  have l₄ := h₄.left
  refine (State.expect_consumes (by decide)).andThen fun _ s₅ h₅ => ?_
  have l₅ := h₅.left
  refine (ih.loopPart .rparen s₅ (by omega)).andThen fun after s₆ h₆ => ?_
  have l₆ := h₆.left
  refine (State.expect_consumes (by decide)).andThen fun _ s₇ h₇ => ?_
  have l₇ := h₇.left
  exact (ih.block s₇ (by omega)).andThen fun body s₈ _ => s₈.past_skipOne _

theorem loopInit_succ (h : 8 * s.left + 4 ≤ n + 1) :
    (Parser.loopInit (n + 1) s).Consumes 0 s := by
  rw [Parser.loopInit]
  split
  next => exact State.Past.refl s
  next hk => exact ((ih.letBinding s (by omega) (by simp [hk])).mono (Nat.zero_le 1)).map _
  next => exact ((ih.expression .lowest s (by omega)).mono (Nat.zero_le 1)).map _

theorem loopPart_succ (close : TokenKind) (h : 8 * s.left + 4 ≤ n + 1) :
    (Parser.loopPart (n + 1) close s).Consumes 0 s := by
  rw [Parser.loopPart]
  split
  · exact State.Past.refl s
  · exact ((ih.expression .lowest s (by omega)).mono (Nat.zero_le 1)).map _

theorem block_succ (h : 8 * s.left + 1 ≤ n + 1) : (Parser.block (n + 1) s).Consumes 1 s := by
  rw [Parser.block]
  refine Outcome.Consumes.mono (k := 1 + (0 + 1)) ?_ (by omega)
  refine ((State.expect_consumes (by decide)).within _).andThen fun start s₁ h₁ => ?_
  have l₁ := h₁.left
  refine (ih.statements .block s₁ (by omega)).andThen fun ss s₂ h₂ => ?_
  exact ((State.expect_consumes (by decide)).within _).map _

theorem statements_succ (scope : Scope) (h : 8 * s.left + 5 ≤ n + 1) :
    (Parser.statements (n + 1) scope s).Consumes 0 s := by
  rw [Parser.statements]
  split
  · exact State.Past.refl s
  next stops =>
    have hs : s.kind ≠ .eof := by
      intro he
      simp [State.stops, he] at stops
    have hst := ih.statement s (by omega)
    split
    next st s' hd =>
      rw [hd] at hst
      have hl := State.Past.left hst
      exact (((ih.statements scope s' (by omega)).map _).after hst).mono (Nat.zero_le _)
    next e s' hf =>
      rw [hf] at hst
      have hp : State.Past 0 s s' := hst
      have hr : State.Past 1 s ((s'.report e).recover scope s.cursor.position) :=
        State.past_recover hs (by simpa only [State.Past, State.cursor_report] using hp) scope
      have hl := hr.left
      exact ((ih.statements scope _ (by omega)).after hr).mono (Nat.zero_le _)
    next ho =>
      rw [ho] at hst
      exact hst

end Step

end Progress

/-- No production runs out of steps, if there are eight for each token that is left and a few
more. -/
theorem progress (n : Nat) : Progress n := by
  induction n with
  | zero => exact Progress.zero
  | succ n ih =>
    exact {
      expression := fun min s => ih.expression_succ min
      operators := fun min e s => ih.operators_succ min e
      extension := fun x e s => ih.extension_succ x e
      operand := fun s => ih.operand_succ
      unary := fun op s => ih.unary_succ op
      grouping := fun s => ih.grouping_succ
      conditional := fun s => ih.conditional_succ
      function := fun s => ih.function_succ
      arrayLiteral := fun s => ih.arrayLiteral_succ
      hashLiteral := fun s => ih.hashLiteral_succ
      expressions := fun close s => ih.expressions_succ
      expressionsFrom := fun close s => ih.expressionsFrom_succ
      entries := fun s => ih.entries_succ
      statement := fun s => ih.statement_succ
      letBinding := fun s => ih.letBinding_succ
      returnStatement := fun s => ih.returnStatement_succ
      forLoop := fun s => ih.forLoop_succ
      loopInit := fun s => ih.loopInit_succ
      loopPart := fun close s => ih.loopPart_succ close
      block := fun s => ih.block_succ
      statements := fun scope s => ih.statements_succ scope }

/-! ### Programs -/

/-- A statement that cannot be read does not make its block or program fail. -/
theorem statements_ne_failed (n : Nat) (scope : Scope) (s s' : State) (e : ParseError) :
    statements n scope s ≠ .failed e s' := by
  induction n generalizing s with
  | zero => simp [statements]
  | succ n ih =>
    rw [statements]
    split
    · simp
    split
    next st s₁ _ =>
      cases h : statements n scope s₁ with
      | failed e' s₂ =>
        simp only [Outcome.map, Outcome.andThen, ne_eq, Outcome.failed.injEq, not_and]
        rintro rfl rfl
        exact ih s₁ h
      | done | outOfFuel => simp [Outcome.map, Outcome.andThen]
    · exact ih _
    · simp

/-- The statements of a program or block are read to their end. -/
theorem exists_statements_eq_done {n : Nat} (scope : Scope) {s : State}
    (h : 8 * s.left + 5 ≤ n) : ∃ ss s', statements n scope s = .done ss s' := by
  cases hr : statements n scope s with
  | done ss s' => exact ⟨ss, s', rfl⟩
  | failed e s' => exact absurd hr (statements_ne_failed n scope s s' e)
  | outOfFuel => exact absurd hr ((progress n).statements scope s h).ne_outOfFuel

end MonkeyLang.Parser

namespace MonkeyLang.Program

open MonkeyLang.Parser

/-- The steps are enough for every list of tokens, so a program and its errors are what the
statements of the program are read to. -/
theorem exists_parse_eq (tokens : List Token) (reported : List ParseError) :
    ∃ ss s', statements (enough tokens) .program ⟨.ofTokens tokens, reported⟩ = .done ss s' ∧
      parse tokens reported =
        ⟨ss, s'.errors.mergeSort fun d e => decide (d.span.start ≤ e.span.start)⟩ := by
  obtain ⟨ss, s', h⟩ := exists_statements_eq_done (n := enough tokens) .program
    (s := ⟨.ofTokens tokens, reported⟩) (by simp only [State.left, Cursor.ofTokens, enough]; omega)
  exact ⟨ss, s', h, by rw [parse, parse?, h]; rfl⟩

end MonkeyLang.Program
