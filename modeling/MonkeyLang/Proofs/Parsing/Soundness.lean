import MonkeyLang.Proofs.Parsing.Kinds

/-!
# What the parser reads is in the grammar

If a construct has been read and no error has been reported, the tokens that it has consumed derive
its tree. Nothing is said about the number of steps, so the induction is on it: `Sound n` collects
what every production reads in `n` steps, and there is one lemma for the step of each production.

The loop over infix operators carries the invariant. It goes on with an expression `left` that has
been read as one of some layer `l`, and the next token binds at most as tightly as a token after
such an expression may. So whatever comes next can take `left` as its left operand.

## Main statements

* `sound` : all productions.
-/

namespace MonkeyLang.Parser

open Grammar

variable {α β : Type}

/-- If `o` is a construct that has been read after `s` without any error, the tokens that it has
consumed, the construct and the state behind it are in the relation `D`. The end of the tokens is
never consumed. -/
def Outcome.Derives (o : Outcome α) (s : State) (D : List TokenKind → α → State → Prop) : Prop :=
  ∀ r s', o = .done r s' → s'.errors = [] →
    s.errors = [] ∧ ∃ ks, s.kinds = ks ++ s'.kinds ∧ .eof ∉ ks ∧ D ks r s'

namespace Outcome.Derives

variable {o : Outcome α} {s : State} {D E : List TokenKind → α → State → Prop}

theorem mono (h : o.Derives s D) (hE : ∀ ks r s', D ks r s' → E ks r s') : o.Derives s E := by
  intro r s' hr he
  obtain ⟨hs, ks, hk, hend, hd⟩ := h r s' hr he
  exact ⟨hs, ks, hk, hend, hE ks r s' hd⟩

/-- What the first construct derives is known where the second one has been read. -/
theorem andThen {next : α → State → Outcome β} {F : List TokenKind → β → State → Prop}
    (h : o.Derives s D)
    (hn : ∀ r s', (next r s').Derives s' fun ls x s'' => ∀ ks, D ks r s' → F (ks ++ ls) x s'') :
    (o.andThen next).Derives s F := by
  intro x s'' hx he
  cases o with
  | done r s' =>
    obtain ⟨he', ls, hl, hlend, hF⟩ := hn r s' x s'' hx he
    obtain ⟨hs, ks, hk, hkend, hd⟩ := h r s' rfl he'
    exact ⟨hs, ks ++ ls, by rw [hk, hl, List.append_assoc], by simp [hkend, hlend], hF ks hd⟩
  | failed e s' => exact absurd hx (by simp [Outcome.andThen])
  | outOfFuel => exact absurd hx (by simp [Outcome.andThen])

theorem map {F : List TokenKind → β → State → Prop} (f : α → β)
    (h : o.Derives s fun ks r s' => F ks (f r) s') : (o.map f).Derives s F := by
  intro x s' hx he
  cases o with
  | done r s'' =>
    obtain ⟨rfl, rfl⟩ : f r = x ∧ s'' = s' := by simpa [Outcome.map, Outcome.andThen] using hx
    exact h r s'' rfl he
  | failed e s' => exact absurd hx (by simp [Outcome.map, Outcome.andThen])
  | outOfFuel => exact absurd hx (by simp [Outcome.map, Outcome.andThen])

theorem within (c : Construct) (h : o.Derives s D) : (o.within c).Derives s D := by
  cases o with
  | failed e s' => intro r s'' hr; exact absurd hr (by simp [Outcome.within])
  | _ => exact h

/-- A construct that starts with a token. -/
theorem after {k : TokenKind} (hk : s.kind = k) (he : k ≠ .eof)
    (h : o.Derives s.advance fun ks r s' => D (k :: ks) r s') : o.Derives s D := by
  intro r s' hr hs
  obtain ⟨hs', ks, hks, hend, hd⟩ := h r s' hr hs
  refine ⟨hs', k :: ks, ?_, ?_, hd⟩
  · rw [State.kinds_eq_cons hk he, hks, List.cons_append]
  · simp [hend, he.symm]

/-- The first token consumed is the one that stood first. -/
theorem head (h : o.Derives s D) :
    o.Derives s fun ks r s' => D ks r s' ∧ ∀ k ∈ ks.head?, k = s.kind := by
  intro r s' hr he
  obtain ⟨hs, ks, hk, hend, hd⟩ := h r s' hr he
  refine ⟨hs, ks, hk, hend, hd, ?_⟩
  intro k hmem
  obtain ⟨ks, rfl⟩ := List.head?_eq_some_iff.1 hmem
  exact (State.kind_eq_of_kinds hk).symm

theorem failed (e : ParseError) (s' : State) :
    (Outcome.failed e s' : Outcome α).Derives s D := by
  intro r s'' hr
  cases hr

theorem outOfFuel : (Outcome.outOfFuel : Outcome α).Derives s D := by
  intro r s' hr
  cases hr

/-- A construct without any token. -/
theorem done {r : α} (h : D [] r s) : (Outcome.done r s).Derives s D := by
  intro r' s' hr he
  cases hr
  exact ⟨he, [], rfl, List.not_mem_nil, h⟩

/-- A construct of one token. -/
theorem token {k : TokenKind} {r : α} (hk : s.kind = k) (he : k ≠ .eof) (h : D [k] r s.advance) :
    (Outcome.done r s.advance).Derives s D :=
  after hk he (done h)

end Outcome.Derives

section Tokens

variable {s : State}

theorem State.expect_derives {k : TokenKind} (he : k ≠ .eof) :
    (s.expect k).Derives s fun ks _ _ => ks = [k] := by
  unfold State.expect
  split
  next hk => exact .token (by simpa using hk) he rfl
  next => exact .failed _ s

theorem State.expectIdent_derives :
    s.expectIdent.Derives s fun ks x _ => ks = [.ident x] := by
  unfold State.expectIdent
  split
  next hk => exact .token hk (by simp) rfl
  next => exact .failed _ s

/-- A semicolon that may be missing. -/
theorem State.skipOne_derives (r : α) :
    (Outcome.done r (s.skipOne .semicolon)).Derives s fun ks r' s' =>
      r' = r ∧ (ks = [.semicolon] ∨ ks = [] ∧ s' = s ∧ s'.kind ≠ .semicolon) := by
  unfold State.skipOne
  split
  next hk => exact .token (by simpa using hk) (by decide) ⟨rfl, .inl rfl⟩
  next hk => exact .done ⟨rfl, .inr ⟨rfl, rfl, by simpa using hk⟩⟩

theorem State.errors_report_ne_nil (e : ParseError) : (s.report e).errors ≠ [] := by
  unfold State.report
  split
  next h =>
    intro he
    simp [he] at h
  next => simp

end Tokens

/-! ### Parameters -/

theorem paramNames_derives (n : Nat) (s : State) :
    (paramNames n s).Derives s fun ks xs _ => ∃ ls, ks = ls ++ [.rparen] ∧ Names ls xs := by
  induction n generalizing s with
  | zero => exact .outOfFuel
  | succ n ih =>
    rw [paramNames]
    refine State.expectIdent_derives.andThen fun x s' => ?_
    split
    next hk =>
      refine .after (by simpa using hk) (by decide) (.map _ ((ih s'.advance).mono ?_))
      rintro _ xs _ ⟨ls, rfl, h⟩ _ rfl
      exact ⟨.ident x :: .comma :: ls, rfl, .more h⟩
    next =>
      refine .map _ ((State.expect_derives (by decide)).mono ?_)
      rintro _ _ _ rfl _ rfl
      exact ⟨[.ident x], rfl, .one⟩

theorem params_derives (n : Nat) (s : State) :
    (params n s).Derives s fun ks xs _ => ∃ ls, ks = .lparen :: (ls ++ [.rparen]) ∧ Params ls xs := by
  rw [params]
  refine (State.expect_derives (by decide)).andThen fun _ s' => ?_
  split
  next hk =>
    refine .token (by simpa using hk) (by decide) ?_
    rintro _ rfl
    exact ⟨[], rfl, .none⟩
  next =>
    refine (paramNames_derives n s').mono ?_
    rintro _ xs _ ⟨ls, rfl, h⟩ _ rfl
    exact ⟨ls, rfl, .some h⟩

/-! ### Productions -/

/-- What a statement derives: with its semicolon, or without it and, unless it is a loop, with
nothing after it that would go on with it. -/
def StatementRead (ks : List TokenKind) (st : Stmt) (s : State) : Prop :=
  (∃ ls, ks = ls ++ [.semicolon] ∧ Statement ls st.strip) ∨
    (Statement ks st.strip ∧ (isLoop st.strip = false → continues s.kind = false))

/-- A statement that has been read up to its semicolon. Unless it is a loop, the next token must not
bind it. -/
theorem skipOne_statementRead (st : Stmt) (s : State) :
    (Outcome.done st (s.skipOne .semicolon)).Derives s fun ls st' s' => ∀ ks,
      Statement ks st.strip → (isLoop st.strip = false → s.kind.binding = 0) →
        StatementRead (ks ++ ls) st' s' := by
  refine (State.skipOne_derives st).mono ?_
  rintro ls _ s' ⟨rfl, rfl | ⟨rfl, rfl, -⟩⟩ ks h hb
  · exact .inl ⟨ks, rfl, h⟩
  · rw [List.append_nil]
    exact .inr ⟨h, fun hl => (continues_eq_false_iff _).2 (hb hl)⟩

/-- What every production derives in `n` steps. A production that starts by consuming its first
token is only tried where that token stands. -/
structure Sound (n : Nat) : Prop where
  expression : ∀ min s, (expression n min s).Derives s fun ks e s' =>
    Expression min.layer ks e.strip ∧ s'.kind.binding ≤ min.rank
  operators : ∀ min left s, (operators n min left s).Derives s fun ks e s' =>
    ∀ l js, Expression l js left.strip → s.kind.binding ≤ l.follow → min.layer.rank ≤ l.rank →
      Expression min.layer (js ++ ks) e.strip ∧ s'.kind.binding ≤ min.rank
  extension : ∀ k x left s, Extension.ofToken? k = some x →
    (extension n x left s).Derives s fun ks e s' =>
      ∀ js, Expression x.target js left.strip →
        Expression x.layer (js ++ k :: ks) e.strip ∧ s'.kind.binding ≤ x.layer.follow
  operand : ∀ s, (operand n s).Derives s fun ks e s' =>
    ∃ l, Expression l ks e.strip ∧ s'.kind.binding ≤ l.follow ∧ Layer.unary.rank ≤ l.rank
  unary : ∀ op s, s.kind = op.token → (unary n op s).Derives s fun ks e s' =>
    Expression .unary ks e.strip ∧ s'.kind.binding ≤ Layer.unary.follow
  grouping : ∀ s, s.kind = .lparen → (grouping n s).Derives s fun ks e _ =>
    Expression .suffix ks e.strip
  conditional : ∀ s, s.kind = .ifKw → (conditional n s).Derives s fun ks e _ =>
    Expression .suffix ks e.strip
  function : ∀ s, s.kind = .fnKw → (function n s).Derives s fun ks e _ =>
    Expression .suffix ks e.strip
  arrayLiteral : ∀ s, s.kind = .lbracket → (arrayLiteral n s).Derives s fun ks e _ =>
    Expression .suffix ks e.strip
  hashLiteral : ∀ s, s.kind = .lbrace → (hashLiteral n s).Derives s fun ks e _ =>
    Expression .suffix ks e.strip
  expressions : ∀ close s, close ≠ .eof → (expressions n close s).Derives s fun ks es _ =>
    ∃ ls, ks = ls ++ [close] ∧ Items ls (Expr.stripAll es)
  expressionsFrom : ∀ close s, close ≠ .eof → (expressionsFrom n close s).Derives s fun ks es _ =>
    ∃ ls, ks = ls ++ [close] ∧ Items1 ls (Expr.stripAll es)
  entries : ∀ s, (entries n s).Derives s fun ks es _ => Entries ks (Expr.stripEntries es)
  statement : ∀ s, (statement n s).Derives s StatementRead
  letBinding : ∀ s, s.kind = .letKw → (letBinding n s).Derives s fun ks st s' =>
    ∃ x ls e, ks = .letKw :: .ident x :: .assign :: ls ∧ Expression .assignment ls e ∧
      st.strip = .letBind x e .nowhere ∧ s'.kind.binding = 0
  returnStatement : ∀ s, s.kind = .returnKw → (returnStatement n s).Derives s StatementRead
  forLoop : ∀ s, s.kind = .forKw → (forLoop n s).Derives s StatementRead
  loopInit : ∀ s, (loopInit n s).Derives s fun ks i _ => Init ks (Stmt.stripPart i)
  loopPart : ∀ close s, (loopPart n close s).Derives s fun ks e _ => Part ks (Expr.stripPart e)
  block : ∀ s, (block n s).Derives s fun ks b _ => Braces ks b.strip
  statements : ∀ scope s, (statements n scope s).Derives s fun ks ss s' =>
    Statements ks (Stmt.stripAll ss) ∧ s'.stops scope = true

namespace Sound

variable {n : Nat}

theorem zero : Sound 0 := by
  constructor <;> intros <;> exact Outcome.Derives.outOfFuel

section Step

variable (ih : Sound n) (s : State)
include ih

theorem expression_succ (min : Precedence) :
    (Parser.expression (n + 1) min s).Derives s fun ks e s' =>
      Expression min.layer ks e.strip ∧ s'.kind.binding ≤ min.rank := by
  rw [Parser.expression]
  refine (ih.operand s).andThen fun left s' => (ih.operators min left s').mono ?_
  rintro ls e s'' h ks ⟨l, hl, hf, hu⟩
  exact h l ks hl hf (Nat.le_trans (layer_rank_le_unary min) hu)

theorem operators_succ (min : Precedence) (left : Expr) :
    (Parser.operators (n + 1) min left s).Derives s fun ks e s' =>
      ∀ l js, Expression l js left.strip → s.kind.binding ≤ l.follow → min.layer.rank ≤ l.rank →
        Expression min.layer (js ++ ks) e.strip ∧ s'.kind.binding ≤ min.rank := by
  rw [Parser.operators]
  split
  next hx =>
    refine .done fun l js h _ hl => ⟨?_, ?_⟩
    · rw [List.append_nil]
      exact h.loosen hl
    · simp [TokenKind.binding, hx]
  next x hx =>
    have hb : s.kind.binding = x.precedence.rank := by simp [TokenKind.binding, hx]
    split
    next hlt =>
      have he : s.kind ≠ .eof := by
        intro he
        simp [he, Extension.ofToken?] at hx
      refine .after rfl he ((ih.extension s.kind x left s.advance hx).andThen fun e s' =>
        (ih.operators min e s').mono ?_)
      -- `left` can be the left operand, and what comes out is of the layer of the extension.
      rintro ms r s'' hr ks hks l js h hf _
      have ht : x.target.rank ≤ l.rank := target_rank_le (hb ▸ hf)
      obtain ⟨hx', hf'⟩ := hks js (h.loosen ht)
      have := hr x.layer _ hx' hf' (layer_rank_le hlt)
      rwa [List.append_assoc] at this
    next hle =>
      refine .done fun l js h _ hl => ⟨?_, by omega⟩
      rw [List.append_nil]
      exact h.loosen hl

theorem extension_succ (k : TokenKind) (x : Extension) (left : Expr)
    (hx : Extension.ofToken? k = some x) :
    (Parser.extension (n + 1) x left s).Derives s fun ks e s' =>
      ∀ js, Expression x.target js left.strip →
        Expression x.layer (js ++ k :: ks) e.strip ∧ s'.kind.binding ≤ x.layer.follow := by
  cases x with
  | call =>
    obtain rfl := Extension.ofToken?_eq_call_iff.mp hx
    rw [Parser.extension]
    refine (((ih.expressions .rparen s (by decide)).within _)).andThen fun args s' => .done ?_
    rintro _ ⟨ls, rfl, hls⟩ js hjs
    rw [List.append_nil]
    exact ⟨.call hjs hls, binding_le_follow_suffix _⟩
  | index =>
    obtain rfl := Extension.ofToken?_eq_index_iff.mp hx
    rw [Parser.extension]
    have hplace : ((Parser.expression n .lowest s).andThen fun place s' =>
        (s'.expect .rbracket).map fun _ => place).Derives s fun ks place _ =>
          ∃ ls, ks = ls ++ [.rbracket] ∧ Expression .assignment ls place.strip := by
      refine (ih.expression .lowest s).andThen fun place s' =>
        .map _ ((State.expect_derives (by decide)).mono ?_)
      rintro _ _ _ rfl ls ⟨hls, -⟩
      exact ⟨ls, rfl, hls⟩
    refine (hplace.within _).andThen fun place s' => .done ?_
    rintro _ ⟨ls, rfl, hls⟩ js hjs
    rw [List.append_nil]
    exact ⟨.index hjs hls, binding_le_follow_suffix _⟩
  | assign =>
    obtain rfl := Extension.ofToken?_eq_assign_iff.mp hx
    rw [Parser.extension]
    refine .map _ ((ih.expression .lowest s).mono ?_)
    rintro ks v s' ⟨hks, hb⟩ js hjs
    exact ⟨.assign hjs hks, hb⟩
  | binary op =>
    rw [Parser.extension]
    refine .map _ ((ih.expression _ s).mono ?_)
    rintro ks b s' ⟨hks, hb⟩ js hjs
    rw [precedence_layer_binary] at hks
    rw [precedence_rank_binary] at hb
    have ht : (Extension.binary op).target = (Extension.binary op).layer := rfl
    rw [ht] at hjs
    exact ⟨.binary (operator?_eq_some_iff.2 ⟨hx, rfl⟩) hjs hks, hb⟩

theorem operand_succ :
    (Parser.operand (n + 1) s).Derives s fun ks e s' =>
      ∃ l, Expression l ks e.strip ∧ s'.kind.binding ≤ l.follow ∧ Layer.unary.rank ≤ l.rank := by
  -- After an atom anything may follow, for an atom takes what binds it.
  have atom {ks : List TokenKind} {e : Expr} (s' : State) (h : Expression .suffix ks e) :
      ∃ l, Expression l ks e ∧ s'.kind.binding ≤ l.follow ∧ Layer.unary.rank ≤ l.rank :=
    ⟨.suffix, h, binding_le_follow_suffix _, by decide⟩
  have prefixed {ks : List TokenKind} {e : Expr} (s' : State)
      (h : Expression .unary ks e ∧ s'.kind.binding ≤ Layer.unary.follow) :
      ∃ l, Expression l ks e ∧ s'.kind.binding ≤ l.follow ∧ Layer.unary.rank ≤ l.rank :=
    ⟨.unary, h.1, h.2, Nat.le_refl _⟩
  rw [Parser.operand]
  split
  next hk => exact .token hk (by simp) (atom _ .int)
  next hk => exact .token hk (by simp) (atom _ .str)
  next hk => exact .token hk (by simp) (atom _ .ident)
  next hk => exact .token hk (by simp) (atom _ .true)
  next hk => exact .token hk (by simp) (atom _ .false)
  next hk => exact (ih.unary .not s hk).mono fun ks e s' h => prefixed s' h
  next hk => exact (ih.unary .neg s hk).mono fun ks e s' h => prefixed s' h
  next hk => exact ((ih.grouping s hk).within _).mono fun ks e s' h => atom s' h
  next hk => exact ((ih.conditional s hk).within _).mono fun ks e s' h => atom s' h
  next hk => exact ((ih.function s hk).within _).mono fun ks e s' h => atom s' h
  next hk => exact ((ih.arrayLiteral s hk).within _).mono fun ks e s' h => atom s' h
  next hk => exact ((ih.hashLiteral s hk).within _).mono fun ks e s' h => atom s' h
  next => split <;> exact .failed _ s

theorem unary_succ (op : UnaryOp) (hk : s.kind = op.token) :
    (Parser.unary (n + 1) op s).Derives s fun ks e s' =>
      Expression .unary ks e.strip ∧ s'.kind.binding ≤ Layer.unary.follow := by
  rw [Parser.unary]
  refine .after hk (by cases op <;> decide) (.map _ ((ih.expression .unary s.advance).mono ?_))
  rintro ks e s' ⟨h, hb⟩
  refine ⟨?_, hb⟩
  cases op with
  | not => exact .not h
  | neg => exact .neg h

theorem grouping_succ (hk : s.kind = .lparen) :
    (Parser.grouping (n + 1) s).Derives s fun ks e _ => Expression .suffix ks e.strip := by
  rw [Parser.grouping]
  refine .after hk (by decide) ((ih.expression .lowest s.advance).andThen fun e s' =>
    .map _ ((State.expect_derives (by decide)).mono ?_))
  rintro _ _ _ rfl ks ⟨h, -⟩
  rw [Expr.strip_withSpan]
  exact .group h

theorem conditional_succ (hk : s.kind = .ifKw) :
    (Parser.conditional (n + 1) s).Derives s fun ks e _ => Expression .suffix ks e.strip := by
  rw [Parser.conditional]
  refine .after hk (by decide) ((State.expect_derives (by decide)).andThen fun _ s₁ =>
    (ih.expression .lowest s₁).andThen fun test s₂ =>
    (State.expect_derives (by decide)).andThen fun _ s₃ =>
    (ih.block s₃).andThen fun thenBlock s₄ => ?_)
  split
  next hk =>
    refine .after (by simpa using hk) (by decide) (.map _ ((ih.block s₄.advance).mono ?_))
    rintro ds d _ hd bs hb _ rfl ks ⟨hc, -⟩ _ rfl
    exact .condElse hc hb hd
  next =>
    refine .done ?_
    rintro bs hb _ rfl ks ⟨hc, -⟩ _ rfl
    rw [List.append_nil]
    exact .cond hc hb

theorem function_succ (hk : s.kind = .fnKw) :
    (Parser.function (n + 1) s).Derives s fun ks e _ => Expression .suffix ks e.strip := by
  rw [Parser.function]
  refine .after hk (by decide) ((Outcome.Derives.within _ (params_derives n s.advance)).andThen
    fun names s' => .map _ ((ih.block s').mono ?_))
  rintro bs b _ hb _ ⟨ps, rfl, hps⟩
  have := Expression.function hps hb
  simpa [Expr.strip] using this

theorem arrayLiteral_succ (hk : s.kind = .lbracket) :
    (Parser.arrayLiteral (n + 1) s).Derives s fun ks e _ => Expression .suffix ks e.strip := by
  rw [Parser.arrayLiteral]
  refine .after hk (by decide) ((ih.expressions .rbracket s.advance (by decide)).andThen
    fun items s' => .done ?_)
  rintro _ ⟨ls, rfl, h⟩
  rw [List.append_nil]
  exact .array h

theorem hashLiteral_succ (hk : s.kind = .lbrace) :
    (Parser.hashLiteral (n + 1) s).Derives s fun ks e _ => Expression .suffix ks e.strip := by
  rw [Parser.hashLiteral]
  refine .after hk (by decide) ((ih.entries s.advance).andThen fun es s' =>
    .map _ ((State.expect_derives (by decide)).mono ?_))
  rintro _ _ _ rfl ks h
  exact .hash h

theorem expressions_succ (close : TokenKind) (hc : close ≠ .eof) :
    (Parser.expressions (n + 1) close s).Derives s fun ks es _ =>
      ∃ ls, ks = ls ++ [close] ∧ Items ls (Expr.stripAll es) := by
  rw [Parser.expressions]
  split
  next hk => exact .token (by simpa using hk) hc ⟨[], rfl, .none⟩
  next => exact (ih.expressionsFrom close s hc).mono fun ks es _ ⟨ls, hls, h⟩ => ⟨ls, hls, .some h⟩

theorem expressionsFrom_succ (close : TokenKind) (hc : close ≠ .eof) :
    (Parser.expressionsFrom (n + 1) close s).Derives s fun ks es _ =>
      ∃ ls, ks = ls ++ [close] ∧ Items1 ls (Expr.stripAll es) := by
  rw [Parser.expressionsFrom]
  refine (ih.expression .lowest s).andThen fun e s' => ?_
  split
  next hk =>
    refine .after (by simpa using hk) (by decide) (.map _
      ((ih.expressionsFrom close s'.advance hc).mono ?_))
    rintro _ es _ ⟨ls, rfl, hls⟩ ks ⟨he, -⟩
    exact ⟨ks ++ .comma :: ls, by simp, .more he hls⟩
  next =>
    refine .map _ ((State.expect_derives hc).mono ?_)
    rintro _ _ _ rfl ks ⟨he, -⟩
    exact ⟨ks, rfl, .one he⟩

theorem entries_succ :
    (Parser.entries (n + 1) s).Derives s fun ks es _ => Entries ks (Expr.stripEntries es) := by
  rw [Parser.entries]
  split
  · exact .done .none
  refine (ih.expression .lowest s).andThen fun key s₁ =>
    (State.expect_derives (by decide)).andThen fun _ s₂ =>
    (ih.expression .lowest s₂).andThen fun value s₃ => ?_
  split
  next hk =>
    refine .after (by simpa using hk) (by decide) (.map _ ((ih.entries s₃.advance).mono ?_))
    rintro ms es _ hes ls ⟨hv, -⟩ _ rfl ks ⟨hkey, -⟩
    exact .more hkey hv hes
  next =>
    refine .done ?_
    rintro ls ⟨hv, -⟩ _ rfl ks ⟨hkey, -⟩
    rw [List.append_nil]
    exact .one hkey hv

theorem statement_succ : (Parser.statement (n + 1) s).Derives s StatementRead := by
  rw [Parser.statement]
  split
  next hk =>
    refine ((ih.letBinding s hk).within _).andThen fun st s' => (skipOne_statementRead st s').mono ?_
    rintro ls st' s'' hread _ ⟨x, js, e, rfl, he, hst, hb⟩
    exact hread _ (hst ▸ .letBind he) fun _ => hb
  next hk => exact (ih.returnStatement s hk).within _
  next hk => exact (ih.forLoop s hk).within _
  next =>
    refine (ih.expression .lowest s).andThen fun e s' => (skipOne_statementRead _ s').mono ?_
    rintro ls st s'' hread ks ⟨he, hb⟩
    exact hread ks (.expr he) fun _ => Nat.le_zero.1 hb

theorem letBinding_succ (hk : s.kind = .letKw) :
    (Parser.letBinding (n + 1) s).Derives s fun ks st s' =>
      ∃ x ls e, ks = .letKw :: .ident x :: .assign :: ls ∧ Expression .assignment ls e ∧
        st.strip = .letBind x e .nowhere ∧ s'.kind.binding = 0 := by
  rw [Parser.letBinding]
  refine .after hk (by decide) (State.expectIdent_derives.andThen fun x s₁ =>
    (State.expect_derives (by decide)).andThen fun _ s₂ =>
    .map _ ((ih.expression .lowest s₂).mono ?_))
  rintro ls e s' ⟨he, hb⟩ _ rfl _ rfl
  exact ⟨x, ls, e.strip, rfl, he, rfl, Nat.le_zero.1 hb⟩

theorem returnStatement_succ (hk : s.kind = .returnKw) :
    (Parser.returnStatement (n + 1) s).Derives s StatementRead := by
  rw [Parser.returnStatement]
  refine .after hk (by decide) ((ih.expression .lowest s.advance).andThen fun e s' =>
    (skipOne_statementRead _ s').mono ?_)
  rintro ls st s'' hread ks ⟨he, hb⟩
  exact hread _ (.ret he) fun _ => Nat.le_zero.1 hb

theorem forLoop_succ (hk : s.kind = .forKw) :
    (Parser.forLoop (n + 1) s).Derives s StatementRead := by
  rw [Parser.forLoop]
  refine .after hk (by decide) ((State.expect_derives (by decide)).andThen fun _ s₁ =>
    (ih.loopInit s₁).andThen fun init s₂ =>
    (State.expect_derives (by decide)).andThen fun _ s₃ =>
    (ih.loopPart .semicolon s₃).andThen fun test s₄ =>
    (State.expect_derives (by decide)).andThen fun _ s₅ =>
    (ih.loopPart .rparen s₅).andThen fun after s₆ =>
    (State.expect_derives (by decide)).andThen fun _ s₇ =>
    (ih.block s₇).andThen fun body s₈ => (skipOne_statementRead _ s₈).mono ?_)
  rintro ls st s' hread bs hb _ rfl as ha _ rfl cs hc _ rfl is hi _ rfl
  have := hread _ (.forLoop hi hc ha hb) nofun
  simpa using this

theorem loopInit_succ :
    (Parser.loopInit (n + 1) s).Derives s fun ks i _ => Init ks (Stmt.stripPart i) := by
  rw [Parser.loopInit]
  split
  next => exact .done .none
  next hk =>
    refine .map _ ((ih.letBinding s hk).mono ?_)
    rintro _ st s' ⟨x, ls, e, rfl, he, hst, -⟩
    rw [Stmt.stripPart, hst]
    exact .letBind he
  next => exact .map _ ((ih.expression .lowest s).mono fun ks e s' ⟨he, _⟩ => .expr he)

theorem loopPart_succ (close : TokenKind) :
    (Parser.loopPart (n + 1) close s).Derives s fun ks e _ => Part ks (Expr.stripPart e) := by
  rw [Parser.loopPart]
  split
  next => exact .done .none
  next => exact .map _ ((ih.expression .lowest s).mono fun ks e s' ⟨he, _⟩ => .some he)

theorem block_succ : (Parser.block (n + 1) s).Derives s fun ks b _ => Braces ks b.strip := by
  rw [Parser.block]
  refine (Outcome.Derives.within _ (State.expect_derives (by decide))).andThen fun _ s₁ =>
    (ih.statements .block s₁).andThen fun ss s₂ =>
    .map _ (Outcome.Derives.within _ ((State.expect_derives (by decide)).mono ?_))
  rintro _ _ _ rfl ks ⟨h, -⟩ _ rfl
  exact .mk h

theorem statements_succ (scope : Scope) :
    (Parser.statements (n + 1) scope s).Derives s fun ks ss s' =>
      Statements ks (Stmt.stripAll ss) ∧ s'.stops scope = true := by
  rw [Parser.statements]
  split
  next hstop => exact .done ⟨.nil, hstop⟩
  have hread := ih.statement s
  cases hst : Parser.statement n s with
  | done st s' =>
    rw [hst] at hread
    change Outcome.Derives ((Outcome.done st s').andThen fun st s' =>
      (Parser.statements n scope s').map (st :: ·)) s _
    refine hread.andThen fun st s' => .map _ ((ih.statements scope s').head.mono ?_)
    rintro ls ss s'' ⟨⟨hss, hstop⟩, hhead⟩ ks (⟨js, rfl, hst⟩ | ⟨hst, hfree⟩)
    · refine ⟨?_, hstop⟩
      simpa [Stmt.stripAll] using Statements.closed hst hss
    · refine ⟨.bare hst hss fun hl k hk => ?_, hstop⟩
      rw [hhead k hk]
      exact hfree hl
  | failed e s' =>
    -- The error that has been reported stays.
    intro r s'' hr he
    have := (ih.statements scope _ r s'' hr he).1
    exact absurd this (State.errors_report_ne_nil e)
  | outOfFuel => exact .outOfFuel

end Step

end Sound

/-- What is read without any error derives what has been read. -/
theorem sound (n : Nat) : Sound n := by
  induction n with
  | zero => exact .zero
  | succ n ih =>
    exact {
      expression := fun min s => ih.expression_succ s min
      operators := fun min left s => ih.operators_succ s min left
      extension := fun k x left s hx => ih.extension_succ s k x left hx
      operand := fun s => ih.operand_succ s
      unary := fun op s hk => ih.unary_succ s op hk
      grouping := fun s hk => ih.grouping_succ s hk
      conditional := fun s hk => ih.conditional_succ s hk
      function := fun s hk => ih.function_succ s hk
      arrayLiteral := fun s hk => ih.arrayLiteral_succ s hk
      hashLiteral := fun s hk => ih.hashLiteral_succ s hk
      expressions := fun close s hc => ih.expressions_succ s close hc
      expressionsFrom := fun close s hc => ih.expressionsFrom_succ s close hc
      entries := fun s => ih.entries_succ s
      statement := fun s => ih.statement_succ s
      letBinding := fun s hk => ih.letBinding_succ s hk
      returnStatement := fun s hk => ih.returnStatement_succ s hk
      forLoop := fun s hk => ih.forLoop_succ s hk
      loopInit := fun s => ih.loopInit_succ s
      loopPart := fun close s => ih.loopPart_succ s close
      block := fun s => ih.block_succ s
      statements := fun scope s => ih.statements_succ s scope }

end MonkeyLang.Parser
