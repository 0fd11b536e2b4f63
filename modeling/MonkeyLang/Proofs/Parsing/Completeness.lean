import MonkeyLang.Proofs.Parsing.Kinds

/-!
# What is in the grammar is read

If the next tokens derive a construct, reading it ends behind them with the tree of the derivation,
and no error is reported. Again nothing is said about the number of steps: `Outcome.Reads` leaves
out the runs that have too few of them.

An expression is read by the loop over infix operators, which goes on behind it. So the invariant
`ReadsExpression` is about where that loop stands: after an expression of the layer `l`, it stands
behind the tokens of the expression and goes on with its tree, whatever the binding power, as long
as it takes in expressions of that layer. There is one lemma for each constructor of the
derivations, and `reads` puts them together.

## Main statements

* `Expression.reads`, `Statement.reads`, `Statements.reads` : all derivations.
-/

namespace MonkeyLang

namespace Grammar

/-- Whether an expression can start with the token. -/
def opens : TokenKind → Bool
  | .int _ | .str _ | .ident _ | .trueKw | .falseKw | .bang | .minus | .lparen | .lbracket
  | .lbrace | .ifKw | .fnKw => true
  | _ => false

/-- Whether a statement can start with the token. -/
def opensStatement : TokenKind → Bool
  | .letKw | .returnKw | .forKw => true
  | k => opens k

theorem Expression.exists_opens {l : Layer} {ks : List TokenKind} {e : Expr}
    (h : Expression l ks e) : ∃ k ls, ks = k :: ls ∧ opens k := by
  match h with
  | .tighter h => exact h.exists_opens
  | .assign h _ | .binary _ h _ | .call h _ | .index h _ =>
    obtain ⟨k, ls, rfl, hk⟩ := h.exists_opens
    exact ⟨k, _, rfl, hk⟩
  | .not _ | .neg _ | .int | .str | .ident | .true | .false | .group _ | .cond _ _
  | .condElse _ _ _ | .function _ _ | .array _ | .hash _ => exact ⟨_, _, rfl, rfl⟩

theorem opensStatement_of_opens {k : TokenKind} (h : opens k = true) : opensStatement k = true := by
  cases k <;> simp_all [opens, opensStatement]

theorem Statement.exists_opens {ks : List TokenKind} {s : Stmt} (h : Statement ks s) :
    ∃ k ls, ks = k :: ls ∧ opensStatement k := by
  cases h with
  | expr he =>
    obtain ⟨k, ls, rfl, hk⟩ := he.exists_opens
    exact ⟨k, ls, rfl, opensStatement_of_opens hk⟩
  | _ => exact ⟨_, _, rfl, rfl⟩

theorem Statements.exists_opens {ks : List TokenKind} {ss : List Stmt} (h : Statements ks ss) :
    ∀ k ∈ ks.head?, opensStatement k = true := by
  cases h with
  | nil => simp
  | closed hs _ | bare hs _ _ =>
    obtain ⟨k, ls, rfl, hk⟩ := hs.exists_opens
    simpa using hk

/-- Whether an expression of the layer, followed by the token, ends before it. -/
def Layer.Precedes (l : Layer) (k : TokenKind) : Prop := k.binding ≤ l.follow ∧ k ≠ .elseKw

/-- How loose a loop over operators may at most be that does not stop inside an expression of the
layer. -/
def Layer.bound : Layer → Nat
  | .assignment => 1
  | .equality => 2
  | .order => 3
  | .sum => 4
  | .product => 5
  | .unary | .suffix => 7

theorem Layer.bound_le_tighter (l : Layer) : l.bound ≤ l.tighter.bound := by
  cases l <;> decide

theorem Layer.Precedes.tighter {l : Layer} {k : TokenKind} (h : l.Precedes k) :
    l.tighter.Precedes k :=
  ⟨Nat.le_trans h.1 (by cases l <;> decide), h.2⟩

theorem precedes_cons {l : Layer} {k : TokenKind} {ls : List TokenKind}
    (hb : k.binding ≤ l.follow := by decide) (he : k ≠ .elseKw := by decide) :
    l.Precedes ((k :: ls).headD .eof) :=
  ⟨hb, he⟩

theorem bound_layer_binary (op : BinaryOp) :
    (Extension.binary op).layer.bound = (Extension.binary op).precedence.rank := by
  cases op <;> rfl

theorem precedence_rank_lt_bound_tighter (op : BinaryOp) :
    (Extension.binary op).precedence.rank < (Extension.binary op).layer.tighter.bound := by
  cases op <;> decide

end Grammar

namespace Parser

open Grammar

variable {α β : Type}

/-- Unless the steps do not suffice, a construct is read with the property `P`, the tokens `ls` are
left, and no error has been reported since the state `s`. -/
def Outcome.Reads (o : Outcome α) (s : State) (ls : List TokenKind) (P : α → Prop) : Prop :=
  o ≠ .outOfFuel → ∃ r s', o = .done r s' ∧ P r ∧ s'.kinds = ls ∧ s'.errors = s.errors

namespace Outcome.Reads

variable {o : Outcome α} {s : State} {ls ms : List TokenKind} {P : α → Prop} {Q : β → Prop}

theorem outOfFuel : (Outcome.outOfFuel : Outcome α).Reads s ls P := by
  intro ho
  exact absurd rfl ho

theorem done {r : α} {s' : State} (hr : P r) (hk : s'.kinds = ls) (he : s'.errors = s.errors) :
    (Outcome.done r s').Reads s ls P := by
  intro _
  exact ⟨r, s', rfl, hr, hk, he⟩

theorem andThen {next : α → State → Outcome β} (h : o.Reads s ls P)
    (hn : ∀ r s', P r → s'.kinds = ls → (next r s').Reads s' ms Q) :
    (o.andThen next).Reads s ms Q := by
  intro ho
  obtain ⟨r, s', rfl, hr, hk, he⟩ := h (by rintro rfl; exact ho rfl)
  obtain ⟨x, s'', hx, hQ, hk', he'⟩ := hn r s' hr hk ho
  exact ⟨x, s'', hx, hQ, hk', he'.trans he⟩

theorem map {f : α → β} (h : o.Reads s ls P) (hf : ∀ r, P r → Q (f r)) :
    (o.map f).Reads s ls Q :=
  h.andThen fun r _ hr hk => .done (hf r hr) hk rfl

theorem within (c : Construct) (h : o.Reads s ls P) : (o.within c).Reads s ls P := by
  intro ho
  obtain ⟨r, s', rfl, hr, hk, he⟩ := h (by rintro rfl; exact ho rfl)
  exact ⟨r, s', rfl, hr, hk, he⟩

end Outcome.Reads

section Tokens

variable {s : State} {k : TokenKind} {ls : List TokenKind}

theorem State.expect_reads (hk : s.kinds = k :: ls) (he : k ≠ .eof := by decide) :
    (s.expect k).Reads s ls fun _ => True := by
  have : (s.kind == k) = true := by simpa using State.kind_eq_of_kinds hk
  rw [State.expect, if_pos this]
  exact .done trivial (State.kinds_advance hk he) rfl

theorem State.expectIdent_reads {x : String} (hk : s.kinds = .ident x :: ls) :
    s.expectIdent.Reads s ls (· = x) := by
  rw [State.expectIdent, State.kind_eq_of_kinds hk]
  exact .done rfl (State.kinds_advance hk (by simp)) rfl

/-- The tokens behind a semicolon that may be missing. -/
def dropSemicolon : List TokenKind → List TokenKind
  | .semicolon :: ls => ls
  | ls => ls

theorem State.skipOne_reads {P : α → Prop} {r : α} (hr : P r) (hk : s.kinds = ls) :
    (Outcome.done r (s.skipOne .semicolon)).Reads s (dropSemicolon ls) P := by
  unfold State.skipOne
  split
  next h =>
    obtain rfl : ls = .semicolon :: s.advance.kinds := by
      rw [← hk]
      exact State.kinds_eq_cons (by simpa using h) (by decide)
    exact .done hr rfl rfl
  next h =>
    have hd : dropSemicolon ls = ls := by
      unfold dropSemicolon
      split
      next => exact absurd (by simpa using State.kind_eq_of_kinds hk) h
      next => rfl
    exact .done hr (hk.trans hd.symm) rfl

theorem State.opens_kind {l : Layer} {ks : List TokenKind} {e : Expr} (h : Expression l ks e)
    (hk : s.kinds = ks ++ ls) : opens s.kind = true := by
  obtain ⟨k, js, rfl, ho⟩ := h.exists_opens
  rwa [State.kind_eq_of_kinds hk]

theorem State.opensStatement_kind {ks : List TokenKind} {st : Stmt} (h : Statement ks st)
    (hk : s.kinds = ks ++ ls) : opensStatement s.kind = true := by
  obtain ⟨k, js, rfl, ho⟩ := h.exists_opens
  rwa [State.kind_eq_of_kinds hk]

end Tokens

/-! ### The loop over operators -/

/-- Unless the steps do not suffice, reading stands in the loop over operators that bind tighter than
`min`, behind an expression with the tree `e` and before the tokens `ls`. -/
def Outcome.Resumes (o : Outcome Expr) (min : Precedence) (s : State) (ls : List TokenKind)
    (e : Expr) : Prop :=
  o ≠ .outOfFuel → ∃ n e' s', o = operators n min e' s' ∧ e'.strip = e ∧ s'.kinds = ls ∧
    s'.errors = s.errors

section Loop

variable {n : Nat} {min : Precedence} {s : State} {ls ms : List TokenKind} {o : Outcome Expr}
variable {e t : Expr}

/-- The loop starts behind an operand. -/
theorem Outcome.Reads.resumes (h : (operand n s).Reads s ls fun e' => e'.strip = e) :
    (expression (n + 1) min s).Resumes min s ls e := by
  intro ho
  rw [expression] at ho ⊢
  obtain ⟨e', s', he', rest⟩ := h (by intro h0; rw [h0] at ho; exact ho rfl)
  exact ⟨n, e', s', by rw [he']; rfl, rest⟩

/-- The loop ends before a token that does not bind tightly enough. -/
theorem Outcome.Resumes.reads (h : o.Resumes min s ls e)
    (hb : (ls.headD .eof).binding ≤ min.rank) : o.Reads s ls fun e' => e'.strip = e := by
  intro ho
  obtain ⟨n, e', s', rfl, he, hk, hs⟩ := h ho
  cases n with
  | zero => exact absurd rfl ho
  | succ n =>
    rw [← hk, ← State.kind_eq_headD, TokenKind.binding] at hb
    refine ⟨e', s', ?_, he, hk, hs⟩
    rw [operators]
    split
    next => rfl
    next x hx =>
      rw [hx] at hb
      rw [if_neg (Nat.not_lt.2 hb)]

/-- The loop takes in what binds tightly enough. -/
theorem Outcome.Resumes.extend {k : TokenKind} {x : Extension} (h : o.Resumes min s (k :: ms) t)
    (hx : Extension.ofToken? k = some x) (hm : min.rank < x.precedence.rank)
    (hr : ∀ n t' s', t'.strip = t → s'.kinds = ms →
      (extension n x t' s').Reads s' ls fun e' => e'.strip = e) : o.Resumes min s ls e := by
  intro ho
  obtain ⟨n, t', s', rfl, ht, hk, hs⟩ := h ho
  cases n with
  | zero => exact absurd rfl ho
  | succ n =>
    have he : k ≠ .eof := by
      rintro rfl
      cases hx
    rw [operators, State.kind_eq_of_kinds hk, hx] at ho ⊢
    dsimp only at ho ⊢
    rw [if_pos hm] at ho ⊢
    obtain ⟨e', s'', he', hstrip, hk', hs'⟩ :=
      hr n t' s'.advance ht (State.kinds_advance hk he) (by intro h0; rw [h0] at ho; exact ho rfl)
    exact ⟨n, e', s'', by rw [he']; rfl, hstrip, hk', hs'.trans hs⟩

end Loop

/-! ### What the constructs read -/

/-- What an expression reads. -/
def ReadsExpression (l : Layer) (ks : List TokenKind) (e : Expr) : Prop :=
  ∀ n min s ls, s.kinds = ks ++ ls → l.Precedes (ls.headD .eof) → min.rank < l.bound →
    (expression n min s).Resumes min s ls e

/-- What expressions with commas between them read, up to and with a token. -/
def ReadsItems1 (ks : List TokenKind) (es : List Expr) : Prop :=
  ∀ n close s ls, s.kinds = ks ++ close :: ls → close = .rparen ∨ close = .rbracket →
    (expressionsFrom n close s).Reads s ls fun es' => Expr.stripAll es' = es

/-- As `ReadsItems1`, for possibly no expressions. -/
def ReadsItems (ks : List TokenKind) (es : List Expr) : Prop :=
  ∀ n close s ls, s.kinds = ks ++ close :: ls → close = .rparen ∨ close = .rbracket →
    (expressions n close s).Reads s ls fun es' => Expr.stripAll es' = es

/-- What the entries of a hash literal read. -/
def ReadsEntries (ks : List TokenKind) (es : List (Expr × Expr)) : Prop :=
  ∀ n s ls, s.kinds = ks ++ .rbrace :: ls →
    (entries n s).Reads s (.rbrace :: ls) fun es' => Expr.stripEntries es' = es

/-- What a block reads. -/
def ReadsBraces (ks : List TokenKind) (b : Block) : Prop :=
  ∀ n s ls, s.kinds = ks ++ ls → (block n s).Reads s ls fun b' => b'.strip = b

/-- What the first part of a loop's header reads. -/
def ReadsInit (ks : List TokenKind) (i : Option Stmt) : Prop :=
  ∀ n s ls, s.kinds = ks ++ .semicolon :: ls →
    (loopInit n s).Reads s (.semicolon :: ls) fun i' => Stmt.stripPart i' = i

/-- What a later part of a loop's header reads. -/
def ReadsPart (ks : List TokenKind) (p : Option Expr) : Prop :=
  ∀ n close s ls, s.kinds = ks ++ close :: ls → close = .semicolon ∨ close = .rparen →
    (loopPart n close s).Reads s (close :: ls) fun p' => Expr.stripPart p' = p

/-- What a statement reads: a semicolon behind it is read with it. -/
def ReadsStatement (ks : List TokenKind) (st : Stmt) : Prop :=
  ∀ n s ls, s.kinds = ks ++ ls → (isLoop st = false → (ls.headD .eof).binding = 0) →
    ls.headD .eof ≠ .elseKw →
      (statement n s).Reads s (dropSemicolon ls) fun st' => st'.strip = st

/-- Whether the statements of the scope end before the token. -/
def Scope.EndsBefore (scope : Scope) (k : TokenKind) : Prop :=
  k = .eof ∨ scope = .block ∧ k = .rbrace

/-- What the statements of a scope read. -/
def ReadsStatements (ks : List TokenKind) (ss : List Stmt) : Prop :=
  ∀ n scope s ls, s.kinds = ks ++ ls → scope.EndsBefore (ls.headD .eof) →
    (statements n scope s).Reads s ls fun ss' => Stmt.stripAll ss' = ss

/-! ### Parameters -/

theorem paramNames_reads {ks ls : List TokenKind} {xs : List String} (h : Names ks xs) (n : Nat)
    {s : State} (hk : s.kinds = ks ++ .rparen :: ls) : (paramNames n s).Reads s ls (· = xs) := by
  induction h generalizing n s with
  | one =>
    cases n with
    | zero => exact .outOfFuel
    | succ n =>
      rw [paramNames]
      refine (State.expectIdent_reads hk).andThen fun x' s' hx hk' => ?_
      rw [if_neg (by simp [State.kind_eq_of_kinds hk'])]
      exact (State.expect_reads hk').map fun _ _ => by rw [hx]
  | more _ ih =>
    cases n with
    | zero => exact .outOfFuel
    | succ n =>
      rw [paramNames]
      refine (State.expectIdent_reads hk).andThen fun x' s' hx hk' => ?_
      rw [if_pos (by simpa using State.kind_eq_of_kinds hk')]
      exact (ih n (State.kinds_advance hk')).map fun xs' hxs => by rw [hx, hxs]

theorem params_reads {ks ls : List TokenKind} {xs : List String} (h : Params ks xs) (n : Nat)
    {s : State} (hk : s.kinds = .lparen :: (ks ++ .rparen :: ls)) :
    (params n s).Reads s ls (· = xs) := by
  rw [params]
  refine (State.expect_reads hk).andThen fun _ s' _ hk' => ?_
  cases h with
  | none =>
    rw [if_pos (by simpa using State.kind_eq_of_kinds hk')]
    exact .done rfl (State.kinds_advance hk') rfl
  | some h =>
    have hne : s'.kind ≠ .rparen := by
      cases h <;> simp [State.kind_eq_of_kinds hk']
    rw [if_neg (by simpa using hne)]
    exact paramNames_reads h n hk'

/-! ### Expressions -/

namespace ReadsExpression

variable {l : Layer} {ks ls : List TokenKind} {e : Expr}

/-- A whole expression. -/
theorem lowest (h : ReadsExpression .assignment ks e) {n : Nat} {s : State}
    (hk : s.kinds = ks ++ ls) (hl : Layer.assignment.Precedes (ls.headD .eof)) :
    (expression n .lowest s).Reads s ls fun e' => e'.strip = e :=
  (h n .lowest s ls hk hl (by decide)).reads hl.1

theorem tighter (h : ReadsExpression l.tighter ks e) : ReadsExpression l ks e := by
  intro n min s ls hk hl hm
  exact h n min s ls hk hl.tighter (Nat.lt_of_lt_of_le hm l.bound_le_tighter)

theorem assign {t v : Expr} (ht : ReadsExpression .equality ks t)
    (hv : ReadsExpression .assignment ls v) :
    ReadsExpression .assignment (ks ++ .assign :: ls) (.assign t v .nowhere) := by
  intro n min s ms hk hl hm
  have hmin : min.rank < 1 := hm
  have hloop := ht n min s (.assign :: (ls ++ ms)) (by simpa using hk) precedes_cons
    (Nat.lt_succ_of_lt hmin)
  refine hloop.extend (x := .assign) rfl hmin fun n t' s' ht' hk' => ?_
  cases n with
  | zero => exact .outOfFuel
  | succ n =>
    rw [extension]
    exact (hv.lowest hk' hl).map fun v' hv' => by simp only [Expr.strip, ht', hv']

theorem binary {k : TokenKind} {op : BinaryOp} {a b : Expr} (hop : l.operator? k = some op)
    (ha : ReadsExpression l ks a) (hb : ReadsExpression l.tighter ls b) :
    ReadsExpression l (ks ++ k :: ls) (.binary op a b .nowhere) := by
  obtain ⟨hx, rfl⟩ := operator?_eq_some_iff.1 hop
  intro n min s ms hk hl hm
  have hbind : k.binding = (Extension.binary op).precedence.rank := by
    rw [TokenKind.binding, hx]
  have hbefore : (Extension.binary op).layer.Precedes k := by
    refine ⟨?_, ?_⟩
    · exact Nat.le_of_eq (hbind.trans (precedence_rank_binary op))
    · rintro rfl
      cases hx
  have hloop := ha n min s (k :: (ls ++ ms)) (by simpa using hk) hbefore hm
  refine hloop.extend hx (bound_layer_binary op ▸ hm) fun n a' s' ha' hk' => ?_
  cases n with
  | zero => exact .outOfFuel
  | succ n =>
    rw [extension]
    have hright := hb n _ s' ms hk' hl.tighter (precedence_rank_lt_bound_tighter op)
    refine (hright.reads ?_).map fun b' hb' => by simp only [Expr.strip, ha', hb']
    rw [precedence_rank_binary]
    exact hl.1

/-- What is read as an operand is read in the loop of any binding power. -/
theorem operand (h : ∀ n s ls, s.kinds = ks ++ ls → l.Precedes (ls.headD .eof) →
    (Parser.operand n s).Reads s ls fun e' => e'.strip = e) : ReadsExpression l ks e := by
  intro n min s ls hk hl _
  cases n with
  | zero =>
    intro ho
    exact absurd (by rw [expression]) ho
  | succ n => exact (h n s ls hk hl).resumes

theorem unary (op : UnaryOp) (h : ReadsExpression .unary ks e) :
    ReadsExpression .unary (op.token :: ks) (.unary op e .nowhere) := by
  refine .operand fun n s ls hk hl => ?_
  have hread : ∀ n, (Parser.unary n op s).Reads s ls fun e' =>
      e'.strip = .unary op e .nowhere := by
    intro n
    cases n with
    | zero => exact .outOfFuel
    | succ n =>
      have hk' : s.advance.kinds = ks ++ ls := State.kinds_advance hk (by cases op <;> decide)
      rw [Parser.unary]
      exact ((h n .unary s.advance ls hk' hl (by decide)).reads hl.1).map fun e' he' => by
        simp only [Expr.strip, he']
  cases n with
  | zero => exact .outOfFuel
  | succ n =>
    rw [Parser.operand, State.kind_eq_of_kinds hk]
    cases op <;> exact hread n

/-- An atom of one token. -/
theorem token {k : TokenKind} (hk : k ≠ .eof)
    (h : ∀ n s, s.kind = k → ∃ e', Parser.operand (n + 1) s = .done e' s.advance ∧ e'.strip = e) :
    ReadsExpression .suffix [k] e := by
  refine .operand fun n s ls hks _ => ?_
  cases n with
  | zero => exact .outOfFuel
  | succ n =>
    obtain ⟨e', he, hs⟩ := h n s (State.kind_eq_of_kinds hks)
    rw [he]
    exact .done hs (State.kinds_advance hks hk) rfl

theorem call {f : Expr} {args : List Expr} (hf : ReadsExpression .suffix ks f)
    (hargs : ReadsItems ls args) :
    ReadsExpression .suffix (ks ++ .lparen :: (ls ++ [.rparen])) (.call f args .nowhere) := by
  intro n min s ms hk _ hm
  have hloop := hf n min s (.lparen :: (ls ++ .rparen :: ms)) (by simpa using hk) precedes_cons hm
  refine hloop.extend (x := .call) rfl hm fun n f' s' hf' hk' => ?_
  cases n with
  | zero => exact .outOfFuel
  | succ n =>
    rw [extension]
    exact ((hargs n .rparen s' ms hk' (.inl rfl)).within _).andThen fun args' s'' ha hk'' =>
      .done (by simp only [Expr.strip, hf', ha]) hk'' rfl

theorem index {b i : Expr} (hb : ReadsExpression .suffix ks b)
    (hi : ReadsExpression .assignment ls i) :
    ReadsExpression .suffix (ks ++ .lbracket :: (ls ++ [.rbracket])) (.index b i .nowhere) := by
  intro n min s ms hk _ hm
  have hloop := hb n min s (.lbracket :: (ls ++ .rbracket :: ms)) (by simpa using hk) precedes_cons hm
  refine hloop.extend (x := .index) rfl (Nat.lt_succ_of_lt hm) fun n b' s' hb' hk' => ?_
  cases n with
  | zero => exact .outOfFuel
  | succ n =>
    rw [extension]
    have hplace := (hi.lowest (n := n) hk' precedes_cons).andThen fun i' s'' hi' hk'' =>
      (State.expect_reads hk'').map (f := fun _ => i') fun _ _ => hi'
    exact (hplace.within _).andThen fun i' s'' hi' hk'' =>
      .done (by simp only [Expr.strip, hb', hi']) hk'' rfl

/-- An atom whose first token tells which production reads it. -/
theorem production {k : TokenKind} {c : Construct} {p : Nat → State → Outcome Expr}
    (hp : ∀ n s, s.kind = k → Parser.operand (n + 1) s = (p n s).within c)
    (h : ∀ n s ls, s.kinds = k :: (ks ++ ls) → ls.headD .eof ≠ .elseKw →
      (p n s).Reads s ls fun e' => e'.strip = e) : ReadsExpression .suffix (k :: ks) e := by
  refine .operand fun n s ls hk hl => ?_
  cases n with
  | zero => exact .outOfFuel
  | succ n =>
    rw [hp n s (State.kind_eq_of_kinds hk)]
    exact (h n s ls hk hl.2).within c

theorem group (h : ReadsExpression .assignment ks e) :
    ReadsExpression .suffix (.lparen :: (ks ++ [.rparen])) e := by
  refine .production (fun n s hs => by rw [Parser.operand, hs]) fun n s ls hk _ => ?_
  cases n with
  | zero => exact .outOfFuel
  | succ n =>
    have hk' : s.advance.kinds = ks ++ .rparen :: ls :=
      State.kinds_advance (by simpa using hk)
    rw [grouping]
    exact (h.lowest hk' precedes_cons).andThen fun e' s' he' hk'' =>
      (State.expect_reads hk'').map fun _ _ => by rw [Expr.strip_withSpan, he']

theorem cond {bs : List TokenKind} {c : Expr} {b : Block} (hc : ReadsExpression .assignment ks c)
    (hb : ReadsBraces bs b) :
    ReadsExpression .suffix (.ifKw :: .lparen :: (ks ++ .rparen :: bs))
      (.cond c b none .nowhere) := by
  refine .production (fun n s hs => by rw [Parser.operand, hs]) fun n s ls hk hl => ?_
  cases n with
  | zero => exact .outOfFuel
  | succ n =>
    have hk' : s.advance.kinds = .lparen :: (ks ++ .rparen :: (bs ++ ls)) :=
      State.kinds_advance (by simpa using hk)
    rw [conditional]
    refine (State.expect_reads hk').andThen fun _ s₁ _ hk₁ =>
      (hc.lowest hk₁ precedes_cons).andThen fun c' s₂ hc' hk₂ =>
      (State.expect_reads hk₂).andThen fun _ s₃ _ hk₃ =>
      (hb n s₃ ls hk₃).andThen fun b' s₄ hb' hk₄ => ?_
    rw [if_neg (by simpa [State.kind_eq_headD, hk₄] using hl)]
    exact .done (by simp only [Expr.strip, Block.stripPart, hc', hb']) hk₄ rfl

theorem condElse {bs ds : List TokenKind} {c : Expr} {b d : Block}
    (hc : ReadsExpression .assignment ks c) (hb : ReadsBraces bs b) (hd : ReadsBraces ds d) :
    ReadsExpression .suffix (.ifKw :: .lparen :: (ks ++ .rparen :: (bs ++ .elseKw :: ds)))
      (.cond c b (some d) .nowhere) := by
  refine .production (fun n s hs => by rw [Parser.operand, hs]) fun n s ls hk _ => ?_
  cases n with
  | zero => exact .outOfFuel
  | succ n =>
    have hk' : s.advance.kinds = .lparen :: (ks ++ .rparen :: (bs ++ .elseKw :: (ds ++ ls))) :=
      State.kinds_advance (by simpa using hk)
    rw [conditional]
    refine (State.expect_reads hk').andThen fun _ s₁ _ hk₁ =>
      (hc.lowest hk₁ precedes_cons).andThen fun c' s₂ hc' hk₂ =>
      (State.expect_reads hk₂).andThen fun _ s₃ _ hk₃ =>
      (hb n s₃ _ hk₃).andThen fun b' s₄ hb' hk₄ => ?_
    rw [if_pos (by simpa using State.kind_eq_of_kinds hk₄)]
    have hk₅ := State.kinds_advance hk₄
    exact (hd n s₄.advance ls hk₅).map fun d' hd' => by
      simp only [Expr.strip, Block.stripPart, hc', hb', hd']

theorem function {ps bs : List TokenKind} {xs : List String} {b : Block} (hp : Params ps xs)
    (hb : ReadsBraces bs b) :
    ReadsExpression .suffix (.fnKw :: .lparen :: (ps ++ .rparen :: bs))
      (.function xs b .nowhere .nowhere) := by
  refine .production (fun n s hs => by rw [Parser.operand, hs]) fun n s ls hk _ => ?_
  cases n with
  | zero => exact .outOfFuel
  | succ n =>
    have hk' : s.advance.kinds = .lparen :: (ps ++ .rparen :: (bs ++ ls)) :=
      State.kinds_advance (by simpa using hk)
    rw [Parser.function]
    exact ((params_reads hp n hk').within _).andThen fun xs' s₁ hxs hk₁ =>
      (hb n s₁ ls hk₁).map fun b' hb' => by simp only [Expr.strip, hxs, hb']

theorem array {es : List Expr} (h : ReadsItems ks es) :
    ReadsExpression .suffix (.lbracket :: (ks ++ [.rbracket])) (.array es .nowhere) := by
  refine .production (fun n s hs => by rw [Parser.operand, hs]) fun n s ls hk _ => ?_
  cases n with
  | zero => exact .outOfFuel
  | succ n =>
    have hk' : s.advance.kinds = ks ++ .rbracket :: ls :=
      State.kinds_advance (by simpa using hk)
    rw [arrayLiteral]
    exact (h n .rbracket s.advance ls hk' (.inr rfl)).andThen fun es' s' hes hk'' =>
      .done (by simp only [Expr.strip, hes]) hk'' rfl

theorem hash {es : List (Expr × Expr)} (h : ReadsEntries ks es) :
    ReadsExpression .suffix (.lbrace :: (ks ++ [.rbrace])) (.hash es .nowhere) := by
  refine .production (fun n s hs => by rw [Parser.operand, hs]) fun n s ls hk _ => ?_
  cases n with
  | zero => exact .outOfFuel
  | succ n =>
    have hk' : s.advance.kinds = ks ++ .rbrace :: ls :=
      State.kinds_advance (by simpa using hk)
    rw [hashLiteral]
    exact (h n s.advance ls hk').andThen fun es' s' hes hk'' =>
      (State.expect_reads hk'').map fun _ _ => by simp only [Expr.strip, hes]

end ReadsExpression

/-! ### Lists, blocks and loop headers -/

section Parts

variable {ks ls ms ns : List TokenKind} {e : Expr}

theorem ReadsItems1.one (h : ReadsExpression .assignment ks e) : ReadsItems1 ks [e] := by
  intro n close s ls hk hc
  cases n with
  | zero => exact .outOfFuel
  | succ n =>
    have hclose : Layer.assignment.Precedes ((close :: ls).headD .eof) ∧ close ≠ .comma ∧
        close ≠ .eof := by
      obtain rfl | rfl := hc <;> exact ⟨precedes_cons, by decide, by decide⟩
    rw [expressionsFrom]
    refine (h.lowest hk hclose.1).andThen fun e' s' he hk' => ?_
    rw [if_neg (by simpa [State.kind_eq_of_kinds hk'] using hclose.2.1)]
    exact (State.expect_reads hk' hclose.2.2).map fun _ _ => by simp only [Expr.stripAll, he]

theorem ReadsItems1.more {es : List Expr} (h : ReadsExpression .assignment ks e)
    (hs : ReadsItems1 ls es) : ReadsItems1 (ks ++ .comma :: ls) (e :: es) := by
  intro n close s ms hk hc
  cases n with
  | zero => exact .outOfFuel
  | succ n =>
    have hk₀ : s.kinds = ks ++ .comma :: (ls ++ close :: ms) := by simpa using hk
    rw [expressionsFrom]
    refine (h.lowest hk₀ precedes_cons).andThen fun e' s' he hk' => ?_
    rw [if_pos (by simpa using State.kind_eq_of_kinds hk')]
    exact (hs n close s'.advance ms (State.kinds_advance hk') hc).map fun es' hes => by
      simp only [Expr.stripAll, he, hes]

theorem ReadsItems.none : ReadsItems [] [] := by
  intro n close s ls hk hc
  cases n with
  | zero => exact .outOfFuel
  | succ n =>
    rw [expressions, if_pos (by simpa using State.kind_eq_of_kinds hk)]
    exact .done rfl (State.kinds_advance hk (by rintro rfl; simp at hc)) rfl

theorem ReadsItems.some {es : List Expr} (h : Items1 ks es) (hs : ReadsItems1 ks es) :
    ReadsItems ks es := by
  intro n close s ls hk hc
  have hopen : opens s.kind = true := by
    cases h with
    | one he => exact State.opens_kind he hk
    | more he _ => exact State.opens_kind he (hk.trans (List.append_assoc ..))
  cases n with
  | zero => exact .outOfFuel
  | succ n =>
    have hne : s.kind ≠ close := by
      rintro rfl
      obtain hc | hc := hc <;> rw [hc] at hopen <;> exact absurd hopen (by decide)
    rw [expressions, if_neg (by simpa using hne)]
    exact hs n close s ls hk hc

theorem ReadsEntries.none : ReadsEntries [] [] := by
  intro n s ls hk
  cases n with
  | zero => exact .outOfFuel
  | succ n =>
    rw [entries, if_pos (by simpa using State.kind_eq_of_kinds hk)]
    exact .done rfl hk rfl

/-- An entry, with the token after it. -/
theorem ReadsEntries.entry {k v : Expr} {es : List (Expr × Expr)} (hd : Expression .assignment ks k)
    (hk : ReadsExpression .assignment ks k) (hv : ReadsExpression .assignment ls v) {n : Nat}
    {s : State} {c : TokenKind} (hs : s.kinds = ks ++ .colon :: (ls ++ c :: ms))
    (hc : Layer.assignment.Precedes ((c :: ms).headD .eof))
    (hn : ∀ k' v' s', k'.strip = k → v'.strip = v → s'.kinds = c :: ms →
      (if s'.kind == .comma then (entries n s'.advance).map ((k', v') :: ·)
        else .done [(k', v')] s').Reads s' (.rbrace :: ns) fun es' => Expr.stripEntries es' = es) :
    (entries (n + 1) s).Reads s (.rbrace :: ns) fun es' => Expr.stripEntries es' = es := by
  have hne : s.kind ≠ .rbrace := by
    intro h
    exact absurd (h ▸ State.opens_kind hd hs) (by decide)
  rw [entries, if_neg (by simpa using hne)]
  exact (hk.lowest hs precedes_cons).andThen fun k' s₁ hk' hk₁ =>
    (State.expect_reads hk₁).andThen fun _ s₂ _ hk₂ =>
    (hv.lowest hk₂ hc).andThen fun v' s₃ hv' hk₃ => hn k' v' s₃ hk' hv' hk₃

theorem ReadsEntries.one {k v : Expr} (hd : Expression .assignment ks k)
    (hk : ReadsExpression .assignment ks k) (hv : ReadsExpression .assignment ls v) :
    ReadsEntries (ks ++ .colon :: ls) [(k, v)] := by
  intro n s ms hs
  cases n with
  | zero => exact .outOfFuel
  | succ n =>
    have hs₀ : s.kinds = ks ++ .colon :: (ls ++ .rbrace :: ms) := by simpa using hs
    refine ReadsEntries.entry hd hk hv hs₀ precedes_cons fun k' v' s' hk' hv' hs' => ?_
    rw [if_neg (by simp [State.kind_eq_of_kinds hs'])]
    exact .done (by simp only [Expr.stripEntries, hk', hv']) hs' rfl

theorem ReadsEntries.more {k v : Expr} {es : List (Expr × Expr)} (hd : Expression .assignment ks k)
    (hk : ReadsExpression .assignment ks k) (hv : ReadsExpression .assignment ls v)
    (he : ReadsEntries ms es) :
    ReadsEntries (ks ++ .colon :: (ls ++ .comma :: ms)) ((k, v) :: es) := by
  intro n s ns hs
  cases n with
  | zero => exact .outOfFuel
  | succ n =>
    have hs₀ : s.kinds = ks ++ .colon :: (ls ++ .comma :: (ms ++ .rbrace :: ns)) := by
      simpa using hs
    refine ReadsEntries.entry hd hk hv hs₀ precedes_cons fun k' v' s' hk' hv' hs' => ?_
    rw [if_pos (by simpa using State.kind_eq_of_kinds hs')]
    exact (he n s'.advance ns (State.kinds_advance hs')).map fun es' hes => by
      simp only [Expr.stripEntries, hk', hv', hes]

theorem ReadsBraces.mk {ss : List Stmt} (h : ReadsStatements ks ss) :
    ReadsBraces (.lbrace :: (ks ++ [.rbrace])) ⟨ss, .nowhere⟩ := by
  intro n s ls hk
  cases n with
  | zero => exact .outOfFuel
  | succ n =>
    have hk₀ : s.kinds = .lbrace :: (ks ++ .rbrace :: ls) := by simpa using hk
    rw [block]
    exact ((State.expect_reads hk₀).within _).andThen fun _ s₁ _ hk₁ =>
      (h n .block s₁ _ hk₁ (.inr ⟨rfl, rfl⟩)).andThen fun ss' s₂ hss hk₂ =>
      ((State.expect_reads hk₂).within _).map fun _ _ => by
        simp only [Block.strip, hss]

/-- A binding before its semicolon, in a header or as a statement. -/
theorem letBinding_reads {x : String} (h : ReadsExpression .assignment ks e) (n : Nat) {s : State}
    (hk : s.kinds = .letKw :: .ident x :: .assign :: (ks ++ ls))
    (hl : Layer.assignment.Precedes (ls.headD .eof)) :
    (letBinding n s).Reads s ls fun st => st.strip = .letBind x e .nowhere := by
  cases n with
  | zero => exact .outOfFuel
  | succ n =>
    have hk' := State.kinds_advance hk
    rw [letBinding]
    exact (State.expectIdent_reads hk').andThen fun x' s₁ hx hk₁ =>
      (State.expect_reads hk₁).andThen fun _ s₂ _ hk₂ =>
      (h.lowest hk₂ hl).map fun e' he => by simp only [Stmt.strip, hx, he]

theorem ReadsInit.none : ReadsInit [] none := by
  intro n s ls hk
  cases n with
  | zero => exact .outOfFuel
  | succ n =>
    rw [loopInit, State.kind_eq_of_kinds hk]
    exact .done rfl hk rfl

theorem ReadsInit.letBind {x : String} (h : ReadsExpression .assignment ks e) :
    ReadsInit (.letKw :: .ident x :: .assign :: ks) (some (.letBind x e .nowhere)) := by
  intro n s ls hk
  cases n with
  | zero => exact .outOfFuel
  | succ n =>
    rw [loopInit, State.kind_eq_of_kinds hk]
    exact (letBinding_reads h n hk precedes_cons).map fun st hst => by
      simp only [Stmt.stripPart, hst]

theorem ReadsInit.expr (hd : Expression .assignment ks e) (h : ReadsExpression .assignment ks e) :
    ReadsInit ks (some (.expr e .nowhere)) := by
  intro n s ls hk
  cases n with
  | zero => exact .outOfFuel
  | succ n =>
    have hopen := State.opens_kind hd hk
    rw [loopInit]
    split
    next hs => exact absurd (hs ▸ hopen) (by decide)
    next hs => exact absurd (hs ▸ hopen) (by decide)
    next =>
      exact (h.lowest hk precedes_cons).map fun e' he => by
        simp only [Stmt.stripPart, Stmt.strip, he]

theorem ReadsPart.none : ReadsPart [] none := by
  intro n close s ls hk _
  cases n with
  | zero => exact .outOfFuel
  | succ n =>
    rw [loopPart, if_pos (by simpa using State.kind_eq_of_kinds hk)]
    exact .done rfl hk rfl

theorem ReadsPart.some (hd : Expression .assignment ks e) (h : ReadsExpression .assignment ks e) :
    ReadsPart ks (some e) := by
  intro n close s ls hk hc
  have hopen := State.opens_kind hd hk
  cases n with
  | zero => exact .outOfFuel
  | succ n =>
    have hne : s.kind ≠ close := by
      rintro rfl
      obtain hc | hc := hc <;> rw [hc] at hopen <;> exact absurd hopen (by decide)
    have hclose : Layer.assignment.Precedes ((close :: ls).headD .eof) := by
      obtain rfl | rfl := hc <;> exact precedes_cons
    rw [loopPart, if_neg (by simpa using hne)]
    exact (h.lowest hk hclose).map fun e' he => by simp only [Expr.stripPart, he]

end Parts

/-! ### Statements -/

namespace ReadsStatement

variable {ks ls : List TokenKind} {e : Expr}

theorem letBind {x : String} (h : ReadsExpression .assignment ks e) :
    ReadsStatement (.letKw :: .ident x :: .assign :: ks) (.letBind x e .nowhere) := by
  intro n s ls hk hl he
  cases n with
  | zero => exact .outOfFuel
  | succ n =>
    have hbefore : Layer.assignment.Precedes (ls.headD .eof) := ⟨Nat.le_of_eq (hl rfl), he⟩
    rw [statement, State.kind_eq_of_kinds hk]
    exact ((letBinding_reads h n hk hbefore).within _).andThen fun st s' hst hk' =>
      State.skipOne_reads hst hk'

theorem ret (h : ReadsExpression .assignment ks e) :
    ReadsStatement (.returnKw :: ks) (.ret e .nowhere) := by
  intro n s ls hk hl he
  have hbefore : Layer.assignment.Precedes (ls.headD .eof) := ⟨Nat.le_of_eq (hl rfl), he⟩
  have hread : ∀ n, (returnStatement n s).Reads s (dropSemicolon ls) fun st =>
      st.strip = .ret e .nowhere := by
    intro n
    cases n with
    | zero => exact .outOfFuel
    | succ n =>
      have hk' : s.advance.kinds = ks ++ ls := State.kinds_advance hk
      rw [returnStatement]
      exact (h.lowest hk' hbefore).andThen fun e' s' he' hk'' =>
        State.skipOne_reads (by simp only [Stmt.strip, he']) hk''
  cases n with
  | zero => exact .outOfFuel
  | succ n =>
    rw [statement, State.kind_eq_of_kinds hk]
    exact (hread n).within _

theorem expr (hd : Expression .assignment ks e) (h : ReadsExpression .assignment ks e) :
    ReadsStatement ks (.expr e .nowhere) := by
  intro n s ls hk hl he
  have hbefore : Layer.assignment.Precedes (ls.headD .eof) := ⟨Nat.le_of_eq (hl rfl), he⟩
  have hopen := State.opens_kind hd hk
  cases n with
  | zero => exact .outOfFuel
  | succ n =>
    rw [statement]
    split
    next hs => exact absurd (hs ▸ hopen) (by decide)
    next hs => exact absurd (hs ▸ hopen) (by decide)
    next hs => exact absurd (hs ▸ hopen) (by decide)
    next =>
      exact (h.lowest hk hbefore).andThen fun e' s' he' hk' =>
        State.skipOne_reads (by simp only [Stmt.strip, he']) hk'

theorem forLoop {is cs as bs : List TokenKind} {i : Option Stmt} {c a : Option Expr} {b : Block}
    (hi : ReadsInit is i) (hc : ReadsPart cs c) (ha : ReadsPart as a) (hb : ReadsBraces bs b) :
    ReadsStatement
      (.forKw :: .lparen :: (is ++ .semicolon :: (cs ++ .semicolon :: (as ++ .rparen :: bs))))
      (.forLoop i c a b .nowhere) := by
  intro n s ls hk _ _
  have hk' : s.advance.kinds =
      .lparen :: (is ++ .semicolon :: (cs ++ .semicolon :: (as ++ .rparen :: (bs ++ ls)))) :=
    State.kinds_advance (by simpa using hk)
  have hread : ∀ n, (Parser.forLoop n s).Reads s (dropSemicolon ls) fun st =>
      st.strip = .forLoop i c a b .nowhere := by
    intro n
    cases n with
    | zero => exact .outOfFuel
    | succ n =>
      rw [Parser.forLoop]
      exact (State.expect_reads hk').andThen fun _ s₁ _ hk₁ =>
        (hi n s₁ _ hk₁).andThen fun i' s₂ hi' hk₂ =>
        (State.expect_reads hk₂).andThen fun _ s₃ _ hk₃ =>
        (hc n .semicolon s₃ _ hk₃ (.inl rfl)).andThen fun c' s₄ hc' hk₄ =>
        (State.expect_reads hk₄).andThen fun _ s₅ _ hk₅ =>
        (ha n .rparen s₅ _ hk₅ (.inr rfl)).andThen fun a' s₆ ha' hk₆ =>
        (State.expect_reads hk₆).andThen fun _ s₇ _ hk₇ =>
        (hb n s₇ ls hk₇).andThen fun b' s₈ hb' hk₈ =>
          State.skipOne_reads (by simp only [Stmt.strip, hi', hc', ha', hb']) hk₈
  cases n with
  | zero => exact .outOfFuel
  | succ n =>
    rw [statement, State.kind_eq_of_kinds hk]
    exact (hread n).within _

end ReadsStatement

namespace ReadsStatements

variable {ks ls : List TokenKind} {st : Stmt} {ss : List Stmt}

theorem nil : ReadsStatements [] [] := by
  intro n scope s ls hk hends
  have hstop : s.stops scope = true := by
    rw [State.stops, State.kind_eq_headD, hk]
    obtain h | ⟨rfl, h⟩ := hends <;> rw [List.nil_append, h] <;> rfl
  cases n with
  | zero => exact .outOfFuel
  | succ n =>
    rw [statements, if_pos hstop]
    exact .done rfl hk rfl

/-- A statement, and the statements that are read behind it. -/
theorem cons (hd : Statement ks st) (hst : ReadsStatement ks st) (hss : ReadsStatements ls ss)
    {n : Nat} {scope : Scope} {s : State} {js ms : List TokenKind} (hk : s.kinds = ks ++ js)
    (hfree : isLoop st = false → (js.headD .eof).binding = 0) (helse : js.headD .eof ≠ .elseKw)
    (hjs : dropSemicolon js = ls ++ ms) (hends : scope.EndsBefore (ms.headD .eof)) :
    (statements n scope s).Reads s ms fun ss' => Stmt.stripAll ss' = st :: ss := by
  have hstop : s.stops scope = false := by
    have hopen := State.opensStatement_kind hd hk
    rw [State.stops]
    cases hs : s.kind <;> simp_all [opensStatement, opens]
  cases n with
  | zero => exact .outOfFuel
  | succ n =>
    intro ho
    rw [statements, if_neg (by simp [hstop])] at ho ⊢
    have hne : statement n s ≠ .outOfFuel := by
      intro h
      rw [h] at ho
      exact ho rfl
    obtain ⟨st', s', hr, hst', hk', he⟩ := hst n s js hk hfree helse hne
    rw [hr] at ho ⊢
    have hrest : ((statements n scope s').map (st' :: ·)).Reads s' ms fun ss' =>
        Stmt.stripAll ss' = st :: ss :=
      (hss n scope s' ms (hk'.trans hjs) hends).map fun ss' hss' => by
        simp only [Stmt.stripAll, hst', hss']
    obtain ⟨ss', s'', hr', hss', hk'', he'⟩ := hrest ho
    exact ⟨ss', s'', hr', hss', hk'', he'.trans he⟩

theorem closed (hd : Statement ks st) (hst : ReadsStatement ks st) (hss : ReadsStatements ls ss) :
    ReadsStatements (ks ++ .semicolon :: ls) (st :: ss) := by
  intro n scope s ms hk hends
  have hk₀ : s.kinds = ks ++ .semicolon :: (ls ++ ms) := by simpa using hk
  exact cons hd hst hss hk₀ (fun _ => rfl) nofun rfl hends

theorem bare (hd : Statement ks st) (hds : Statements ls ss) (hst : ReadsStatement ks st)
    (hss : ReadsStatements ls ss)
    (hfree : isLoop st = false → ∀ k ∈ ls.head?, continues k = false) :
    ReadsStatements (ks ++ ls) (st :: ss) := by
  intro n scope s ms hk hends
  have hk₀ : s.kinds = ks ++ (ls ++ ms) := by simpa using hk
  have hopen := hds.exists_opens
  -- What comes next is the first token of the other statements or the end of the scope.
  cases ls with
  | nil =>
    refine cons hd hst hss hk₀ ?_ ?_ ?_ hends
    · obtain h | ⟨rfl, h⟩ := hends <;> rw [List.nil_append, h] <;> exact fun _ => rfl
    · obtain h | ⟨rfl, h⟩ := hends <;> rw [List.nil_append, h] <;> decide
    · cases ms with
      | nil => rfl
      | cons k ms => obtain h | ⟨rfl, h⟩ := hends <;> obtain rfl : k = _ := h <;> rfl
  | cons k ls =>
    have hk := hopen k rfl
    refine cons hd hst hss hk₀ (fun hl => ?_) ?_ ?_ hends
    · exact (continues_eq_false_iff k).1 (hfree hl k rfl)
    · rintro rfl
      exact absurd hk (by decide)
    · unfold dropSemicolon
      split
      next h =>
        obtain rfl : k = .semicolon := (List.cons.inj h).1
        exact absurd hk (by decide)
      next => rfl

end ReadsStatements

end Parser

/-! ### All derivations -/

namespace Grammar

open MonkeyLang.Parser

mutual

theorem Expression.reads {l : Layer} {ks : List TokenKind} {e : Expr} (h : Expression l ks e) :
    ReadsExpression l ks e := by
  match h with
  | .tighter h => exact h.reads.tighter
  | .assign ht hv => exact ht.reads.assign hv.reads
  | .binary hop ha hb => exact .binary hop ha.reads hb.reads
  | .not h => exact h.reads.unary .not
  | .neg h => exact h.reads.unary .neg
  | .call hf ha => exact hf.reads.call ha.reads
  | .index hb hi => exact hb.reads.index hi.reads
  | .int => exact .token (by simp) fun n s hs => ⟨_, by rw [operand, hs], rfl⟩
  | .str => exact .token (by simp) fun n s hs => ⟨_, by rw [operand, hs], rfl⟩
  | .ident => exact .token (by simp) fun n s hs => ⟨_, by rw [operand, hs], rfl⟩
  | .true => exact .token (by simp) fun n s hs => ⟨_, by rw [operand, hs], rfl⟩
  | .false => exact .token (by simp) fun n s hs => ⟨_, by rw [operand, hs], rfl⟩
  | .group h => exact h.reads.group
  | .cond hc hb => exact hc.reads.cond hb.reads
  | .condElse hc hb hd => exact hc.reads.condElse hb.reads hd.reads
  | .function hp hb => exact .function hp hb.reads
  | .array h => exact .array h.reads
  | .hash h => exact .hash h.reads

theorem Items1.reads {ks : List TokenKind} {es : List Expr} (h : Items1 ks es) :
    ReadsItems1 ks es := by
  match h with
  | .one h => exact .one h.reads
  | .more h hs => exact .more h.reads hs.reads

theorem Items.reads {ks : List TokenKind} {es : List Expr} (h : Items ks es) :
    ReadsItems ks es := by
  match h with
  | .none => exact .none
  | .some h => exact .some h h.reads

theorem Entries.reads {ks : List TokenKind} {es : List (Expr × Expr)} (h : Entries ks es) :
    ReadsEntries ks es := by
  match h with
  | .none => exact .none
  | .one hk hv => exact .one hk hk.reads hv.reads
  | .more hk hv hes => exact .more hk hk.reads hv.reads hes.reads

theorem Braces.reads {ks : List TokenKind} {b : Block} (h : Braces ks b) : ReadsBraces ks b := by
  match h with
  | .mk h => exact .mk h.reads

theorem Init.reads {ks : List TokenKind} {i : Option Stmt} (h : Init ks i) : ReadsInit ks i := by
  match h with
  | .none => exact .none
  | .letBind h => exact .letBind h.reads
  | .expr h => exact .expr h h.reads

theorem Part.reads {ks : List TokenKind} {p : Option Expr} (h : Part ks p) : ReadsPart ks p := by
  match h with
  | .none => exact .none
  | .some h => exact .some h h.reads

theorem Statement.reads {ks : List TokenKind} {s : Stmt} (h : Statement ks s) :
    ReadsStatement ks s := by
  match h with
  | .letBind h => exact .letBind h.reads
  | .ret h => exact .ret h.reads
  | .expr h => exact .expr h h.reads
  | .forLoop hi hc ha hb => exact .forLoop hi.reads hc.reads ha.reads hb.reads

theorem Statements.reads {ks : List TokenKind} {ss : List Stmt} (h : Statements ks ss) :
    ReadsStatements ks ss := by
  match h with
  | .nil => exact .nil
  | .closed hs hss => exact .closed hs hs.reads hss.reads
  | .bare hs hss hfree => exact .bare hs hss hs.reads hss.reads hfree

end

end Grammar

end MonkeyLang
