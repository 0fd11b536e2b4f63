import MonkeyLang.Proofs.Parsing.Completeness
import MonkeyLang.Proofs.Parsing.Descent
import MonkeyLang.Proofs.Parsing.Soundness

/-!
# Tokens that can be continued

As long as no error has been found, the tokens that a production has consumed can be continued by
some tokens to a phrase of the grammar. This is a property of the routines: it is enough that what a
production has consumed where it fails, or where it begins to read another production, can be
continued.

A production that goes on with an expression is judged together with that expression, and a
statement without a semicolon together with the first token behind it.

## Main definitions

* `Starts` : tokens that can be continued to a phrase.
* `Production.Gives` : the phrase that a production has read.
* `Production.Viable` : what a production has consumed can be continued.

## Main statements

* `Production.derives` : what is read without errors is a phrase.
* `Production.completable` : wherever a routine fails, what has been consumed can be continued.
-/

namespace MonkeyLang

/-- Every way to go on with an expression is started by some token. -/
theorem Extension.exists_ofToken?_eq (x : Extension) : ∃ k, Extension.ofToken? k = some x := by
  cases x with
  | assign => exact ⟨.assign, rfl⟩
  | call => exact ⟨.lparen, rfl⟩
  | index => exact ⟨.lbracket, rfl⟩
  | binary op =>
    cases op with
    | add => exact ⟨.plus, rfl⟩
    | sub => exact ⟨.minus, rfl⟩
    | mul => exact ⟨.star, rfl⟩
    | div => exact ⟨.slash, rfl⟩
    | eq => exact ⟨.eqEq, rfl⟩
    | notEq => exact ⟨.notEq, rfl⟩
    | lt => exact ⟨.lt, rfl⟩
    | gt => exact ⟨.gt, rfl⟩

end MonkeyLang

namespace MonkeyLang.Grammar

variable {α β : Type}

/-- The tokens `ks` can be continued to a phrase. -/
def Starts (D : List TokenKind → α → Prop) (ks : List TokenKind) : Prop := ∃ ls r, D (ks ++ ls) r

namespace Starts

variable {D : List TokenKind → α → Prop} {E : List TokenKind → β → Prop} {ks ls : List TokenKind}

theorem of_leading {r : α} (h : D ls r) (hk : ks <+: ls) : Starts D ks := by
  obtain ⟨ms, rfl⟩ := hk
  exact ⟨ms, r, h⟩

theorem of_phrase {r : α} (h : D ks r) : Starts D ks := of_leading h (List.prefix_refl ks)

theorem shorten (h : Starts D ls) (hk : ks <+: ls) : Starts D ks := by
  obtain ⟨ms, r, h⟩ := h
  exact of_leading h (hk.trans (List.prefix_append ls ms))

/-- A phrase that has been started can be finished before the one around it is. -/
theorem lift (h : Starts D ls) (f : ∀ ms r, D ms r → Starts E (ks ++ ms)) :
    Starts E (ks ++ ls) := by
  obtain ⟨ms, r, h⟩ := h
  exact (f _ _ h).shorten (by simp)

end Starts

/-- There is an expression of every layer. -/
theorem Expression.trueKw (l : Layer) : Expression l [.trueKw] (.bool Bool.true .nowhere) :=
  Expression.true.loosen (by cases l <;> decide)

theorem Braces.empty : Braces [.lbrace, .rbrace] ⟨[], .nowhere⟩ := .mk .nil

/-- `let x = v`, as a statement or in the header of a loop. -/
inductive Binding : List TokenKind → Stmt → Prop where
  /-- The value is any expression. -/
  | mk {x : String} {ks : List TokenKind} {e : Expr} :
      Expression .assignment ks e →
      Binding (.letKw :: .ident x :: .assign :: ks) (.letBind x e .nowhere)

theorem Binding.statement {ks : List TokenKind} {st : Stmt} (h : Binding ks st) :
    Statement ks st := by
  cases h with
  | mk h => exact .letBind h

theorem Binding.init {ks : List TokenKind} {st : Stmt} (h : Binding ks st) :
    Init ks (some st) := by
  cases h with
  | mk h => exact .letBind h

end MonkeyLang.Grammar

namespace MonkeyLang.Parser

open Grammar

variable {α : Type}

/-! ### Phrases -/

/-- What the production has read from a token of the kind `k` on: the tokens `ks`, with the result,
before the state `s`. -/
def Production.Gives : (p : Production) → (k : TokenKind) → List TokenKind → p.Result → State → Prop
  | .expression min, _, ks, e, s => Expression min.layer ks e.strip ∧ s.kind.binding ≤ min.rank
  | .operators min left, k, ks, e, s =>
    ∀ l js, Expression l js left.strip → k.binding ≤ l.follow → min.layer.rank ≤ l.rank →
      Expression min.layer (js ++ ks) e.strip ∧ s.kind.binding ≤ min.rank
  | .extension x left, _, ks, e, s =>
    ∀ k, Extension.ofToken? k = some x → ∀ js, Expression x.target js left.strip →
      Expression x.layer (js ++ k :: ks) e.strip ∧ s.kind.binding ≤ x.layer.follow
  | .operand, _, ks, e, s =>
    ∃ l, Expression l ks e.strip ∧ s.kind.binding ≤ l.follow ∧ Layer.unary.rank ≤ l.rank
  | .unary _, _, ks, e, s => Expression .unary ks e.strip ∧ s.kind.binding ≤ Layer.unary.follow
  | .grouping, _, ks, e, _ | .conditional, _, ks, e, _ | .function, _, ks, e, _
  | .arrayLiteral, _, ks, e, _ | .hashLiteral, _, ks, e, _ => Expression .suffix ks e.strip
  | .paramNames, _, ks, xs, _ => ∃ ls, ks = ls ++ [.rparen] ∧ Names ls xs
  | .expressions close, _, ks, es, _ => ∃ ls, ks = ls ++ [close] ∧ Items ls (Expr.stripAll es)
  | .expressionsFrom close, _, ks, es, _ => ∃ ls, ks = ls ++ [close] ∧ Items1 ls (Expr.stripAll es)
  | .entries, _, ks, es, _ => Entries ks (Expr.stripEntries es)
  | .statement, _, ks, st, s | .returnStatement, _, ks, st, s | .forLoop, _, ks, st, s =>
    StatementRead ks st s
  | .letBinding, _, ks, st, s => Binding ks st.strip ∧ s.kind.binding = 0
  | .loopInit, _, ks, i, _ => Init ks (Stmt.stripPart i)
  | .loopPart _, _, ks, e, _ => Part ks (Expr.stripPart e)
  | .block, _, ks, b, _ => Braces ks b.strip
  | .statements scope, _, ks, ss, s => Statements ks (Stmt.stripAll ss) ∧ s.stops scope = true

/-- What is read without errors is a phrase. -/
theorem Production.derives (n : Nat) (p : Production) (s : State) (hp : p.Suits s.kind) :
    (p.read n s).Derives s (p.Gives s.kind) := by
  have h := sound n
  cases p with
  | expression min => exact h.expression min s
  | operators min left => exact h.operators min left s
  | extension x left =>
    obtain ⟨k₀, h₀⟩ := Extension.exists_ofToken?_eq x
    intro r s' hr he
    obtain ⟨hs, ks, hk, hend, -⟩ := h.extension k₀ x left s h₀ r s' hr he
    refine ⟨hs, ks, hk, hend, fun k hx js hjs => ?_⟩
    obtain ⟨-, ks', hk', -, hd⟩ := h.extension k x left s hx r s' hr he
    obtain rfl : ks' = ks := List.append_cancel_right (hk'.symm.trans hk)
    exact hd js hjs
  | operand => exact h.operand s
  | unary op => exact h.unary op s hp
  | grouping => exact h.grouping s hp
  | conditional => exact h.conditional s hp
  | function => exact h.function s hp
  | paramNames => exact paramNames_derives n s
  | arrayLiteral => exact h.arrayLiteral s hp
  | hashLiteral => exact h.hashLiteral s hp
  | expressions close => exact h.expressions close s (by rcases hp with rfl | rfl <;> decide)
  | expressionsFrom close =>
    exact h.expressionsFrom close s (by rcases hp with rfl | rfl <;> decide)
  | entries => exact h.entries s
  | statement => exact h.statement s
  | letBinding =>
    refine (h.letBinding s hp).mono ?_
    rintro _ st s' ⟨x, ls, e, rfl, he, hst, hb⟩
    exact ⟨hst ▸ .mk he, hb⟩
  | returnStatement => exact h.returnStatement s hp
  | forLoop => exact h.forLoop s hp
  | loopInit => exact h.loopInit s
  | loopPart close => exact h.loopPart close s
  | block => exact h.block s
  | statements scope => exact h.statements scope s

/-! ### What can be continued -/

/-- What the production has consumed from a token of the kind `k` on can be continued to a
phrase. -/
def Production.Viable : Production → TokenKind → List TokenKind → Prop
  | .expression min, _, ks => Starts (Expression min.layer) ks
  | .operators min left, k, ks =>
    ∀ l js, Expression l js left.strip → k.binding ≤ l.follow → min.layer.rank ≤ l.rank →
      Starts (Expression min.layer) (js ++ ks)
  | .extension x left, _, ks =>
    ∀ k, Extension.ofToken? k = some x → ∀ js, Expression x.target js left.strip →
      Starts (Expression x.layer) (js ++ k :: ks)
  | .operand, _, ks | .unary _, _, ks => Starts (Expression .unary) ks
  | .grouping, _, ks | .conditional, _, ks | .function, _, ks | .arrayLiteral, _, ks
  | .hashLiteral, _, ks => Starts (Expression .suffix) ks
  | .paramNames, _, ks => Starts Names ks
  | .expressions _, _, ks => Starts Items ks
  | .expressionsFrom _, _, ks => Starts Items1 ks
  | .entries, _, ks => Starts Entries ks
  | .statement, _, ks | .returnStatement, _, ks | .forLoop, _, ks => Starts Statement ks
  | .letBinding, _, ks => Starts Binding ks
  | .loopInit, _, ks => Starts Init ks
  | .loopPart _, _, ks => Starts Part ks
  | .block, _, ks => Starts Braces ks
  | .statements _, _, ks => Starts Statements ks

/-- Where the moves of the production `p`, which began at a token of the kind `k₀`, have consumed
`ks` and a token of the kind `k` stands, what has been consumed can be continued, if they fail there
and if they begin to read another production for which the same is true. -/
def Routine.Completable (p : Production) (k₀ : TokenKind) :
    List TokenKind → Routine α → TokenKind → Prop
  | _, .done _, _ => True
  | ks, .fail _ _, _ => p.Viable k₀ ks
  | ks, .look next, k => ∀ span, (next k span).Completable p k₀ ks k
  | ks, .last next, k => ∀ span, (next span).Completable p k₀ ks k
  | ks, .advance next, k => ∀ k', next.Completable p k₀ (ks ++ [k]) k'
  | ks, .read q _ next, k =>
    (∀ ls, (∀ l ∈ ls.head?, l = k) → q.Viable k ls → p.Viable k₀ (ks ++ ls)) ∧
      ∀ r ls s, q.Gives k ls r s → (next r).Completable p k₀ (ks ++ ls) s.kind
  | ks, .attempt _ next _, k =>
    (∀ ls, (∀ l ∈ ls.head?, l = k) → Production.statement.Viable k ls → p.Viable k₀ (ks ++ ls)) ∧
      ∀ st ls s, Production.statement.Gives k ls st s → (next st).Completable p k₀ (ks ++ ls) s.kind

namespace Routine

variable {p : Production} {k₀ k : TokenKind} {ks : List TokenKind}

theorem completable_ite {c : Prop} [Decidable c] {r r' : Routine α}
    (h : c → r.Completable p k₀ ks k) (h' : ¬ c → r'.Completable p k₀ ks k) :
    (if c then r else r').Completable p k₀ ks k := by
  split
  next hc => exact h hc
  next hc => exact h' hc

/-- If a token can be consumed, what was consumed before it can be continued, too. -/
theorem completable_expect {c : TokenKind} {context : Option Construct} {next : Span → Routine α}
    (hv : p.Viable k₀ ks) (h : ∀ span k', (next span).Completable p k₀ (ks ++ [c]) k') :
    (Routine.expect c context next).Completable p k₀ ks k := by
  refine fun span => completable_ite (fun hk => ?_) fun _ => hv
  obtain rfl : k = c := by simpa using hk
  exact h span

theorem completable_expectIdent {next : String → Routine α} (hv : p.Viable k₀ ks)
    (h : ∀ name k', (next name).Completable p k₀ (ks ++ [.ident name]) k') :
    (Routine.expectIdent next).Completable p k₀ ks k := by
  intro span
  cases k with
  | ident name => exact h name
  | _ => exact hv

/-- Behind the last token of a production nothing can go wrong. -/
theorem completable_skipOne (c : TokenKind) (r : α) :
    (Routine.skipOne c (.done r)).Completable p k₀ ks k :=
  fun _ => completable_ite (fun _ _ => trivial) fun _ => trivial

end Routine

section

open Routine

variable {k : TokenKind}

theorem operandRoutine_completable : operandRoutine.Completable .operand k [] k := by
  have atom {ls : List TokenKind} (h : Starts (Expression .suffix) ls) :
      Starts (Expression .unary) ([] ++ ls) :=
    h.lift fun ms e he => .of_phrase (he.loosen (by decide))
  intro span
  dsimp only
  split
  · exact fun _ => trivial
  · exact fun _ => trivial
  · exact fun _ => trivial
  · exact fun _ => trivial
  · exact fun _ => trivial
  · exact ⟨fun ls _ h => h, fun _ _ _ _ => trivial⟩
  · exact ⟨fun ls _ h => h, fun _ _ _ _ => trivial⟩
  · exact ⟨fun ls _ h => atom h, fun _ _ _ _ => trivial⟩
  · exact ⟨fun ls _ h => atom h, fun _ _ _ _ => trivial⟩
  · exact ⟨fun ls _ h => atom h, fun _ _ _ _ => trivial⟩
  · exact ⟨fun ls _ h => atom h, fun _ _ _ _ => trivial⟩
  · exact ⟨fun ls _ h => atom h, fun _ _ _ _ => trivial⟩
  · exact completable_ite (fun _ => .of_leading (.trueKw .unary) List.nil_prefix)
      fun _ => .of_leading (.trueKw .unary) List.nil_prefix

theorem extensionRoutine_completable (x : Extension) (left : Expr) :
    (extensionRoutine left x).Completable (.extension x left) k [] k := by
  cases x with
  | call =>
    refine ⟨fun ls _ h c hc js hjs => ?_, fun _ _ _ _ _ => trivial⟩
    obtain rfl := Extension.ofToken?_eq_call_iff.mp hc
    have started : Starts (Expression .suffix) (js ++ [.lparen] ++ ls) :=
      h.lift fun ms es hms => .of_leading (.call hjs hms) (by simp)
    exact started.shorten (by simp)
  | index =>
    have full {js ls : List TokenKind} {i : Expr} (hjs : Expression .suffix js left.strip)
        (h : Expression .assignment ls i) :
        Starts (Expression .suffix) (js ++ .lbracket :: ls) :=
      .of_leading (.index hjs h) (by simp)
    refine ⟨fun ls _ h c hc js hjs => ?_,
      fun i ls s h => completable_expect ?_ fun _ _ _ => trivial⟩
    · obtain rfl := Extension.ofToken?_eq_index_iff.mp hc
      have started : Starts (Expression .suffix) (js ++ [.lbracket] ++ ls) :=
        h.lift fun ms i hms => (full hjs hms).shorten (by simp)
      exact started.shorten (by simp)
    · intro c hc js hjs
      obtain rfl := Extension.ofToken?_eq_index_iff.mp hc
      exact full hjs h.1
  | assign =>
    refine ⟨fun ls _ h c hc js hjs => ?_, fun _ _ _ _ => trivial⟩
    obtain rfl := Extension.ofToken?_eq_assign_iff.mp hc
    have started : Starts (Expression .assignment) (js ++ [.assign] ++ ls) :=
      h.lift fun ms es hms => .of_leading (.assign hjs hms) (by simp)
    exact started.shorten (by simp)
  | binary op =>
    refine ⟨fun ls _ h c hc js hjs => ?_, fun _ _ _ _ => trivial⟩
    have hop := operator?_eq_some_iff.2 ⟨hc, rfl⟩
    have started : Starts (Expression (Extension.binary op).layer) (js ++ [c] ++ ls) :=
      h.lift fun ms es hms =>
        .of_leading (.binary hop hjs (precedence_layer_binary op ▸ hms)) (by simp)
    exact started.shorten (by simp)

theorem conditionalRoutine_completable :
    conditionalRoutine.Completable .conditional .ifKw [] .ifKw := by
  have full {ks bs : List TokenKind} {e : Expr} {b : Block} (h : Expression .assignment ks e)
      (hb : Braces bs b) :
      Starts (Expression .suffix) (.ifKw :: .lparen :: (ks ++ .rparen :: bs)) :=
    .of_phrase (.cond h hb)
  have whole := full (.trueKw _) .empty
  refine fun _ _ => completable_expect (whole.shorten (by simp)) fun _ _ => ⟨fun ls _ h => ?_, ?_⟩
  · exact (h.lift fun ms e he => (full he .empty).shorten (by simp))
  intro test ls s htest
  refine completable_expect ((full htest.1 .empty).shorten (by simp)) fun _ _ =>
    ⟨fun bs _ h => ?_, ?_⟩
  · exact (h.lift fun ms b hb => (full htest.1 hb).shorten (by simp))
  intro thenBlock bs s hthen _
  refine completable_ite (fun hk k' => ⟨fun ds _ h => ?_, fun _ _ _ _ => trivial⟩) fun _ => trivial
  have hk : s.kind = .elseKw := by simpa using hk
  rw [hk]
  exact (h.lift fun ms d hd => .of_leading (.condElse htest.1 hthen hd) (by simp))

theorem functionRoutine_completable : functionRoutine.Completable .function .fnKw [] .fnKw := by
  have full {ks bs : List TokenKind} {xs : List String} {b : Block} (h : Params ks xs)
      (hb : Braces bs b) :
      Starts (Expression .suffix) (.fnKw :: .lparen :: (ks ++ .rparen :: bs)) :=
    .of_phrase (.function h hb)
  have whole := full .none .empty
  refine fun _ _ => completable_expect (whole.shorten (by simp)) fun _ k₁ _ => ?_
  refine completable_ite (fun hk k' => ⟨fun bs _ h => ?_, fun _ _ _ _ => trivial⟩)
    fun _ => ⟨fun ls _ h => ?_, fun names ls s hnames => ⟨fun bs _ h => ?_, fun _ _ _ _ => trivial⟩⟩
  · have hk : k₁ = .rparen := by simpa using hk
    rw [hk]
    exact h.lift fun ms b hb => (full .none hb).shorten (by simp)
  · exact h.lift fun ms xs hms => (full (.some hms) .empty).shorten (by simp)
  · obtain ⟨ls, rfl, hls⟩ := hnames
    exact h.lift fun ms b hb => (full (.some hls) hb).shorten (by simp)

theorem forLoopRoutine_completable : forLoopRoutine.Completable .forLoop .forKw [] .forKw := by
  have full {is cs as bs : List TokenKind} {i : Option Stmt} {c a : Option Expr} {b : Block}
      (hi : Init is i) (hc : Part cs c) (ha : Part as a) (hb : Braces bs b) :
      Starts Statement
        (.forKw :: .lparen :: (is ++ .semicolon :: (cs ++ .semicolon :: (as ++ .rparen :: bs)))) :=
    .of_phrase (.forLoop hi hc ha hb)
  have whole := full .none .none .none .empty
  refine fun _ _ => completable_expect (whole.shorten (by simp)) fun _ _ => ⟨fun is _ h => ?_, ?_⟩
  · exact h.lift fun ms i hi => (full hi .none .none .empty).shorten (by simp)
  intro init is s hi
  refine completable_expect ((full hi .none .none .empty).shorten (by simp)) fun _ _ =>
    ⟨fun cs _ h => ?_, ?_⟩
  · exact h.lift fun ms c hc => (full hi hc .none .empty).shorten (by simp)
  intro test cs s hc
  refine completable_expect ((full hi hc .none .empty).shorten (by simp)) fun _ _ =>
    ⟨fun as _ h => ?_, ?_⟩
  · exact h.lift fun ms a ha => (full hi hc ha .empty).shorten (by simp)
  intro after as s ha
  refine completable_expect ((full hi hc ha .empty).shorten (by simp)) fun _ _ =>
    ⟨fun bs _ h => ?_, fun _ _ _ _ => completable_skipOne _ _⟩
  exact h.lift fun ms b hb => (full hi hc ha hb).shorten (by simp)

theorem statementRoutine_completable : statementRoutine.Completable .statement k [] k := by
  intro span
  dsimp only
  split
  · exact ⟨fun ls _ h => h.lift fun ms st hst => .of_phrase hst.statement,
      fun _ _ _ _ => completable_skipOne _ _⟩
  · exact ⟨fun ls _ h => h, fun _ _ _ _ => trivial⟩
  · exact ⟨fun ls _ h => h, fun _ _ _ _ => trivial⟩
  · exact ⟨fun ls _ h => h.lift fun ms e he => .of_phrase (.expr he),
      fun _ _ _ _ => completable_skipOne _ _⟩

theorem operators_completable (min : Precedence) (left : Expr) :
    (Production.operators min left).routine.Completable (.operators min left) k [] k := by
  intro span
  dsimp only
  split
  · trivial
  next x hx =>
    have hb : k.binding = x.precedence.rank := by simp [TokenKind.binding, hx]
    refine completable_ite (fun hmin k' => ⟨fun ls _ h l js hjs hf hl => ?_, ?_⟩) fun _ => trivial
    · -- `left` can be the left operand, and the whole is of a layer that is asked for.
      have hleft := hjs.loosen (target_rank_le (hb ▸ hf))
      obtain ⟨ms, e, he⟩ := h k hx js hleft
      exact .of_leading (he.loosen (layer_rank_le hmin)) (by simp)
    · intro left' ls s hleft'
      refine ⟨fun ms _ h l js hjs hf hl => ?_, fun _ _ _ _ => trivial⟩
      obtain ⟨he, hf'⟩ := hleft' k hx js (hjs.loosen (target_rank_le (hb ▸ hf)))
      exact (h x.layer _ he hf' (layer_rank_le hmin)).shorten (by simp)

theorem entries_completable : Production.entries.routine.Completable .entries k [] k := by
  have full {ks ls : List TokenKind} {e v : Expr} (h : Expression .assignment ks e)
      (h' : Expression .assignment ls v) : Starts Entries (ks ++ .colon :: (ls ++ [.comma])) :=
    .of_phrase (.more h h' .none)
  refine fun _ => completable_ite (fun _ => trivial) fun _ => ⟨fun ls _ h => ?_, ?_⟩
  · exact h.lift fun ms e he => (full he (.trueKw _)).shorten (by simp)
  intro key ls s hkey
  refine completable_expect ((full hkey.1 (.trueKw _)).shorten (by simp)) fun _ _ =>
    ⟨fun ms _ h => ?_, ?_⟩
  · exact h.lift fun ms v hv => (full hkey.1 hv).shorten (by simp)
  intro value ms s hvalue _
  refine completable_ite (fun hk _ => ⟨fun ns _ h => ?_, fun _ _ _ _ => trivial⟩) fun _ => trivial
  have hk : s.kind = .comma := by simpa using hk
  rw [hk]
  exact h.lift fun ms es hes => .of_leading (.more hkey.1 hvalue.1 hes) (by simp)

/-- After a statement that has been read, others can be read. A statement without a semicolon has
ended because the token behind it does not go on with it. -/
theorem starts_statements {ks ls : List TokenKind} {st : Stmt} {s : State}
    (hst : StatementRead ks st s) (hls : ∀ l ∈ ls.head?, l = s.kind) (h : Starts Statements ls) :
    Starts Statements (ks ++ ls) := by
  rcases hst with ⟨js, rfl, hjs⟩ | ⟨hks, hb⟩
  · exact h.lift fun ms ss hms => .of_phrase (by simpa using Statements.closed hjs hms)
  cases ls with
  | nil => exact .of_phrase (.bare hks .nil (by simp))
  | cons l ls =>
    obtain rfl : l = s.kind := hls l rfl
    obtain ⟨ms, ss, hms⟩ := h
    exact .of_leading (.bare hks hms fun hloop k hk => by
      obtain rfl : s.kind = k := by simpa using hk
      exact hb hloop) (by simp)

/-- Wherever a production fails or begins to read another one, what it has consumed can be
continued. -/
theorem Production.completable (p : Production) (hp : p.Suits k) :
    p.routine.Completable p k [] k := by
  cases p with
  | expression min =>
    refine ⟨fun ls _ h => h.lift fun ms e he => .of_phrase (he.loosen (layer_rank_le_unary min)),
      fun left ls s hleft => ⟨fun ms _ h => ?_, fun _ _ _ _ => trivial⟩⟩
    obtain ⟨l, he, hf, hl⟩ := hleft
    exact h l ls he hf (Nat.le_trans (layer_rank_le_unary min) hl)
  | operators min left => exact operators_completable min left
  | extension x left => exact extensionRoutine_completable x left
  | operand => exact operandRoutine_completable
  | unary op =>
    obtain rfl : k = op.token := hp
    refine fun _ _ => ⟨fun ls _ h => h.lift fun ms e he => ?_, fun _ _ _ _ => trivial⟩
    cases op with
    | not => exact .of_phrase (.not he)
    | neg => exact .of_phrase (.neg he)
  | grouping =>
    obtain rfl : k = .lparen := hp
    exact fun _ _ => ⟨fun ls _ h => h.lift fun ms e he => .of_leading (.group he) (by simp),
      fun e ls s he => completable_expect (.of_leading (.group he.1) (by simp)) fun _ _ => trivial⟩
  | conditional =>
    obtain rfl : k = .ifKw := hp
    exact conditionalRoutine_completable
  | function =>
    obtain rfl : k = .fnKw := hp
    exact functionRoutine_completable
  | paramNames =>
    have whole : Starts Names [.ident ""] := .of_phrase .one
    refine completable_expectIdent (whole.shorten List.nil_prefix) fun x k₁ _ => ?_
    refine completable_ite (fun hk k' => ⟨fun ls _ h => ?_, fun _ _ _ _ => trivial⟩)
      fun _ => completable_expect (.of_phrase .one) fun _ _ => trivial
    have hk : k₁ = .comma := by simpa using hk
    rw [hk]
    exact h.lift fun ms xs hms => .of_phrase (.more hms)
  | arrayLiteral =>
    obtain rfl : k = .lbracket := hp
    exact fun _ _ => ⟨fun ls _ h => h.lift fun ms es hms => .of_leading (.array hms) (by simp),
      fun _ _ _ _ _ => trivial⟩
  | hashLiteral =>
    obtain rfl : k = .lbrace := hp
    exact fun _ _ => ⟨fun ls _ h => h.lift fun ms es hms => .of_leading (.hash hms) (by simp),
      fun es ls s hes => completable_expect (.of_leading (.hash hes) (by simp)) fun _ _ => trivial⟩
  | expressions close =>
    exact fun _ => completable_ite (fun _ _ => trivial) fun _ =>
      ⟨fun ls _ h => h.lift fun ms es hms => .of_phrase (.some hms), fun _ _ _ _ => trivial⟩
  | expressionsFrom close =>
    refine ⟨fun ls _ h => h.lift fun ms e he => .of_phrase (.one he), fun e ls s he _ => ?_⟩
    refine completable_ite (fun hk k' => ⟨fun ls' _ h => ?_, fun _ _ _ _ => trivial⟩)
      fun _ => completable_expect (.of_phrase (.one he.1)) fun _ _ => trivial
    have hk : s.kind = .comma := by simpa using hk
    rw [hk]
    exact h.lift fun ms es hms => .of_leading (.more he.1 hms) (by simp)
  | entries => exact entries_completable
  | statement => exact statementRoutine_completable
  | letBinding =>
    obtain rfl : k = .letKw := hp
    have full (x : String) {ls : List TokenKind} {e : Expr} (h : Expression .assignment ls e) :
        Starts Binding (.letKw :: .ident x :: .assign :: ls) := .of_phrase (.mk h)
    have whole (x : String) := full x (.trueKw _)
    refine fun _ _ => completable_expectIdent ((whole "").shorten (by simp)) fun x _ =>
      completable_expect ((whole x).shorten (by simp)) fun _ _ => ⟨fun ls _ h => ?_,
        fun _ _ _ _ => trivial⟩
    exact h.lift fun ms e he => full x he
  | returnStatement =>
    obtain rfl : k = .returnKw := hp
    refine fun _ _ => ⟨fun ls _ h => h.lift fun ms e he => .of_phrase (.ret he), fun _ _ _ _ => ?_⟩
    exact fun _ => completable_ite (fun _ _ _ => trivial) fun _ _ => trivial
  | forLoop =>
    obtain rfl : k = .forKw := hp
    exact forLoopRoutine_completable
  | loopInit =>
    intro span
    dsimp only
    split
    · trivial
    · exact ⟨fun ls _ h => h.lift fun ms st hst => .of_phrase hst.init, fun _ _ _ _ => trivial⟩
    · exact ⟨fun ls _ h => h.lift fun ms e he => .of_phrase (.expr he), fun _ _ _ _ => trivial⟩
  | loopPart close =>
    exact fun _ => completable_ite (fun _ => trivial) fun _ =>
      ⟨fun ls _ h => h.lift fun ms e he => .of_phrase (.some he), fun _ _ _ _ => trivial⟩
  | block =>
    refine completable_expect (.of_leading .empty (by simp)) fun _ _ => ⟨fun ls _ h => ?_,
      fun ss ls s hss => completable_expect (.of_leading (.mk hss.1) (by simp)) fun _ _ => trivial⟩
    exact h.lift fun ms ss hss => .of_leading (.mk hss) (by simp)
  | statements scope =>
    refine fun _ => completable_ite (fun _ => trivial) fun _ => ⟨fun ls _ h => ?_, ?_⟩
    · exact h.lift fun ms st hst => .of_phrase (by simpa using Statements.bare hst .nil (by simp))
    · exact fun st ls s hst => ⟨fun ms hms h => starts_statements hst hms h, fun _ _ _ _ => trivial⟩

end

end MonkeyLang.Parser
