import MonkeyLang.Proofs.Parsing.Derivations
import MonkeyLang.Proofs.Parsing.Soundness
import MonkeyLang.Proofs.Parsing.Termination

/-!
# What the parser reads, with spans

Every production, if it has been read, has consumed tokens from which its result is derived.
`Production.Reads` says so for each of them. Where a production does not make a node of its own, it
says what the tokens contribute to one: what goes on with an expression, for example, makes a node
together with the tokens of that expression, whatever these are.

That the routines read what they should is checked on the routines alone (`Production.builds`), as
logic about lists of tokens. What follows for states is proved once for all routines: which tokens
are consumed, what the span of the last one of them is, and that errors do not go away.

## Main definitions

* `Production.Reads` : what a production reads.
* `Routine.Builds` : what holds of the result of a routine, whatever is read on the way.
* `State.Took` : which tokens have been consumed between two states.

## Main statements

* `Production.builds` : the moves of every production build what it reads.
* `Production.exact` : every production consumes the tokens that it should be read from.
-/

namespace MonkeyLang.Parser

open MonkeyLang.Derivation

variable {α : Type} {errors : Prop}

/-! ### What productions read -/

/-- The tokens `ts` are the statement `st`, with a semicolon that is no part of it, or without one if
the next token is none or if the semicolon is part of it. -/
def WholeStatement (errors : Prop) (ts : List Token) (st : Stmt) (t : Token) : Prop :=
  (∃ us u, ts = us ++ [u] ∧ u.kind = .semicolon ∧ ¬ IsReturn st ∧ Derives errors us (.stmt st)) ∨
    Derives errors ts (.stmt st) ∧ (t.kind = .semicolon → ∃ u ∈ ts.getLast?, u.kind = .semicolon)

/-- What the tokens `ts` are of which a production has been read, with the given result, when the next
token is `t`. -/
def Production.Reads (errors : Prop) :
    (p : Production) → (ts : List Token) → p.Result → (t : Token) → Prop
  | .expression _, ts, e, _ | .operand, ts, e, _ | .unary _, ts, e, _ | .grouping, ts, e, _
  | .conditional, ts, e, _ | .function, ts, e, _ | .arrayLiteral, ts, e, _
  | .hashLiteral, ts, e, _ => Derives errors ts (.expr e)
  | .operators _ left, ts, e, _ =>
    ∀ us, Laid (us ++ ts) → Derives errors us (.expr left) → Derives errors (us ++ ts) (.expr e)
  | .extension x left, ts, e, _ =>
    ∀ us u, Extension.ofToken? u.kind = some x → Laid (us ++ u :: ts) →
      Derives errors us (.expr left) → Derives errors (us ++ u :: ts) (.expr e)
  | .paramNames, ts, xs, _ => xs ≠ [] ∧ Spells errors ts (names xs ++ [.token .rparen])
  | .expressions close, ts, es, _ => Spells errors ts (exprs es ++ [.token close])
  | .expressionsFrom close, ts, es, _ =>
    es ≠ [] ∧ Spells errors ts (exprs es ++ [.token close])
  | .entries, ts, es, _ =>
    Spells errors ts (pairs es) ∨ es ≠ [] ∧ Spells errors ts (pairs es ++ [.token .comma])
  | .statement, ts, st, t | .returnStatement, ts, st, t | .forLoop, ts, st, t =>
    WholeStatement errors ts st t
  | .letBinding, ts, st, _ => ¬ IsReturn st ∧ Derives errors ts (.stmt st)
  | .loopInit, ts, init, _ => Spells errors ts (stmt? init)
  | .loopPart _, ts, e, _ => Spells errors ts (expr? e)
  | .block, ts, b, _ => Derives errors ts (.block b)
  | .statements scope, ts, ss, t =>
    Statements errors ts ss ∧ (t.kind = .eof ∨ scope = .block ∧ t.kind = .rbrace)

/-! ### What routines build -/

namespace Routine

/-- Whatever the routine reads on its way, `D` holds of the tokens that it has consumed in the end, of
its result and of the next token. It has consumed the tokens `ts` so far, and the next one is `t`. -/
def Builds (errors : Prop) (D : List Token → α → Token → Prop) :
    List Token → Routine α → Token → Prop
  | ts, .done r, t => Laid ts → D ts r t
  | _, .fail _ _, _ => True
  | ts, .look next, t => (next t.kind t.span).Builds errors D ts t
  | ts, .last next, t => ∀ us u, ts = us ++ [u] → (next u.span).Builds errors D ts t
  | ts, .advance next, t => ∀ t', next.Builds errors D (ts ++ [t]) t'
  | ts, .read p _ next, t =>
    ∀ us r t', (∀ u ∈ us.head?, u = t) → p.Reads errors us r t' →
      (next r).Builds errors D (ts ++ us) t'
  | ts, .attempt _ next broken, t =>
    (∀ us st t', (∀ u ∈ us.head?, u = t) → WholeStatement errors us st t' →
      (next st).Builds errors D (ts ++ us) t') ∧
    ∀ us t', errors → us ≠ [] → broken.Builds errors D (ts ++ us) t'

section

variable {D : List Token → α → Token → Prop} {ts : List Token} {t : Token}

theorem builds_ite (c : Prop) [Decidable c] (r r' : Routine α) :
    (if c then r else r').Builds errors D ts t ↔
      (c → r.Builds errors D ts t) ∧ (¬ c → r'.Builds errors D ts t) := by
  split <;> simp_all

theorem builds_expect (k : TokenKind) (context : Option Construct) (next : Span → Routine α) :
    (Routine.expect k context next).Builds errors D ts t ↔
      (t.kind = k → ∀ t', (next t.span).Builds errors D (ts ++ [t]) t') := by
  simp [Routine.expect, Builds, builds_ite]

theorem builds_expectIdent (next : String → Routine α) :
    (Routine.expectIdent next).Builds errors D ts t ↔
      ∀ x, t.kind = .ident x → ∀ t', (next x).Builds errors D (ts ++ [t]) t' := by
  cases hk : t.kind <;> simp [Routine.expectIdent, Builds, hk]

theorem builds_skipOne (k : TokenKind) (next : Routine α) :
    (Routine.skipOne k next).Builds errors D ts t ↔
      (t.kind = k → ∀ t', next.Builds errors D (ts ++ [t]) t') ∧
        (t.kind ≠ k → next.Builds errors D ts t) := by
  simp [Routine.skipOne, Builds, builds_ite]

end

end Routine

/-! ### The routines -/

section

open Routine

attribute [local simp] Builds builds_ite builds_expect builds_expectIdent builds_skipOne
  Production.Reads

variable {t : Token}

/-- A function literal, with its parameters between parentheses. -/
theorem derives_function {xs : List String} {body : Block} {t₁ : Token} {us vs : List Token}
    (h : t.kind = .fnKw) (h₁ : t₁.kind = .lparen)
    (hnames : Spells errors us (names xs ++ [.token .rparen]))
    (hbody : Derives errors vs (.block body)) (hlaid : Laid (t :: t₁ :: (us ++ vs))) :
    Derives errors (t :: t₁ :: (us ++ vs))
      (.expr (.function xs body (t.span.merge body.span) (t.span.merge body.span))) := by
  have hspan : t.span.merge body.span = cover (t :: t₁ :: (us ++ vs)) :=
    hbody.merge_token hlaid t (t₁ :: us) rfl
  refine .whole .function (.single (.whole .literal (.token h (.token h₁ ?_)) hspan)) hspan
  simpa using hnames.append (.single hbody)

namespace Production

theorem builds_expression (min : Precedence) :
    (expression min).routine.Builds errors ((expression min).Reads errors) [] t := by
  simp only [routine, Builds, Reads, List.nil_append]
  intro us left t₁ _ hleft vs e t₂ _ hops hlaid
  exact hops us hlaid hleft

theorem builds_operators (min : Precedence) (left : Expr) :
    (operators min left).routine.Builds errors ((operators min left).Reads errors) [] t := by
  cases hx : Extension.ofToken? t.kind with
  | none =>
    simp only [routine, hx, Builds, Reads, List.append_nil]
    intro _ vs _ hleft
    exact hleft
  | some x =>
    simp only [routine, hx, Builds, builds_ite, Reads, List.nil_append, List.append_nil]
    constructor
    · intro _ t₁ us e t₂ _ hext ws r t₃ _ hops _ vs hlaid hleft
      have hlaid' : Laid ((vs ++ t :: us) ++ ws) := by simpa using hlaid
      have hfirst : Laid (vs ++ t :: us) := hlaid'.sublist (List.sublist_append_left _ ws)
      simpa using hops _ hlaid' (hext vs t hx hfirst hleft)
    · intro _ _ vs _ hleft
      exact hleft

theorem builds_extension (x : Extension) (left : Expr) :
    (extension x left).routine.Builds errors ((extension x left).Reads errors) [] t := by
  cases x with
  | call =>
    simp only [routine, extensionRoutine, Builds, Reads, List.nil_append]
    rintro _ args t₁ - hargs us u rfl _ vs w hw hlaid hleft
    have hparen : w.kind = .lparen := Extension.ofToken?_eq_call_iff.mp hw
    exact .whole .call (.node hleft (.token hparen hargs)) (hleft.merge_to hlaid (w :: us) u rfl)
  | index =>
    simp only [routine, extensionRoutine, Builds, builds_expect, Reads, List.nil_append]
    intro us place u _ hplace hu _ us' u' hlast _ ws w hw hlaid hleft
    obtain rfl : u = u' := by simpa using congrArg List.getLast? hlast
    have hbracket : w.kind = .lbracket := Extension.ofToken?_eq_index_iff.mp hw
    refine .whole .index (.node hleft (.token hbracket (.node hplace (.word hu)))) ?_
    exact hleft.merge_to hlaid (w :: us) u rfl
  | assign =>
    simp only [routine, extensionRoutine, Builds, Reads, List.nil_append]
    intro us value _ _ hvalue _ ws w hw hlaid hleft
    have hassign : w.kind = .assign := Extension.ofToken?_eq_assign_iff.mp hw
    exact .whole .assign (.node hleft (.token hassign (.single hvalue)))
      (hleft.merge_node hvalue hlaid [w] rfl)
  | binary op =>
    simp only [routine, extensionRoutine, Builds, Reads, List.nil_append]
    intro us right _ _ hright _ ws w hw hlaid hleft
    exact .whole (.binary hw) (.node hleft (.token rfl (.single hright)))
      (hleft.merge_node hright hlaid [w] rfl)

theorem builds_operand : operand.routine.Builds errors (operand.Reads errors) [] t := by
  cases hk : t.kind with
  | int => simpa [routine, operandRoutine, hk] using fun _ _ => .whole .int (.word hk) rfl
  | str => simpa [routine, operandRoutine, hk] using fun _ _ => .whole .str (.word hk) rfl
  | ident => simpa [routine, operandRoutine, hk] using fun _ _ => .whole .ident (.word hk) rfl
  | trueKw => simpa [routine, operandRoutine, hk] using fun _ _ => .whole .true (.word hk) rfl
  | falseKw => simpa [routine, operandRoutine, hk] using fun _ _ => .whole .false (.word hk) rfl
  | bang | minus | lparen | ifKw | fnKw | lbracket | lbrace =>
    simp only [routine, operandRoutine, hk, Builds, Reads, List.nil_append]
    intro us e _ _ he _
    exact he
  | _ => simp [routine, operandRoutine, hk]

theorem builds_unary (op : UnaryOp) (h : t.kind = op.token) :
    (unary op).routine.Builds errors ((unary op).Reads errors) [] t := by
  simp only [routine, Builds, Reads, List.nil_append, List.singleton_append]
  intro _ us e _ _ he hlaid
  exact .whole .unary (.token h (.single he)) (he.merge_token hlaid t [] rfl)

theorem builds_grouping (h : t.kind = .lparen) :
    grouping.routine.Builds errors (grouping.Reads errors) [] t := by
  simp only [routine, Builds, builds_expect, Reads, List.nil_append, List.singleton_append]
  intro _ us e u _ he hu _ hlaid
  rw [hlaid.merge_ends rfl List.cons_append.symm]
  exact .group h he hu

theorem builds_conditional (h : t.kind = .ifKw) :
    conditional.routine.Builds errors (conditional.Reads errors) [] t := by
  simp only [routine, conditionalRoutine, Builds, builds_ite, builds_expect, Reads, beq_iff_eq,
    List.nil_append, List.cons_append, List.append_assoc]
  intro t₁ h₁ _ us test t₂ _ htest h₂ _ vs thenBlock t₃ _ hthen
  constructor
  · intro h₃ _ ws elseBlock _ _ helse hlaid
    refine .whole .condElse (.token h (.token h₁ (.node htest (.token h₂ (.node hthen
      (.token h₃ (.single helse))))))) ?_
    exact helse.merge_token hlaid t (t₁ :: (us ++ t₂ :: (vs ++ [t₃]))) (by simp)
  · intro _ hlaid
    refine .whole .cond (.token h (.token h₁ (.node htest (.token h₂ (.single hthen))))) ?_
    exact hthen.merge_token hlaid t (t₁ :: (us ++ [t₂])) (by simp)

theorem builds_function (h : t.kind = .fnKw) :
    function.routine.Builds errors (function.Reads errors) [] t := by
  simp only [routine, functionRoutine, Builds, builds_ite, builds_expect, Reads, beq_iff_eq,
    List.nil_append, List.cons_append]
  intro t₁ h₁ t₂
  constructor
  · intro h₂ _ us body _ _ hbody hlaid
    have hnames : Spells errors [t₂] (names [] ++ [.token .rparen]) := .word h₂
    exact derives_function h h₁ hnames hbody hlaid
  · intro _ us xs _ _ hxs vs body _ _ hbody hlaid
    exact derives_function h h₁ hxs.2 hbody hlaid

theorem builds_paramNames : paramNames.routine.Builds errors (paramNames.Reads errors) [] t := by
  simp only [routine, Builds, builds_ite, builds_expect, builds_expectIdent, Reads, beq_iff_eq,
    List.nil_append, List.cons_append]
  intro x hx u
  constructor
  · intro hu _ us xs _ _ hxs _
    exact ⟨List.cons_ne_nil x xs, .listed_cons (.word hx) hu (by simpa using hxs.1) hxs.2⟩
  · intro _ hu _ _
    exact ⟨List.cons_ne_nil x [], .token hx (.word hu)⟩

theorem builds_arrayLiteral (h : t.kind = .lbracket) :
    arrayLiteral.routine.Builds errors (arrayLiteral.Reads errors) [] t := by
  simp only [routine, Builds, Reads, List.nil_append, List.singleton_append]
  intro _ us es _ _ hes vs u hlast hlaid
  exact .whole .array (.token h hes) (hlaid.merge_ends rfl hlast)

theorem builds_hashLiteral (h : t.kind = .lbrace) :
    hashLiteral.routine.Builds errors (hashLiteral.Reads errors) [] t := by
  simp only [routine, Builds, builds_expect, Reads, List.nil_append, List.cons_append]
  intro _ us es u _ hes hu _ hlaid
  have hspan := hlaid.merge_ends rfl List.cons_append.symm
  obtain hes | ⟨hne, hes⟩ := hes
  · exact .whole .hash (.token h (hes.append (.word hu))) hspan
  · refine .whole (.hashComma hne) (.token h ?_) hspan
    simpa using hes.append (.word hu)

theorem builds_expressions (close : TokenKind) :
    (expressions close).routine.Builds errors ((expressions close).Reads errors) [] t := by
  simp only [routine, Builds, builds_ite, Reads, beq_iff_eq, List.nil_append]
  constructor
  · intro ht _ _
    exact .word ht
  · intro _ us es _ _ hes _
    exact hes.2

theorem builds_expressionsFrom (close : TokenKind) :
    (expressionsFrom close).routine.Builds errors ((expressionsFrom close).Reads errors) [] t := by
  simp only [routine, Builds, builds_ite, builds_expect, Reads, beq_iff_eq, List.nil_append,
    List.append_assoc, List.cons_append]
  intro us e u _ he
  constructor
  · intro hu _ vs es _ _ hes _
    exact ⟨List.cons_ne_nil e es, .listed_cons (.single he) hu (by simpa using hes.1) hes.2⟩
  · intro _ hu _ _
    exact ⟨List.cons_ne_nil e [], .node he (.word hu)⟩

theorem builds_entries : entries.routine.Builds errors (entries.Reads errors) [] t := by
  simp only [routine, Builds, builds_ite, builds_expect, Reads, beq_iff_eq, List.nil_append,
    List.append_assoc, List.cons_append]
  refine ⟨fun _ _ => .inl .nil, ?_⟩
  intro _ us key t₁ _ hkey h₁ _ vs value t₂ _ hvalue
  have hpair : Spells errors (us ++ t₁ :: vs)
      [.node (.expr key), .token .colon, .node (.expr value)] :=
    .node hkey (.token h₁ (.single hvalue))
  constructor
  · intro h₂ _ ws es _ _ hes _
    have hmore {is : List Item} (hne : es ≠ []) (h : Spells errors ws (pairs es ++ is)) :
        Spells errors (us ++ t₁ :: (vs ++ t₂ :: ws)) (pairs ((key, value) :: es) ++ is) := by
      have hcons := hpair.listed_cons h₂ (mt List.map_eq_nil_iff.mp hne) h
      rwa [List.append_assoc, List.cons_append] at hcons
    obtain hes | ⟨hne, hes⟩ := hes
    · by_cases hne : es = []
      · -- The comma stands behind the last entry.
        subst hne
        cases hes
        have hcomma := hpair.append (.word h₂)
        rw [List.append_assoc, List.cons_append] at hcomma
        exact .inr ⟨List.cons_ne_nil _ [], hcomma⟩
      · rw [← List.append_nil (pairs es)] at hes
        have hall := hmore hne hes
        rw [List.append_nil] at hall
        exact .inl hall
    · exact .inr ⟨List.cons_ne_nil _ es, hmore hne hes⟩
  · exact fun _ _ => .inl hpair

theorem builds_statement : statement.routine.Builds errors (statement.Reads errors) [] t := by
  cases hk : t.kind with
  | returnKw | forKw =>
    simp only [routine, statementRoutine, hk, Builds, Reads, List.nil_append]
    intro us st _ _ hst _
    exact hst
  | letKw =>
    simp only [routine, statementRoutine, hk, Builds, builds_skipOne, Reads, List.nil_append]
    intro us st u _ hst
    constructor
    · intro hu _ _
      exact .inl ⟨us, u, rfl, hu, hst⟩
    · intro hu _
      exact .inr ⟨hst.2, fun h => absurd h hu⟩
  | _ =>
    simp only [routine, statementRoutine, hk, Builds, builds_skipOne, Reads, List.nil_append]
    intro us e u _ he
    have hst : Derives errors us (.stmt (.expr e e.span)) :=
      .whole .expr (.single he) he.span_eq
    constructor
    · intro hu _ _
      exact .inl ⟨us, u, rfl, hu, id, hst⟩
    · intro hu _
      exact .inr ⟨hst, fun h => absurd h hu⟩

theorem builds_letBinding (h : t.kind = .letKw) :
    letBinding.routine.Builds errors (letBinding.Reads errors) [] t := by
  simp only [routine, Builds, builds_expect, builds_expectIdent, Reads, List.nil_append,
    List.cons_append]
  intro t₁ x hx t₂ h₂ _ us value _ _ hvalue hlaid
  refine ⟨id, .whole .letBind (.token h (.token hx (.token h₂ (.single hvalue)))) ?_⟩
  exact hvalue.merge_token hlaid t [t₁, t₂] rfl

theorem builds_returnStatement (h : t.kind = .returnKw) :
    returnStatement.routine.Builds errors (returnStatement.Reads errors) [] t := by
  simp only [routine, Builds, builds_skipOne, Reads, List.nil_append, List.cons_append]
  intro _ us value u _ hvalue
  constructor
  · intro hu _ vs v hlast hlaid
    have hend : u = v := by simpa [List.getLast?_cons] using congrArg List.getLast? hlast
    refine .inr ⟨.whole .retClosed (.token h (.node hvalue (.word hu)))
      (hlaid.merge_ends rfl hlast), fun _ => ⟨v, ?_, hend ▸ hu⟩⟩
    rw [hlast]
    exact List.getLast?_concat
  · intro hu vs v hlast hlaid
    exact .inr ⟨.whole .ret (.token h (.single hvalue)) (hlaid.merge_ends rfl hlast),
      fun hu' => absurd hu' hu⟩

theorem builds_forLoop (h : t.kind = .forKw) :
    forLoop.routine.Builds errors (forLoop.Reads errors) [] t := by
  simp only [routine, forLoopRoutine, Builds, builds_expect, builds_skipOne, Reads,
    List.nil_append, List.cons_append, List.append_assoc]
  intro t₁ h₁ _ is init t₂ _ hinit h₂ _ cs test t₃ _ htest h₃ _ as after t₄ _ hafter h₄ _
    bs body u _ hbody
  have hd (hlaid : Laid (t :: t₁ :: (is ++ t₂ :: (cs ++ t₃ :: (as ++ t₄ :: bs))))) :
      Derives errors (t :: t₁ :: (is ++ t₂ :: (cs ++ t₃ :: (as ++ t₄ :: bs))))
        (.stmt (.forLoop init test after body (t.span.merge body.span))) := by
    refine .whole .forLoop (.token h (.token h₁ (hinit.append (.token h₂
      (htest.append (.token h₃ (hafter.append (.token h₄ (.single hbody))))))))) ?_
    exact hbody.merge_token hlaid t
      (t₁ :: (is ++ t₂ :: (cs ++ t₃ :: (as ++ [t₄])))) (by simp)
  constructor
  · intro hu _ hlaid
    exact .inl ⟨_, u, by simp, hu, id, hd (hlaid.sublist (by simp))⟩
  · intro hu hlaid
    exact .inr ⟨hd hlaid, fun hu' => absurd hu' hu⟩

theorem builds_loopInit : loopInit.routine.Builds errors (loopInit.Reads errors) [] t := by
  cases hk : t.kind with
  | semicolon =>
    simp only [routine, hk, Builds, Reads]
    exact fun _ => .nil
  | letKw =>
    simp only [routine, hk, Builds, Reads, List.nil_append]
    intro us st _ _ hst _
    exact .single hst.2
  | _ =>
    simp only [routine, hk, Builds, Reads, List.nil_append]
    intro us e _ _ he _
    exact .single (.whole .expr (.single he) he.span_eq)

theorem builds_loopPart (close : TokenKind) :
    (loopPart close).routine.Builds errors ((loopPart close).Reads errors) [] t := by
  simp only [routine, Builds, builds_ite, Reads, List.nil_append]
  refine ⟨fun _ _ => .nil, ?_⟩
  intro _ us e _ _ he _
  exact .single he

theorem builds_block : block.routine.Builds errors (block.Reads errors) [] t := by
  simp only [routine, Builds, builds_expect, Reads, List.nil_append, List.cons_append]
  intro h _ us ss u _ hss hu _ hlaid
  exact .whole .block (.token h (.statements hss.1 (.word hu)))
    (hlaid.merge_ends rfl List.cons_append.symm)

theorem builds_statements (scope : Scope) :
    (statements scope).routine.Builds errors ((statements scope).Reads errors) [] t := by
  simp only [routine, Builds, builds_ite, Reads, List.nil_append]
  constructor
  · intro h _
    exact ⟨.nil, by simpa using h⟩
  · intro _
    constructor
    · intro us st u _ hst vs ss u' hvs hss _
      refine ⟨?_, hss.2⟩
      obtain ⟨ws, w, rfl, hw, hret, hst⟩ | ⟨hst, hend⟩ := hst
      · rw [List.append_assoc]
        exact .closed hst hret hw hss.1
      · exact .bare hst (fun w hw hkind => hend (hvs w hw ▸ hkind)) hss.1
    · intro us u herr hus vs ss u' _ hss _
      exact ⟨.skipped herr hus hss.1, hss.2⟩

/-- Every production builds what it reads, where it suits. -/
theorem builds (p : Production) (h : p.Suits t.kind) :
    p.routine.Builds errors (p.Reads errors) [] t := by
  cases p with
  | expression min => exact builds_expression min
  | operators min left => exact builds_operators min left
  | extension x left => exact builds_extension x left
  | operand => exact builds_operand
  | unary op => exact builds_unary op h
  | grouping => exact builds_grouping h
  | conditional => exact builds_conditional h
  | function => exact builds_function h
  | paramNames => exact builds_paramNames
  | arrayLiteral => exact builds_arrayLiteral h
  | hashLiteral => exact builds_hashLiteral h
  | expressions close => exact builds_expressions close
  | expressionsFrom close => exact builds_expressionsFrom close
  | entries => exact builds_entries
  | statement => exact builds_statement
  | letBinding => exact builds_letBinding h
  | returnStatement => exact builds_returnStatement h
  | forLoop => exact builds_forLoop h
  | loopInit => exact builds_loopInit
  | loopPart close => exact builds_loopPart close
  | block => exact builds_block
  | statements scope => exact builds_statements scope

end Production

end

/-! ### Tokens that are consumed -/

/-- From the state `s` to the state `s'` the tokens `ts` are consumed. -/
structure State.Took (ts : List Token) (s s' : State) : Prop where
  rest : s.cursor.rest = ts ++ s'.cursor.rest
  previous : s'.previous = ts.foldl (fun _ t => t.span) s.previous

namespace State.Took

variable {ts us : List Token} {u : Token} {s s' s'' : State}

theorem refl (s : State) : Took [] s s := ⟨rfl, rfl⟩

theorem trans (h : Took ts s s') (h' : Took us s' s'') : Took (ts ++ us) s s'' where
  rest := by rw [h.rest, h'.rest, List.append_assoc]
  previous := by rw [h'.previous, h.previous, List.foldl_append]

theorem advance (h : s.kind ≠ .eof) : Took [s.cursor.current] s s.advance where
  rest := State.rest_eq_cons h
  previous := by
    obtain ⟨⟨position, previous, rest⟩, errors⟩ := s
    cases rest with
    | nil => exact absurd rfl h
    | cons t ts =>
      have ht : (t.kind == .eof) = false := by
        simpa [State.kind, Cursor.kind, Cursor.current] using h
      simp [State.previous, State.advance, Cursor.advance, Cursor.current, ht]

theorem of_report {e : ParseError} (h : Took ts (s.report e) s') : Took ts s s' := by
  obtain ⟨hrest, hprevious⟩ := h
  simp only [State.previous, State.cursor_report] at hrest hprevious
  exact ⟨hrest, hprevious⟩

/-- The span of the last one of them is known. -/
theorem previous_eq (h : Took (ts ++ [u]) s s') : s'.previous = u.span := by
  rw [h.previous, List.foldl_append]
  rfl

/-- The first one of them is the current token. -/
theorem eq_current (h : Took ts s s') : ∀ u ∈ ts.head?, u = s.cursor.current := by
  intro u hu
  obtain ⟨us, rfl⟩ := List.head?_eq_some_iff.mp hu
  rw [Cursor.current, h.rest]
  rfl

/-- Those that are left stand one after the other if all do. -/
theorem laid (h : Took ts s s') (hs : Laid s.cursor.rest) : Laid s'.cursor.rest :=
  hs.sublist (h.rest ▸ List.sublist_append_right ts _)

theorem le_length {k : Nat} (h : Took ts s s') (hp : State.Past k s s') : k ≤ ts.length := by
  have hleft := hp.left
  simp only [State.left, h.rest, List.length_append] at hleft
  omega

end State.Took

/-- Skipping consumes tokens. -/
theorem exists_took_resume (scope : Scope) (depth : Nat) (c : Cursor) (es : List ParseError) :
    ∃ us, State.Took us ⟨c, es⟩ ⟨resume scope depth c.position c.previous c.rest, es⟩ := by
  obtain ⟨position, previous, ts⟩ := c
  induction ts generalizing depth position previous with
  | nil => exact ⟨[], .refl _⟩
  | cons t ts ih =>
    have hfirst : State.Took [t] ⟨⟨position, previous, t :: ts⟩, es⟩
        ⟨⟨position + 1, t.span, ts⟩, es⟩ := ⟨rfl, rfl⟩
    dsimp only
    obtain hr | hr | ⟨depth', hr⟩ := resume_cons scope depth position previous t ts
    · rw [hr]
      exact ⟨[], .refl _⟩
    · rw [hr]
      exact ⟨[t], hfirst⟩
    · rw [hr]
      obtain ⟨us, hus⟩ := ih depth' (position + 1) t.span
      exact ⟨t :: us, hfirst.trans hus⟩

/-- So does going on after a broken statement. -/
theorem State.exists_took_recover (s : State) (scope : Scope) (start : Nat) :
    ∃ us, Took us s (s.recover scope start) := by
  unfold recover
  dsimp only
  split
  · obtain ⟨us, hus⟩ := exists_took_resume scope 0 s.cursor.advance s.errors
    by_cases hk : s.kind = .eof
    · have hc : s.cursor.advance = s.cursor :=
        Cursor.advance_eq_self (by simpa [Cursor.atEnd, State.kind] using hk)
      rw [hc] at hus ⊢
      exact ⟨us, hus⟩
    · exact ⟨_, (Took.advance hk).trans hus⟩
  · exact exists_took_resume scope 0 s.cursor s.errors

/-! ### What is read -/

/-- A way to read productions that consumes the tokens they should be read from, and neither goes
back nor drops errors. -/
structure Exact (errors : Prop) (rec : (p : Production) → State → Outcome p.Result) : Prop where
  forward : Forward rec
  keeps : ∀ p s, s.errors ≠ [] → (rec p s).Keeps fun s => s.errors ≠ []
  reads : ∀ p s, p.Suits s.kind → Laid s.cursor.rest →
    (rec p s).Ends
      (fun r s' => ∃ ts, State.Took ts s s' ∧
        ((s'.errors ≠ [] → errors) → p.Reads errors ts r s'.cursor.current))
      (fun _ s' => ∃ ts, State.Took ts s s')

/-- No move drops errors. -/
theorem errors_closed : Closed fun s => s.errors ≠ [] where
  advance _ h := h
  report _ e _ _ := State.errors_report_ne_nil e
  recover _ _ _ h := h

namespace Exact

variable {rec : (p : Production) → State → Outcome p.Result} (hrec : Exact errors rec)
  {p : Production} {s t : State} {e : ParseError}
include hrec

theorem done {x : p.Result} (hsuits : p.Suits s.kind) (hs : Laid s.cursor.rest)
    (hr : rec p s = .done x t) :
    ∃ us, State.Took us s t ∧ p.least ≤ us.length ∧
      ((t.errors ≠ [] → errors) →
        (s.errors ≠ [] → errors) ∧ p.Reads errors us x t.cursor.current) := by
  have hreads := hrec.reads p s hsuits hs
  have hpast := hrec.forward p s hsuits
  have hkeeps := hrec.keeps p s
  rw [hr] at hreads hpast hkeeps
  obtain ⟨us, hus, hx⟩ := hreads
  exact ⟨us, hus, hus.le_length hpast, fun he => ⟨fun hne => he (hkeeps hne), hx he⟩⟩

theorem failed (hsuits : p.Suits s.kind) (hs : Laid s.cursor.rest) (hr : rec p s = .failed e t) :
    ∃ us, State.Took us s t := by
  have hreads := hrec.reads p s hsuits hs
  rwa [hr] at hreads

/-- A broken statement and what is skipped after it. -/
theorem broken (hk : s.kind ≠ .eof) (hs : Laid s.cursor.rest) (hr : rec .statement s = .failed e t)
    (scope : Scope) :
    ∃ us, State.Took us s ((t.report e).recover scope s.cursor.position) ∧ 1 ≤ us.length := by
  obtain ⟨us, hus⟩ := hrec.failed (p := .statement) trivial hs hr
  obtain ⟨vs, hvs⟩ := (t.report e).exists_took_recover scope s.cursor.position
  have hpast := hrec.forward .statement s trivial
  rw [hr] at hpast
  have hskip := hus.trans hvs.of_report
  exact ⟨us ++ vs, hskip, hskip.le_length (State.past_recover_report hk hpast scope)⟩

end Exact

/-- The moves of a routine consume the tokens that it builds its result from. -/
theorem Routine.Builds.ends {rec : (p : Production) → State → Outcome p.Result}
    (hrec : Exact errors rec) {D : List Token → α → Token → Prop} {p : Production} {r : Routine α}
    {j : Nat} {ts : List Token} {s s' : State} (hs : Laid s.cursor.rest) (htook : State.Took ts s s')
    (horder : r.Orderly p j s'.kind) (hj : j ≤ ts.length)
    (h : (s'.errors ≠ [] → errors) → r.Builds errors D ts s'.cursor.current) :
    ((r.plan s').run rec).Ends
      (fun x t => ∃ us, State.Took us s t ∧
        ((t.errors ≠ [] → errors) → D us x t.cursor.current))
      (fun _ t => ∃ us, State.Took us s t) := by
  induction r generalizing s' j ts with
  | done r =>
    refine ⟨ts, htook, fun he => h he (hs.sublist ?_)⟩
    rw [htook.rest]
    exact List.sublist_append_left ts _
  | fail cause context => exact ⟨ts, htook⟩
  | look next ih => exact ih _ _ htook (horder s'.span) hj h
  | last next ih =>
    have hts : ts ≠ [] := List.ne_nil_of_length_pos (Nat.le_trans horder.1 hj)
    obtain ⟨us, u, rfl⟩ : ∃ us u, ts = us ++ [u] :=
      ⟨_, _, (List.dropLast_concat_getLast hts).symm⟩
    refine ih _ htook (horder.2 _) hj fun he => ?_
    rw [htook.previous_eq]
    exact h he us u rfl
  | advance next ih =>
    exact ih (htook.trans (.advance horder.1)) (horder.2 _) (by simpa using hj) fun he => h he _
  | read q inside next ih =>
    obtain ⟨hsuits, -, hnext⟩ := horder
    rw [run_read]
    cases hr : rec q s' with
    | done x t =>
      obtain ⟨us, hus, hlen, hx⟩ := hrec.done hsuits (htook.laid hs) hr
      have := ih x (htook.trans hus) (hnext x t.kind) (by simp; omega) fun he =>
        h (hx he).1 us x _ hus.eq_current (hx he).2
      cases inside <;> exact this
    | failed e t =>
      obtain ⟨us, hus⟩ := hrec.failed hsuits (htook.laid hs) hr
      have : ∃ us, State.Took us s t := ⟨ts ++ us, htook.trans hus⟩
      cases inside <;> exact this
    | outOfFuel => cases inside <;> trivial
  | attempt scope next broken ih ihb =>
    obtain ⟨hk, -, hnext, hbroken⟩ := horder
    rw [plan, Plan.run]
    cases hr : rec .statement s' with
    | done st t =>
      obtain ⟨us, hus, hlen, hx⟩ := hrec.done (p := .statement) trivial (htook.laid hs) hr
      have hlen : 1 ≤ us.length := hlen
      exact ih st (htook.trans hus) (hnext st t.kind) (by simp; omega) fun he =>
        (h (hx he).1).1 us st _ hus.eq_current (hx he).2
    | failed e t =>
      obtain ⟨us, hus, hlen⟩ := hrec.broken hk (htook.laid hs) hr scope
      refine ihb (htook.trans hus) (hbroken _) (by simp; omega) fun he => ?_
      have herrors : errors := he (State.errors_report_ne_nil e)
      exact (h fun _ => herrors).2 us _ herrors (List.ne_nil_of_length_pos hlen)
    | outOfFuel => trivial

/-- Every production consumes the tokens that it should be read from, if the tokens ahead stand one
after the other. -/
theorem Production.exact (errors : Prop) (n : Nat) : Exact errors fun p s => p.read n s where
  forward := forward n
  keeps p s hs := errors_closed.ends n p hs
  reads := by
    induction n with
    | zero =>
      intro p s _ _
      rw [read_zero]
      trivial
    | succ n ih =>
      intro p s hsuits hlaid
      rw [read_succ, plan_eq]
      exact Routine.Builds.ends ⟨forward n, fun p s hs => errors_closed.ends n p hs, ih⟩ hlaid
        (.refl s) (p.orderly hsuits) (Nat.le_refl 0) fun _ => p.builds hsuits

end MonkeyLang.Parser
