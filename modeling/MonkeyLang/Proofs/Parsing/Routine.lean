import MonkeyLang.Proofs.Parsing.Plan

/-!
# Reading as single moves

What a production does depends on what it sees, and on nothing else: on the kind and the span of the
current token, on the span of the token consumed last, and on the results of the productions that it
reads. A `Routine` spells this out. It has no access to the state of the parser, so what is proved
of routines by induction holds of all productions alike, whatever their grammar is.

## Main definitions

* `Routine`, `Production.routine` : the moves of a production.
* `Routine.plan` : the plan to make the moves from a state on.

## Main statements

* `Production.plan_eq` : the plan of a production is to make its moves.
-/

namespace MonkeyLang.Parser

variable {α : Type}

/-- The moves up to a result of type `α`. -/
inductive Routine (α : Type) where
  /-- Ends with a result. -/
  | done (result : α)
  /-- Ends with an error at the current token. -/
  | fail (cause : ParseError.Cause) (context : Option Construct)
  /-- Goes on with the kind and the span of the current token. -/
  | look (next : TokenKind → Span → Routine α)
  /-- Goes on with the span of the token consumed last. -/
  | last (next : Span → Routine α)
  /-- Consumes the current token. -/
  | advance (next : Routine α)
  /-- Reads the production `p`, inside a construct if there is one, and goes on with its result. -/
  | read (p : Production) (inside : Option Construct) (next : p.Result → Routine α)
  /-- Tries a statement, and goes on with it, or reports its error and skips the rest of it. -/
  | attempt (scope : Scope) (next : Stmt → Routine α) (broken : Routine α)

namespace Routine

/-- A token of the kind `k`, whose span is handed on. -/
def expect (k : TokenKind) (context : Option Construct) (next : Span → Routine α) : Routine α :=
  .look fun found span =>
    if found == k then .advance (next span)
    else .fail (.unexpectedToken k.displayName found.displayName) context

/-- An identifier, whose name is handed on. -/
def expectIdent (next : String → Routine α) : Routine α :=
  .look fun found _ =>
    match found with
    | .ident name => .advance (next name)
    | found => .fail (.unexpectedToken "identifier" found.displayName) none

/-- A token of the kind `k`, if there is one. -/
def skipOne (k : TokenKind) (next : Routine α) : Routine α :=
  .look fun found _ => if found == k then .advance next else next

/-- The plan to make the moves from the state on. -/
def plan : Routine α → State → Plan α
  | .done r, s => .finish (.done r s)
  | .fail cause context, s => .finish (.failed ⟨cause, s.span, context⟩ s)
  | .look next, s => (next s.kind s.span).plan s
  | .last next, s => (next s.previous).plan s
  | .advance next, s => next.plan s.advance
  | .read p inside next, s => .after p inside s fun r s => (next r).plan s
  | .attempt scope next broken, s =>
    .attempt s (fun st s => (next st).plan s)
      (fun e s' => broken.plan ((s'.report e).recover scope s.cursor.position))

end Routine

/-! ### The routines -/

open Routine in
/-- The moves of an operand. -/
def operandRoutine : Routine Expr :=
  .look fun kind span =>
    match kind with
    | .int value => .advance (.done (.int value span))
    | .str text => .advance (.done (.str text span))
    | .ident name => .advance (.done (.ident name span))
    | .trueKw => .advance (.done (.bool true span))
    | .falseKw => .advance (.done (.bool false span))
    | .bang => .read (.unary .not) none .done
    | .minus => .read (.unary .neg) none .done
    | .lparen => .read .grouping (some .grouping) .done
    | .ifKw => .read .conditional (some .ifExpression) .done
    | .fnKw => .read .function (some .functionLiteral) .done
    | .lbracket => .read .arrayLiteral (some .arrayLiteral) .done
    | .lbrace => .read .hashLiteral (some .hashLiteral) .done
    | k =>
      if k.isReserved then .fail (.reservedKeyword k.displayName) none
      else .fail (.unexpectedToken "expression" k.displayName) (some .expression)

/-- The moves that go on with an expression. -/
def extensionRoutine (left : Expr) : Extension → Routine Expr
  | .call =>
    .read (.expressions .rparen) (some .functionCall) fun args =>
    .last fun stop => .done (.call left args (left.span.merge stop))
  | .index =>
    .read (.expression .lowest) (some .indexExpression) fun place =>
    .expect .rbracket (some .indexExpression) fun _ =>
    .last fun stop => .done (.index left place (left.span.merge stop))
  | .assign =>
    .read (.expression .lowest) none fun value =>
      .done (.assign left value (left.span.merge value.span))
  | .binary op =>
    .read (.expression (Extension.binary op).precedence) none fun right =>
      .done (.binary op left right (left.span.merge right.span))

/-- The moves of a statement. -/
def statementRoutine : Routine Stmt :=
  .look fun kind _ =>
    match kind with
    | .letKw =>
      .read .letBinding (some .letStatement) fun binding => .skipOne .semicolon (.done binding)
    | .returnKw => .read .returnStatement (some .returnStatement) .done
    | .forKw => .read .forLoop (some .forLoop) .done
    | _ =>
      .read (.expression .lowest) none fun e => .skipOne .semicolon (.done (.expr e e.span))

/-- The moves of a loop. -/
def forLoopRoutine : Routine Stmt :=
  .look fun _ start => .advance <|
  .expect .lparen none fun _ =>
  .read .loopInit none fun init =>
  .expect .semicolon none fun _ =>
  .read (.loopPart .semicolon) none fun test =>
  .expect .semicolon none fun _ =>
  .read (.loopPart .rparen) none fun after =>
  .expect .rparen none fun _ =>
  .read .block none fun body =>
  .skipOne .semicolon (.done (.forLoop init test after body (start.merge body.span)))

/-- The moves of a function literal. -/
def functionRoutine : Routine Expr :=
  .look fun _ start => .advance <|
  .expect .lparen (some .functionParams) fun _ =>
  let body (names : List String) : Routine Expr :=
    .read .block none fun body =>
      .done (.function names body (start.merge body.span) (start.merge body.span))
  .look fun kind _ =>
    if kind == .rparen then .advance (body [])
    else .read .paramNames (some .functionParams) body

/-- The moves of a conditional expression. -/
def conditionalRoutine : Routine Expr :=
  .look fun _ start => .advance <|
  .expect .lparen none fun _ =>
  .read (.expression .lowest) none fun test =>
  .expect .rparen none fun _ =>
  .read .block none fun thenBlock =>
  .look fun kind _ =>
    if kind == .elseKw then
      .advance <| .read .block none fun elseBlock =>
        .done (.cond test thenBlock (some elseBlock) (start.merge elseBlock.span))
    else .done (.cond test thenBlock none (start.merge thenBlock.span))

/-- The moves of a production. -/
def Production.routine : (p : Production) → Routine p.Result
  | .expression min =>
    .read .operand none fun left => .read (.operators min left) none .done
  | .operators min left =>
    .look fun kind _ =>
      match Extension.ofToken? kind with
      | none => .done left
      | some x =>
        if min.rank < x.precedence.rank then
          .advance <| .read (.extension x left) none fun left =>
            .read (.operators min left) none .done
        else .done left
  | .extension x left => extensionRoutine left x
  | .operand => operandRoutine
  | .unary op =>
    .look fun _ start => .advance <|
    .read (.expression .unary) none fun e => .done (.unary op e (start.merge e.span))
  | .grouping =>
    .look fun _ start => .advance <|
    .read (.expression .lowest) none fun inner =>
    .expect .rparen none fun close => .done (inner.withSpan (start.merge close))
  | .conditional => conditionalRoutine
  | .function => functionRoutine
  | .paramNames =>
    .expectIdent fun name => .look fun kind _ =>
      if kind == .comma then .advance <| .read .paramNames none fun names => .done (name :: names)
      else .expect .rparen none fun _ => .done [name]
  | .arrayLiteral =>
    .look fun _ start => .advance <|
    .read (.expressions .rbracket) none fun items =>
    .last fun stop => .done (.array items (start.merge stop))
  | .hashLiteral =>
    .look fun _ start => .advance <|
    .read .entries none fun es =>
    .expect .rbrace none fun close => .done (.hash es (start.merge close))
  | .expressions close =>
    .look fun kind _ =>
      if kind == close then .advance (.done []) else .read (.expressionsFrom close) none .done
  | .expressionsFrom close =>
    .read (.expression .lowest) none fun e => .look fun kind _ =>
      if kind == .comma then
        .advance <| .read (.expressionsFrom close) none fun es => .done (e :: es)
      else .expect close none fun _ => .done [e]
  | .entries =>
    .look fun kind _ =>
      if kind == .rbrace then .done []
      else
        .read (.expression .lowest) none fun key =>
        .expect .colon none fun _ =>
        .read (.expression .lowest) none fun value =>
        .look fun kind _ =>
          if kind == .comma then
            .advance <| .read .entries none fun es => .done ((key, value) :: es)
          else .done [(key, value)]
  | .statement => statementRoutine
  | .letBinding =>
    .look fun _ start => .advance <|
    .expectIdent fun name =>
    .expect .assign none fun _ =>
    .read (.expression .lowest) none fun value =>
      .done (.letBind name value (start.merge value.span))
  | .returnStatement =>
    .look fun _ start => .advance <|
    .read (.expression .lowest) none fun value =>
    .skipOne .semicolon <| .last fun stop => .done (.ret value (start.merge stop))
  | .forLoop => forLoopRoutine
  | .loopInit =>
    .look fun kind _ =>
      match kind with
      | .semicolon => .done none
      | .letKw => .read .letBinding none fun st => .done (some st)
      | _ => .read (.expression .lowest) none fun e => .done (some (.expr e e.span))
  | .loopPart close =>
    .look fun kind _ =>
      if kind == close then .done none
      else .read (.expression .lowest) none fun e => .done (some e)
  | .block =>
    .expect .lbrace (some .block) fun start =>
    .read (.statements .block) none fun ss =>
    .expect .rbrace (some .block) fun stop => .done ⟨ss, start.merge stop⟩
  | .statements scope =>
    .look fun kind _ =>
      if kind == .eof || (scope == .block && kind == .rbrace) then .done []
      else
        .attempt scope
          (fun st => .read (.statements scope) none fun ss => .done (st :: ss))
          (.read (.statements scope) none .done)

/-! ### The plans are to make the moves -/

namespace Routine

variable {s : State}

theorem plan_expect (k : TokenKind) (next : Span → Routine α) :
    (Routine.expect k none next).plan s = (s.expect k).plan fun span s => (next span).plan s := by
  simp only [Routine.expect, plan, State.expect]
  split <;> rfl

theorem plan_expect_within (k : TokenKind) (c : Construct) (next : Span → Routine α) :
    (Routine.expect k (some c) next).plan s =
      ((s.expect k).within c).plan fun span s => (next span).plan s := by
  simp only [Routine.expect, plan, State.expect]
  split <;> rfl

theorem plan_expectIdent (next : String → Routine α) :
    (Routine.expectIdent next).plan s = s.expectIdent.plan fun name s => (next name).plan s := by
  simp only [Routine.expectIdent, plan, State.expectIdent]
  cases hk : s.kind <;> simp only [plan, Outcome.plan, ParseError.unexpected] <;>
    simp only [← hk] <;> rfl

theorem plan_skipOne (k : TokenKind) (next : Routine α) :
    (Routine.skipOne k next).plan s = next.plan (s.skipOne k) := by
  simp only [Routine.skipOne, plan, State.skipOne]
  split <;> rfl

theorem plan_ite (c : Prop) [Decidable c] (r r' : Routine α) :
    (if c then r else r').plan s = if c then r.plan s else r'.plan s := by
  split <;> rfl

end Routine

/-- The plan of a production is to make its moves. -/
theorem Production.plan_eq (p : Production) (s : State) : p.plan s = p.routine.plan s := by
  cases p with
  | operators min left =>
    simp only [plan, routine, Routine.plan]
    cases Extension.ofToken? s.kind <;> simp only [Routine.plan, Routine.plan_ite]
  | extension x left =>
    cases x <;> simp only [plan, routine, extensionPlan, extensionRoutine, Routine.plan,
      Routine.plan_expect_within]
  | operand =>
    simp only [plan, routine, operandPlan, operandRoutine, Routine.plan]
    cases hk : s.kind <;> simp only [Routine.plan, Routine.plan_ite, id] <;>
      simp only [← hk] <;> rfl
  | statement =>
    simp only [plan, routine, statementPlan, statementRoutine, Routine.plan]
    cases s.kind <;> simp only [Routine.plan, Routine.plan_skipOne]
  | loopInit =>
    simp only [plan, routine, Routine.plan]
    cases s.kind <;> simp only [Routine.plan]
  | statements scope =>
    simp only [plan, routine, Routine.plan, Routine.plan_ite, State.stops]
    rfl
  | function =>
    simp only [plan, routine, functionPlan, functionRoutine, Routine.plan,
      Routine.plan_expect_within, Routine.plan_ite]
  | conditional =>
    simp only [plan, routine, conditionalPlan, conditionalRoutine, Routine.plan,
      Routine.plan_expect, Routine.plan_ite]
  | forLoop =>
    simp only [plan, routine, forLoopPlan, forLoopRoutine, Routine.plan, Routine.plan_expect,
      Routine.plan_skipOne]
  | _ =>
    simp only [plan, routine, Routine.plan, Routine.plan_expect, Routine.plan_expect_within,
      Routine.plan_expectIdent, Routine.plan_skipOne, Routine.plan_ite]

end MonkeyLang.Parser
