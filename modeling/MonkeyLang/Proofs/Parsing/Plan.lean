import MonkeyLang.Program.Parser

/-!
# Reading as a plan

The productions of the parser are many, but what one step of them does has always the same form:
other productions are read one after the other, each chosen by what those before it have read, or
there is an outcome. Only the statements of a program or block go on after a production that has
failed. `Production` names all that can be read, and `Production.plan` says of each what its first
step is. A plan does not read anything by itself; `Plan.run` carries it out, given a way to read
productions.

The productions that are read on the way are those that the plan of a production, the plans of its
parts, and so on, come to.

## Main definitions

* `Production.Meets` : a property holds of some production that is read on the way.

## Main statements

* `Production.read_succ` : reading in one more step carries out the plan of the production.
-/

namespace MonkeyLang.Parser

variable {α β : Type}

/-! ### Productions -/

/-- What can be read. -/
inductive Production where
  /-- An expression, as far as everything in it binds tighter than `min`. -/
  | expression (min : Precedence)
  /-- What goes on with the expression `left`. -/
  | operators (min : Precedence) (left : Expr)
  /-- What goes on with the expression `left` in the way `x`. -/
  | extension (x : Extension) (left : Expr)
  /-- An expression without anything after it that binds it. -/
  | operand
  /-- A prefix operator and its operand. -/
  | unary (op : UnaryOp)
  /-- An expression in parentheses. -/
  | grouping
  /-- A conditional expression. -/
  | conditional
  /-- A function literal. -/
  | function
  /-- The parameters of a function literal, when there are any. -/
  | paramNames
  /-- An array literal. -/
  | arrayLiteral
  /-- A hash literal. -/
  | hashLiteral
  /-- Expressions with commas between them, up to and with the token `close`. -/
  | expressions (close : TokenKind)
  /-- At least one such expression. -/
  | expressionsFrom (close : TokenKind)
  /-- The entries of a hash literal. -/
  | entries
  /-- A statement. -/
  | statement
  /-- A `let` statement, without a semicolon. -/
  | letBinding
  /-- A `return` statement. -/
  | returnStatement
  /-- A loop. -/
  | forLoop
  /-- The first part of a loop's header. -/
  | loopInit
  /-- A later part of a loop's header. -/
  | loopPart (close : TokenKind)
  /-- A block. -/
  | block
  /-- The statements up to the end of their scope. -/
  | statements (scope : Scope)

namespace Production

/-- The type of what is read. -/
abbrev Result : Production → Type
  | .expression _ | .operators _ _ | .extension _ _ | .operand | .unary _ | .grouping
  | .conditional | .function | .arrayLiteral | .hashLiteral => Expr
  | .paramNames => List String
  | .expressions _ | .expressionsFrom _ => List Expr
  | .entries => List (Expr × Expr)
  | .statement | .letBinding | .returnStatement | .forLoop => Stmt
  | .loopInit => Option Stmt
  | .loopPart _ => Option Expr
  | .block => Block
  | .statements _ => List Stmt

/-- Reads a production in the given number of steps. -/
def read (n : Nat) : (p : Production) → State → Outcome p.Result
  | .expression min, s => Parser.expression n min s
  | .operators min left, s => Parser.operators n min left s
  | .extension x left, s => Parser.extension n x left s
  | .operand, s => Parser.operand n s
  | .unary op, s => Parser.unary n op s
  | .grouping, s => Parser.grouping n s
  | .conditional, s => Parser.conditional n s
  | .function, s => Parser.function n s
  | .paramNames, s => Parser.paramNames n s
  | .arrayLiteral, s => Parser.arrayLiteral n s
  | .hashLiteral, s => Parser.hashLiteral n s
  | .expressions close, s => Parser.expressions n close s
  | .expressionsFrom close, s => Parser.expressionsFrom n close s
  | .entries, s => Parser.entries n s
  | .statement, s => Parser.statement n s
  | .letBinding, s => Parser.letBinding n s
  | .returnStatement, s => Parser.returnStatement n s
  | .forLoop, s => Parser.forLoop n s
  | .loopInit, s => Parser.loopInit n s
  | .loopPart close, s => Parser.loopPart n close s
  | .block, s => Parser.block n s
  | .statements scope, s => Parser.statements n scope s

theorem read_zero (p : Production) (s : State) : p.read 0 s = .outOfFuel := by
  cases p <;> rfl

end Production

/-! ### Plans -/

/-- What is to be done, up to a result of type `α`. -/
inductive Plan (α : Type) where
  /-- Ends with an outcome. -/
  | finish (outcome : Outcome α)
  /-- Reads the production `p`, inside a construct if there is one, and goes on with its result. -/
  | after (p : Production) (inside : Option Construct) (s : State)
      (next : p.Result → State → Plan α)
  /-- Tries a statement, and goes on with it or with the error that it has. -/
  | attempt (s : State) (next : Stmt → State → Plan α) (broken : ParseError → State → Plan α)

/-- Places an error inside `construct`, if there is one, unless a construct further in is known. -/
def Outcome.inside (o : Outcome α) : Option Construct → Outcome α
  | none => o
  | some construct => o.within construct

/-- The plan to go on after an outcome that is known. -/
def Outcome.plan (o : Outcome α) (next : α → State → Plan β) : Plan β :=
  match o with
  | .done result state => next result state
  | .failed error state => .finish (.failed error state)
  | .outOfFuel => .finish .outOfFuel

/-- Carries out a plan, where `rec` reads productions. -/
def Plan.run (rec : (p : Production) → State → Outcome p.Result) : Plan α → Outcome α
  | .finish o => o
  | .after p inside s next => ((rec p s).inside inside).andThen fun r s => (next r s).run rec
  | .attempt s next broken =>
    match rec .statement s with
    | .done st s => (next st s).run rec
    | .failed e s => (broken e s).run rec
    | .outOfFuel => .outOfFuel

/-- The plan of an operand. -/
def operandPlan (s : State) : Plan Expr :=
  let part (p : Production) (inside : Option Construct) (result : p.Result → Expr) : Plan Expr :=
    .after p inside s fun r s => .finish (.done (result r) s)
  match s.kind with
  | .int value => .finish (.done (.int value s.span) s.advance)
  | .str text => .finish (.done (.str text s.span) s.advance)
  | .ident name => .finish (.done (.ident name s.span) s.advance)
  | .trueKw => .finish (.done (.bool true s.span) s.advance)
  | .falseKw => .finish (.done (.bool false s.span) s.advance)
  | .bang => part (.unary .not) none id
  | .minus => part (.unary .neg) none id
  | .lparen => part .grouping (some .grouping) id
  | .ifKw => part .conditional (some .ifExpression) id
  | .fnKw => part .function (some .functionLiteral) id
  | .lbracket => part .arrayLiteral (some .arrayLiteral) id
  | .lbrace => part .hashLiteral (some .hashLiteral) id
  | k =>
    if k.isReserved then
      .finish (.failed { cause := .reservedKeyword k.displayName, span := s.span } s)
    else .finish (.failed ((ParseError.unexpected s.cursor "expression").within .expression) s)

/-- The plan of what goes on with an expression. -/
def extensionPlan (left : Expr) (s : State) : Extension → Plan Expr
  | .call =>
    .after (.expressions .rparen) (some .functionCall) s fun args s =>
      .finish (.done (.call left args (left.span.merge s.previous)) s)
  | .index =>
    .after (.expression .lowest) (some .indexExpression) s fun place s =>
    ((s.expect .rbracket).within .indexExpression).plan fun _ s =>
      .finish (.done (.index left place (left.span.merge s.previous)) s)
  | .assign =>
    .after (.expression .lowest) none s fun value s =>
      .finish (.done (.assign left value (left.span.merge value.span)) s)
  | .binary op =>
    .after (.expression (Extension.binary op).precedence) none s fun right s =>
      .finish (.done (.binary op left right (left.span.merge right.span)) s)

/-- The plan of a statement. -/
def statementPlan (s : State) : Plan Stmt :=
  match s.kind with
  | .letKw =>
    .after .letBinding (some .letStatement) s fun binding s =>
      .finish (.done binding (s.skipOne .semicolon))
  | .returnKw =>
    .after .returnStatement (some .returnStatement) s fun st s => .finish (.done st s)
  | .forKw => .after .forLoop (some .forLoop) s fun st s => .finish (.done st s)
  | _ =>
    .after (.expression .lowest) none s fun e s =>
      .finish (.done (.expr e e.span) (s.skipOne .semicolon))

/-- The plan of a loop. -/
def forLoopPlan (s : State) : Plan Stmt :=
  (s.advance.expect .lparen).plan fun _ s' =>
  .after .loopInit none s' fun init s' =>
  (s'.expect .semicolon).plan fun _ s' =>
  .after (.loopPart .semicolon) none s' fun test s' =>
  (s'.expect .semicolon).plan fun _ s' =>
  .after (.loopPart .rparen) none s' fun after s' =>
  (s'.expect .rparen).plan fun _ s' =>
  .after .block none s' fun body s' =>
    .finish (.done (.forLoop init test after body (s.span.merge body.span))
      (s'.skipOne .semicolon))

/-- The plan of a function literal. -/
def functionPlan (s : State) : Plan Expr :=
  let body (names : List String) (s' : State) : Plan Expr :=
    .after .block none s' fun body s' =>
      .finish (.done (.function names body (s.span.merge body.span) (s.span.merge body.span)) s')
  ((s.advance.expect .lparen).within .functionParams).plan fun _ s' =>
    if s'.kind == .rparen then body [] s'.advance
    else .after .paramNames (some .functionParams) s' body

/-- The plan of a conditional expression. -/
def conditionalPlan (s : State) : Plan Expr :=
  (s.advance.expect .lparen).plan fun _ s' =>
  .after (.expression .lowest) none s' fun test s' =>
  (s'.expect .rparen).plan fun _ s' =>
  .after .block none s' fun thenBlock s' =>
    if s'.kind == .elseKw then
      .after .block none s'.advance fun elseBlock s' =>
        .finish (.done (.cond test thenBlock (some elseBlock) (s.span.merge elseBlock.span)) s')
    else .finish (.done (.cond test thenBlock none (s.span.merge thenBlock.span)) s')

/-- The plan of a production. -/
def Production.plan : (p : Production) → State → Plan p.Result
  | .expression min, s =>
    .after .operand none s fun left s =>
    .after (.operators min left) none s fun e s => .finish (.done e s)
  | .operators min left, s =>
    match Extension.ofToken? s.kind with
    | none => .finish (.done left s)
    | some x =>
      if min.rank < x.precedence.rank then
        .after (.extension x left) none s.advance fun left s =>
        .after (.operators min left) none s fun e s => .finish (.done e s)
      else .finish (.done left s)
  | .extension x left, s => extensionPlan left s x
  | .operand, s => operandPlan s
  | .unary op, s =>
    .after (.expression .unary) none s.advance fun e s' =>
      .finish (.done (.unary op e (s.span.merge e.span)) s')
  | .grouping, s =>
    .after (.expression .lowest) none s.advance fun inner s' =>
    (s'.expect .rparen).plan fun close s' =>
      .finish (.done (inner.withSpan (s.span.merge close)) s')
  | .conditional, s => conditionalPlan s
  | .function, s => functionPlan s
  | .paramNames, s =>
    s.expectIdent.plan fun name s =>
      if s.kind == .comma then
        .after .paramNames none s.advance fun names s => .finish (.done (name :: names) s)
      else (s.expect .rparen).plan fun _ s => .finish (.done [name] s)
  | .arrayLiteral, s =>
    .after (.expressions .rbracket) none s.advance fun items s' =>
      .finish (.done (.array items (s.span.merge s'.previous)) s')
  | .hashLiteral, s =>
    .after .entries none s.advance fun es s' =>
    (s'.expect .rbrace).plan fun close s' => .finish (.done (.hash es (s.span.merge close)) s')
  | .expressions close, s =>
    if s.kind == close then .finish (.done [] s.advance)
    else .after (.expressionsFrom close) none s fun es s => .finish (.done es s)
  | .expressionsFrom close, s =>
    .after (.expression .lowest) none s fun e s =>
      if s.kind == .comma then
        .after (.expressionsFrom close) none s.advance fun es s => .finish (.done (e :: es) s)
      else (s.expect close).plan fun _ s => .finish (.done [e] s)
  | .entries, s =>
    if s.kind == .rbrace then .finish (.done [] s)
    else
      .after (.expression .lowest) none s fun key s =>
      (s.expect .colon).plan fun _ s =>
      .after (.expression .lowest) none s fun value s =>
        if s.kind == .comma then
          .after .entries none s.advance fun es s => .finish (.done ((key, value) :: es) s)
        else .finish (.done [(key, value)] s)
  | .statement, s => statementPlan s
  | .letBinding, s =>
    s.advance.expectIdent.plan fun name s' =>
    (s'.expect .assign).plan fun _ s' =>
    .after (.expression .lowest) none s' fun value s' =>
      .finish (.done (.letBind name value (s.span.merge value.span)) s')
  | .returnStatement, s =>
    .after (.expression .lowest) none s.advance fun value s' =>
      .finish (.done (.ret value (s.span.merge (s'.skipOne .semicolon).previous))
        (s'.skipOne .semicolon))
  | .forLoop, s => forLoopPlan s
  | .loopInit, s =>
    match s.kind with
    | .semicolon => .finish (.done none s)
    | .letKw => .after .letBinding none s fun st s => .finish (.done (some st) s)
    | _ =>
      .after (.expression .lowest) none s fun e s => .finish (.done (some (.expr e e.span)) s)
  | .loopPart close, s =>
    if s.kind == close then .finish (.done none s)
    else .after (.expression .lowest) none s fun e s => .finish (.done (some e) s)
  | .block, s =>
    ((s.expect .lbrace).within .block).plan fun start s =>
    .after (.statements .block) none s fun ss s =>
    ((s.expect .rbrace).within .block).plan fun stop s => .finish (.done ⟨ss, start.merge stop⟩ s)
  | .statements scope, s =>
    if s.stops scope then .finish (.done [] s)
    else
      .attempt s
        (fun st s' => .after (.statements scope) none s' fun ss s => .finish (.done (st :: ss) s))
        (fun e s' =>
          .after (.statements scope) none ((s'.report e).recover scope s.cursor.position)
            fun ss s => .finish (.done ss s))

/-! ### Carrying out the plan -/

namespace Outcome

variable {γ : Type}

@[simp] theorem done_andThen (r : α) (s : State) (next : α → State → Outcome β) :
    (Outcome.done r s).andThen next = next r s := rfl

@[simp] theorem andThen_done (o : Outcome α) : (o.andThen fun r s => .done r s) = o := by
  cases o <;> rfl

theorem andThen_assoc (o : Outcome α) (f : α → State → Outcome β) (g : β → State → Outcome γ) :
    (o.andThen f).andThen g = o.andThen fun r s => (f r s).andThen g := by
  cases o <;> rfl

/-- What follows matters only after constructs that have been read. -/
theorem andThen_congr {o : Outcome α} {f g : α → State → Outcome β}
    (h : ∀ r s, o = .done r s → f r s = g r s) : o.andThen f = o.andThen g := by
  cases o with
  | done r s => exact h r s rfl
  | failed | outOfFuel => rfl

/-- An error in any part of a construct is inside of it. -/
theorem within_andThen (c : Construct) (o : Outcome α) (next : α → State → Outcome β) :
    (o.andThen next).within c = (o.within c).andThen fun r s => (next r s).within c := by
  cases o <;> rfl

theorem run_plan (rec : (p : Production) → State → Outcome p.Result) (o : Outcome α)
    (next : α → State → Plan β) :
    (o.plan next).run rec = o.andThen fun r s => (next r s).run rec := by
  cases o <;> rfl

end Outcome

section

variable (n : Nat)

theorem operand_succ (s : State) :
    Parser.operand (n + 1) s = (operandPlan s).run fun p s => p.read n s := by
  rw [Parser.operand, operandPlan]
  cases s.kind <;>
    simp only [Plan.run, Production.read, Outcome.inside, id, Outcome.andThen_done] <;> rfl

theorem extension_succ (x : Extension) (left : Expr) (s : State) :
    Parser.extension (n + 1) x left s = (extensionPlan left s x).run fun p s => p.read n s := by
  cases x with
  | index =>
    rw [Parser.extension, Outcome.within_andThen, Outcome.andThen_assoc]
    refine Outcome.andThen_congr fun place s' _ => ?_
    rw [Outcome.run_plan, Outcome.map, Outcome.within_andThen, Outcome.andThen_assoc]
    rfl
  | call | assign | binary => rfl

theorem function_succ (s : State) :
    Parser.function (n + 1) s = (functionPlan s).run fun p s => p.read n s := by
  rw [Parser.function, params, Outcome.within_andThen, Outcome.andThen_assoc, functionPlan,
    Outcome.run_plan]
  refine Outcome.andThen_congr fun _ s' _ => ?_
  by_cases h : s'.kind == .rparen
  · simp only [h, if_true]
    rfl
  · simp only [h]
    rfl

theorem conditional_succ (s : State) :
    Parser.conditional (n + 1) s = (conditionalPlan s).run fun p s => p.read n s := by
  rw [Parser.conditional, conditionalPlan, Outcome.run_plan]
  refine Outcome.andThen_congr fun _ s₁ _ => Outcome.andThen_congr fun test s₂ _ => ?_
  rw [Outcome.run_plan]
  refine Outcome.andThen_congr fun _ s₃ _ => Outcome.andThen_congr fun thenBlock s₄ _ => ?_
  dsimp only
  split <;> rfl

theorem paramNames_succ (s : State) :
    Parser.paramNames (n + 1) s = (Production.paramNames.plan s).run fun p s => p.read n s := by
  rw [Parser.paramNames, Production.plan, Outcome.run_plan]
  refine Outcome.andThen_congr fun name s' _ => ?_
  split
  · rfl
  · rw [Outcome.run_plan]
    rfl

theorem expressionsFrom_succ (close : TokenKind) (s : State) :
    Parser.expressionsFrom (n + 1) close s =
      ((Production.expressionsFrom close).plan s).run fun p s => p.read n s := by
  rw [Parser.expressionsFrom]
  refine Outcome.andThen_congr fun e s' _ => ?_
  dsimp only
  split
  · rfl
  · rw [Outcome.run_plan]
    rfl

theorem entries_succ (s : State) :
    Parser.entries (n + 1) s = (Production.entries.plan s).run fun p s => p.read n s := by
  rw [Parser.entries, Production.plan]
  split
  · rfl
  refine Outcome.andThen_congr fun key s₁ _ => ?_
  rw [Outcome.run_plan]
  refine Outcome.andThen_congr fun _ s₂ _ => Outcome.andThen_congr fun value s₃ _ => ?_
  dsimp only
  split <;> rfl

theorem statement_succ (s : State) :
    Parser.statement (n + 1) s = (statementPlan s).run fun p s => p.read n s := by
  rw [Parser.statement, statementPlan]
  cases s.kind with
  | returnKw | forKw =>
    simp only [Plan.run, Production.read, Outcome.inside, Outcome.andThen_done]
  | _ => rfl

theorem letBinding_succ (s : State) :
    Parser.letBinding (n + 1) s = (Production.letBinding.plan s).run fun p s => p.read n s := by
  rw [Parser.letBinding, Production.plan, Outcome.run_plan]
  refine Outcome.andThen_congr fun name s₁ _ => ?_
  rw [Outcome.run_plan]
  rfl

theorem forLoop_succ (s : State) :
    Parser.forLoop (n + 1) s = (forLoopPlan s).run fun p s => p.read n s := by
  rw [Parser.forLoop, forLoopPlan, Outcome.run_plan]
  refine Outcome.andThen_congr fun _ s₁ _ => Outcome.andThen_congr fun init s₂ _ => ?_
  rw [Outcome.run_plan]
  refine Outcome.andThen_congr fun _ s₃ _ => Outcome.andThen_congr fun test s₄ _ => ?_
  rw [Outcome.run_plan]
  refine Outcome.andThen_congr fun _ s₅ _ => Outcome.andThen_congr fun after s₆ _ => ?_
  rw [Outcome.run_plan]
  rfl

theorem block_succ (s : State) :
    Parser.block (n + 1) s = (Production.block.plan s).run fun p s => p.read n s := by
  rw [Parser.block, Production.plan, Outcome.run_plan]
  refine Outcome.andThen_congr fun start s₁ _ => Outcome.andThen_congr fun ss s₂ _ => ?_
  rw [Outcome.run_plan]
  rfl

theorem statements_succ (scope : Scope) (s : State) :
    Parser.statements (n + 1) scope s =
      ((Production.statements scope).plan s).run fun p s => p.read n s := by
  rw [Parser.statements, Production.plan]
  split
  · rfl
  simp only [Plan.run, Production.read, Outcome.inside, Outcome.andThen_done]
  rfl

/-- Reading in one more step carries out the plan of the production. -/
theorem Production.read_succ (p : Production) (s : State) :
    p.read (n + 1) s = (p.plan s).run fun p s => p.read n s := by
  cases p with
  | expression => simp only [read, Parser.expression, plan, Plan.run, Outcome.inside,
      Outcome.andThen_done]
  | operators min left =>
    simp only [read, Parser.operators, plan]
    cases Extension.ofToken? s.kind with
    | none => rfl
    | some x =>
      dsimp only
      split
      · simp only [Plan.run, Outcome.inside, Outcome.andThen_done]
      · rfl
  | extension x left => exact extension_succ n x left s
  | operand => exact operand_succ n s
  | grouping =>
    simp only [read, Parser.grouping, plan]
    refine Outcome.andThen_congr fun inner s' _ => ?_
    rw [Outcome.run_plan]
    rfl
  | conditional => exact conditional_succ n s
  | function => exact function_succ n s
  | paramNames => exact paramNames_succ n s
  | hashLiteral =>
    simp only [read, Parser.hashLiteral, plan]
    refine Outcome.andThen_congr fun es s' _ => ?_
    rw [Outcome.run_plan]
    rfl
  | expressions close =>
    simp only [read, Parser.expressions, plan]
    split
    · rfl
    · simp only [Plan.run, Outcome.inside, Outcome.andThen_done]
  | expressionsFrom close => exact expressionsFrom_succ n close s
  | entries => exact entries_succ n s
  | statement => exact statement_succ n s
  | letBinding => exact letBinding_succ n s
  | forLoop => exact forLoop_succ n s
  | loopInit =>
    simp only [read, Parser.loopInit, plan]
    cases s.kind <;> rfl
  | loopPart close =>
    simp only [read, Parser.loopPart, plan]
    split <;> rfl
  | block => exact block_succ n s
  | statements scope => exact statements_succ n scope s
  | unary | arrayLiteral | returnStatement => rfl

end

/-! ### What is read on the way -/

/-- `P` holds of a production that the plan comes to, and of the state there. -/
def Plan.Any (rec : (p : Production) → State → Outcome p.Result)
    (P : Production → State → Prop) : Plan α → Prop
  | .finish _ => False
  | .after p _ s next =>
    P p s ∨
      match rec p s with
      | .done r s => (next r s).Any rec P
      | _ => False
  | .attempt s next broken =>
    P .statement s ∨
      match rec .statement s with
      | .done st s => (next st s).Any rec P
      | .failed e s => (broken e s).Any rec P
      | .outOfFuel => False

/-- `P` holds of some production that is read while `p` is read from `s` in `n` steps, be it `p`
itself, of the number of steps that are left for it and of the state that it is read from. -/
def Production.Meets (P : Nat → Production → State → Prop) : Nat → Production → State → Prop
  | 0, p, s => P 0 p s
  | n + 1, p, s =>
    P (n + 1) p s ∨ (p.plan s).Any (fun p s => p.read n s) (Production.Meets P n)

end MonkeyLang.Parser
