import MonkeyLang.Program
import MonkeyLang.Program.ParseError
import MonkeyLang.Program.Precedence
import MonkeyLang.Token.Lexer

/-!
# The parser

Tokens are read into a program from left to right. Expressions are read by binding power: an operand,
then everything after it that binds tighter than what stands before it.

A statement that cannot be read is reported and skipped, up to the next place where a statement can
start, and reading goes on there. So every independent mistake in a source is reported in one go.
Inside a block the skipping stays inside the block.

Reading recurses on a bound for the number of steps, which `Parser.enough` takes from the number of
tokens: between two tokens there is only a fixed number of steps.

## Main definitions

* `Parser.statements` : the statements of a program or a block, with skipping.
* `Program.ofTokens`, `Program.ofSource` : the program that can be read and the errors.
-/

namespace MonkeyLang

namespace Parser

/-- How far reading has come, and what has been reported. -/
structure State where
  /-- The place in the tokens. -/
  cursor : Cursor
  /-- The errors so far, in the order in which they were found. -/
  errors : List ParseError

/-- How reading a construct ended. -/
inductive Outcome (α : Type) where
  /-- The construct has been read. -/
  | done (result : α) (state : State)
  /-- The construct cannot be read, because of the error. -/
  | failed (error : ParseError) (state : State)
  /-- The bound on the number of steps was too small. -/
  | outOfFuel

namespace Outcome

variable {α β : Type}

/-- Goes on after a construct that has been read. -/
@[inline] def andThen (o : Outcome α) (next : α → State → Outcome β) : Outcome β :=
  match o with
  | .done result state => next result state
  | .failed error state => .failed error state
  | .outOfFuel => .outOfFuel

/-- Applies `f` to the construct that has been read. -/
@[inline] def map (f : α → β) (o : Outcome α) : Outcome β :=
  o.andThen fun result state => .done (f result) state

/-- Places an error inside `construct`, unless a construct further in is known. -/
@[inline] def within (o : Outcome α) (construct : Construct) : Outcome α :=
  match o with
  | .failed error state => .failed (error.within construct) state
  | o => o

end Outcome

namespace State

/-- The kind of the current token. -/
def kind (s : State) : TokenKind := s.cursor.kind

/-- The span of the current token. -/
def span (s : State) : Span := s.cursor.span

/-- The span of the token consumed last. -/
def previous (s : State) : Span := s.cursor.previous

/-- Consumes the current token. -/
def advance (s : State) : State := { s with cursor := s.cursor.advance }

/-- Consumes the current token if it is of the kind `k`. -/
def skipOne (s : State) (k : TokenKind) : State := if s.kind == k then s.advance else s

/-- Consumes a token of the kind `k` and answers its span. -/
def expect (s : State) (k : TokenKind) : Outcome Span :=
  if s.kind == k then .done s.span s.advance
  else .failed (.unexpected s.cursor k.displayName) s

/-- Consumes an identifier and answers it. -/
def expectIdent (s : State) : Outcome String :=
  match s.kind with
  | .ident name => .done name s.advance
  | _ => .failed (.unexpected s.cursor "identifier") s

/-- Reports an error, unless one with the same span has been reported. -/
def report (s : State) (e : ParseError) : State :=
  if s.errors.any (·.span == e.span) then s else { s with errors := s.errors ++ [e] }

end State

/-! ### Skipping -/

/-- Where the statements stand that are being read. -/
inductive Scope where
  /-- At the top of the program. -/
  | program
  /-- Between braces. -/
  | block
  deriving DecidableEq

/-- The place where reading goes on after a broken statement, `depth` braces deep in it: behind a
semicolon, before a keyword that starts a statement, or before the brace that closes the block.
Inside braces that the broken statement has opened none of them counts. -/
def resume (scope : Scope) (depth position : Nat) (previous : Span) : List Token → Cursor
  | [] => ⟨position, previous, []⟩
  | t :: ts =>
    match t.kind, depth with
    | .eof, _ => ⟨position, previous, t :: ts⟩
    | .semicolon, 0 => ⟨position + 1, t.span, ts⟩
    | .letKw, 0 | .returnKw, 0 | .forKw, 0 => ⟨position, previous, t :: ts⟩
    | .lbrace, depth => resume scope (depth + 1) (position + 1) t.span ts
    | .rbrace, depth + 1 => resume scope depth (position + 1) t.span ts
    | .rbrace, 0 =>
      match scope with
      | .block => ⟨position, previous, t :: ts⟩
      | .program => resume scope 0 (position + 1) t.span ts
    | _, depth => resume scope depth (position + 1) t.span ts

/-- Skips the rest of a broken statement that began at the position `start`. At least one token is
consumed on the way, by the statement or here. -/
def State.recover (s : State) (scope : Scope) (start : Nat) : State :=
  let c := if s.cursor.position = start then s.cursor.advance else s.cursor
  { s with cursor := resume scope 0 c.position c.previous c.rest }

/-- Whether no further statement is to be read. -/
def State.stops (s : State) (scope : Scope) : Bool :=
  s.kind == .eof || (scope == .block && s.kind == .rbrace)

/-! ### The grammar -/

/-- The parameters after the opening parenthesis, when there are any. -/
def paramNames : Nat → State → Outcome (List String)
  | 0, _ => .outOfFuel
  | n + 1, s =>
    s.expectIdent.andThen fun name s =>
      if s.kind == .comma then (paramNames n s.advance).map (name :: ·)
      else (s.expect .rparen).map fun _ => [name]

/-- The parameters of a function literal, with their parentheses. -/
def params (n : Nat) (s : State) : Outcome (List String) :=
  (s.expect .lparen).andThen fun _ s =>
    if s.kind == .rparen then .done [] s.advance else paramNames n s

mutual

/-- An expression, as far as everything in it binds tighter than `min`. -/
def expression : Nat → Precedence → State → Outcome Expr
  | 0, _, _ => .outOfFuel
  | n + 1, min, s => (operand n s).andThen fun left s => operators n min left s

/-- Goes on with the expression `left`, as far as it is bound tighter than by `min`. -/
def operators : Nat → Precedence → Expr → State → Outcome Expr
  | 0, _, _, _ => .outOfFuel
  | n + 1, min, left, s =>
    match Extension.ofToken? s.kind with
    | none => .done left s
    | some x =>
      if min.rank < x.precedence.rank then
        (extension n x left s.advance).andThen fun left s => operators n min left s
      else .done left s

/-- Goes on with the expression `left` in the way `x`, whose first token has been consumed. -/
def extension : Nat → Extension → Expr → State → Outcome Expr
  | 0, _, _, _ => .outOfFuel
  | n + 1, .call, callee, s =>
    ((expressions n .rparen s).within .functionCall).andThen fun args s =>
      .done (.call callee args (callee.span.merge s.previous)) s
  | n + 1, .index, base, s =>
    (((expression n .lowest s).andThen fun place s =>
        (s.expect .rbracket).map fun _ => place).within .indexExpression).andThen fun place s =>
      .done (.index base place (base.span.merge s.previous)) s
  | n + 1, .assign, target, s =>
    (expression n .lowest s).map fun value =>
      .assign target value (target.span.merge value.span)
  | n + 1, .binary op, left, s =>
    (expression n (Extension.binary op).precedence s).map fun right =>
      .binary op left right (left.span.merge right.span)

/-- An expression without anything after it that binds it. -/
def operand : Nat → State → Outcome Expr
  | 0, _ => .outOfFuel
  | n + 1, s =>
    match s.kind with
    | .int value => .done (.int value s.span) s.advance
    | .str text => .done (.str text s.span) s.advance
    | .ident name => .done (.ident name s.span) s.advance
    | .trueKw => .done (.bool true s.span) s.advance
    | .falseKw => .done (.bool false s.span) s.advance
    | .bang => unary n .not s
    | .minus => unary n .neg s
    | .lparen => (grouping n s).within .grouping
    | .ifKw => (conditional n s).within .ifExpression
    | .fnKw => (function n s).within .functionLiteral
    | .lbracket => (arrayLiteral n s).within .arrayLiteral
    | .lbrace => (hashLiteral n s).within .hashLiteral
    | k =>
      if k.isReserved then
        .failed { cause := .reservedKeyword k.displayName, span := s.span } s
      else .failed ((ParseError.unexpected s.cursor "expression").within .expression) s

/-- A prefix operator and its operand. -/
def unary : Nat → UnaryOp → State → Outcome Expr
  | 0, _, _ => .outOfFuel
  | n + 1, op, s =>
    (expression n .unary s.advance).map fun e => .unary op e (s.span.merge e.span)

/-- An expression in parentheses, whose span they belong to. -/
def grouping : Nat → State → Outcome Expr
  | 0, _ => .outOfFuel
  | n + 1, s =>
    (expression n .lowest s.advance).andThen fun inner s' =>
      (s'.expect .rparen).map fun close => inner.withSpan (s.span.merge close)

/-- `if (c) { … } else { … }`, where the second block may be missing. -/
def conditional : Nat → State → Outcome Expr
  | 0, _ => .outOfFuel
  | n + 1, s =>
    (s.advance.expect .lparen).andThen fun _ s' =>
    (expression n .lowest s').andThen fun test s' =>
    (s'.expect .rparen).andThen fun _ s' =>
    (block n s').andThen fun thenBlock s' =>
      if s'.kind == .elseKw then
        (block n s'.advance).map fun elseBlock =>
          .cond test thenBlock (some elseBlock) (s.span.merge elseBlock.span)
      else .done (.cond test thenBlock none (s.span.merge thenBlock.span)) s'

/-- `fn(x, y) { … }`. -/
def function : Nat → State → Outcome Expr
  | 0, _ => .outOfFuel
  | n + 1, s =>
    ((params n s.advance).within .functionParams).andThen fun names s' =>
      (block n s').map fun body =>
        let bare := s.span.merge body.span
        .function names body bare bare

/-- `[a, b]`. -/
def arrayLiteral : Nat → State → Outcome Expr
  | 0, _ => .outOfFuel
  | n + 1, s =>
    (expressions n .rbracket s.advance).andThen fun items s' =>
      .done (.array items (s.span.merge s'.previous)) s'

/-- `{k: v, l: w}`; a comma may follow the last entry. -/
def hashLiteral : Nat → State → Outcome Expr
  | 0, _ => .outOfFuel
  | n + 1, s =>
    (entries n s.advance).andThen fun es s' =>
      (s'.expect .rbrace).map fun close => .hash es (s.span.merge close)

/-- Expressions with commas between them, up to and with the token `close`. -/
def expressions : Nat → TokenKind → State → Outcome (List Expr)
  | 0, _, _ => .outOfFuel
  | n + 1, close, s =>
    if s.kind == close then .done [] s.advance else expressionsFrom n close s

/-- As `expressions`, when there is at least one. -/
def expressionsFrom : Nat → TokenKind → State → Outcome (List Expr)
  | 0, _, _ => .outOfFuel
  | n + 1, close, s =>
    (expression n .lowest s).andThen fun e s =>
      if s.kind == .comma then (expressionsFrom n close s.advance).map (e :: ·)
      else (s.expect close).map fun _ => [e]

/-- The entries of a hash literal, up to but without its closing brace. -/
def entries : Nat → State → Outcome (List (Expr × Expr))
  | 0, _ => .outOfFuel
  | n + 1, s =>
    if s.kind == .rbrace then .done [] s
    else
      (expression n .lowest s).andThen fun key s =>
      (s.expect .colon).andThen fun _ s =>
      (expression n .lowest s).andThen fun value s =>
        if s.kind == .comma then (entries n s.advance).map ((key, value) :: ·)
        else .done [(key, value)] s

/-- A statement, with its semicolon if there is one. -/
def statement : Nat → State → Outcome Stmt
  | 0, _ => .outOfFuel
  | n + 1, s =>
    match s.kind with
    | .letKw =>
      ((letBinding n s).within .letStatement).andThen fun binding s =>
        .done binding (s.skipOne .semicolon)
    | .returnKw => (returnStatement n s).within .returnStatement
    | .forKw => (forLoop n s).within .forLoop
    | _ =>
      (expression n .lowest s).andThen fun e s => .done (.expr e e.span) (s.skipOne .semicolon)

/-- `let x = v`, without a semicolon. -/
def letBinding : Nat → State → Outcome Stmt
  | 0, _ => .outOfFuel
  | n + 1, s =>
    s.advance.expectIdent.andThen fun name s' =>
    (s'.expect .assign).andThen fun _ s' =>
      (expression n .lowest s').map fun value => .letBind name value (s.span.merge value.span)

/-- `return v`, with its semicolon if there is one. -/
def returnStatement : Nat → State → Outcome Stmt
  | 0, _ => .outOfFuel
  | n + 1, s =>
    (expression n .lowest s.advance).andThen fun value s' =>
      let s' := s'.skipOne .semicolon
      .done (.ret value (s.span.merge s'.previous)) s'

/-- `for (i; c; a) { … }`; a semicolon may follow. -/
def forLoop : Nat → State → Outcome Stmt
  | 0, _ => .outOfFuel
  | n + 1, s =>
    (s.advance.expect .lparen).andThen fun _ s' =>
    (loopInit n s').andThen fun init s' =>
    (s'.expect .semicolon).andThen fun _ s' =>
    (loopPart n .semicolon s').andThen fun test s' =>
    (s'.expect .semicolon).andThen fun _ s' =>
    (loopPart n .rparen s').andThen fun after s' =>
    (s'.expect .rparen).andThen fun _ s' =>
    (block n s').andThen fun body s' =>
      .done (.forLoop init test after body (s.span.merge body.span)) (s'.skipOne .semicolon)

/-- The first part of a loop's header, which may be missing. -/
def loopInit : Nat → State → Outcome (Option Stmt)
  | 0, _ => .outOfFuel
  | n + 1, s =>
    match s.kind with
    | .semicolon => .done none s
    | .letKw => (letBinding n s).map some
    | _ => (expression n .lowest s).map fun e => some (.expr e e.span)

/-- A later part of a loop's header, which is missing if `close` comes at once. -/
def loopPart : Nat → TokenKind → State → Outcome (Option Expr)
  | 0, _, _ => .outOfFuel
  | n + 1, close, s =>
    if s.kind == close then .done none s else (expression n .lowest s).map some

/-- `{ … }`. Only a brace that is missing makes the block itself fail. -/
def block : Nat → State → Outcome Block
  | 0, _ => .outOfFuel
  | n + 1, s =>
    ((s.expect .lbrace).within .block).andThen fun start s =>
    (statements n .block s).andThen fun ss s =>
      ((s.expect .rbrace).within .block).map fun stop => ⟨ss, start.merge stop⟩

/-- The statements up to the end of their scope. One that cannot be read is reported and skipped. -/
def statements : Nat → Scope → State → Outcome (List Stmt)
  | 0, _, _ => .outOfFuel
  | n + 1, scope, s =>
    if s.stops scope then .done [] s
    else
      match statement n s with
      | .done st s' => (statements n scope s').map (st :: ·)
      | .failed e s' => statements n scope ((s'.report e).recover scope s.cursor.position)
      | .outOfFuel => .outOfFuel

end

/-- A number of steps that is enough for the given tokens. -/
def enough (tokens : List Token) : Nat := 8 * tokens.length + 16

end Parser

/-- A program, and the errors found while it was read. -/
structure Parsed where
  /-- The statements that could be read. -/
  program : Program
  /-- The errors, in the order of their places in the source. -/
  errors : List ParseError

/-- Whether there is any error. -/
def Parsed.hasErrors (p : Parsed) : Bool := !p.errors.isEmpty

namespace Program

/-- Reads the tokens in at most `fuel` steps, after the errors `reported` have been reported. -/
def parse? (fuel : Nat) (tokens : List Token) (reported : List ParseError) : Option Parsed :=
  match Parser.statements fuel .program ⟨.ofTokens tokens, reported⟩ with
  | .done program s =>
    some ⟨program, s.errors.mergeSort fun d e => decide (d.span.start ≤ e.span.start)⟩
  | _ => none

/-- The program that the tokens make up, and the errors, after `reported`. -/
def parse (tokens : List Token) (reported : List ParseError) : Parsed :=
  (parse? (Parser.enough tokens) tokens reported).getD ⟨[], reported⟩

/-- The program that the tokens make up, and the errors. -/
def ofTokens (tokens : List Token) : Parsed := parse tokens []

/-- The program that `source` contains, and the errors in its spelling and its structure. -/
def ofSource (source : String) : Parsed :=
  let lexed := lex source
  parse lexed.tokens (lexed.errors.map ParseError.ofLexError)

end Program

end MonkeyLang
