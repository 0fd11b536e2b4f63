import MonkeyLang.Operator
import MonkeyLang.Span

/-!
# Programs

The tree of a program: statements, blocks of statements and expressions. Every node knows the span
of the source that it was read from.

An assignment may have any expression as its target here. Only identifiers and index expressions can
be assigned to, which evaluation checks.

## Main definitions

* `Expr`, `Stmt`, `Block`, `Program`.
* `Expr.span`, `Stmt.span` : the span of a node.
* `Expr.withSpan` : the node with another span, for an expression in parentheses.
-/

namespace MonkeyLang

mutual

/-- Expressions. -/
inductive Expr where
  /-- An integer literal. -/
  | int (value : Int64) (span : Span)
  /-- `true` or `false`. -/
  | bool (value : Bool) (span : Span)
  /-- A string literal, with its escapes resolved. -/
  | str (text : String) (span : Span)
  /-- An identifier. -/
  | ident (name : String) (span : Span)
  /-- `[a, b]`. -/
  | array (items : List Expr) (span : Span)
  /-- `{k: v, l: w}`, with the entries in source order. -/
  | hash (entries : List (Expr × Expr)) (span : Span)
  /-- `!a` or `-a`. -/
  | unary (op : UnaryOp) (operand : Expr) (span : Span)
  /-- `a + b` and the like. -/
  | binary (op : BinaryOp) (left right : Expr) (span : Span)
  /-- `if (c) { … } else { … }`, where the second block may be missing. -/
  | cond (test : Expr) (thenBlock : Block) (elseBlock : Option Block) (span : Span)
  /-- `fn(x, y) { … }`; `bare` is the span of the literal alone, which parentheses do not widen. -/
  | function (params : List String) (body : Block) (bare span : Span)
  /-- `f(a, b)`. -/
  | call (callee : Expr) (args : List Expr) (span : Span)
  /-- `b[i]`. -/
  | index (base place : Expr) (span : Span)
  /-- `t = v`. -/
  | assign (target value : Expr) (span : Span)

/-- Statements. -/
inductive Stmt where
  /-- `let x = v;`. -/
  | letBind (name : String) (value : Expr) (span : Span)
  /-- `return v;`. -/
  | ret (value : Expr) (span : Span)
  /-- An expression, whose value is that of the statement. -/
  | expr (value : Expr) (span : Span)
  /-- `for (i; c; a) { … }`, where each part of the header may be missing. -/
  | forLoop (init : Option Stmt) (test after : Option Expr) (body : Block) (span : Span)

/-- Statements between braces. -/
inductive Block where
  /-- The statements of the block, and its span with the braces. -/
  | mk (statements : List Stmt) (span : Span)

end

instance : Inhabited Expr := ⟨.bool false .nowhere⟩

instance : Inhabited Stmt := ⟨.expr default .nowhere⟩

instance : Inhabited Block := ⟨⟨[], .nowhere⟩⟩

/-- The statements of a program, in order. -/
abbrev Program := List Stmt

namespace Expr

/-- The bytes that the expression takes up, with its parentheses. -/
def span : Expr → Span
  | .int _ s => s
  | .bool _ s => s
  | .str _ s => s
  | .ident _ s => s
  | .array _ s => s
  | .hash _ s => s
  | .unary _ _ s => s
  | .binary _ _ _ s => s
  | .cond _ _ _ s => s
  | .function _ _ _ s => s
  | .call _ _ s => s
  | .index _ _ s => s
  | .assign _ _ s => s

/-- The same expression with the span `s`. -/
def withSpan (s : Span) : Expr → Expr
  | .int value _ => .int value s
  | .bool value _ => .bool value s
  | .str text _ => .str text s
  | .ident name _ => .ident name s
  | .array items _ => .array items s
  | .hash entries _ => .hash entries s
  | .unary op operand _ => .unary op operand s
  | .binary op left right _ => .binary op left right s
  | .cond test thenBlock elseBlock _ => .cond test thenBlock elseBlock s
  | .function params body bare _ => .function params body bare s
  | .call callee args _ => .call callee args s
  | .index base place _ => .index base place s
  | .assign target value _ => .assign target value s

@[simp] theorem span_withSpan (s : Span) (e : Expr) : (e.withSpan s).span = s := by
  cases e <;> rfl

end Expr

/-- The bytes that the statement takes up. The semicolon counts only for `return`. -/
def Stmt.span : Stmt → Span
  | .letBind _ _ s => s
  | .ret _ s => s
  | .expr _ s => s
  | .forLoop _ _ _ _ s => s

namespace Block

/-- The statements of the block. -/
def statements : Block → List Stmt
  | ⟨statements, _⟩ => statements

/-- The bytes that the block takes up, with its braces. -/
def span : Block → Span
  | ⟨_, span⟩ => span

end Block

end MonkeyLang
