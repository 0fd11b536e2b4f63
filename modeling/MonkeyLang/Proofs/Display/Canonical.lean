import MonkeyLang.Proofs.Lexing.Words
import MonkeyLang.Proofs.Parsing.Kinds
import MonkeyLang.Text.NonPrinting

/-!
# The words of the canonical form

The tokens that the canonical form of a program is meant to consist of, and the two ways in which
the form can fail to say what it means.

A string literal is written with escapes that the language does not know, unless all of its
characters are plain. And an expression is a statement without a semicolon, so it runs on into the
next statement if that starts with a parenthesis or a bracket.

## Main definitions

* `Expr.tokens`, `Stmt.tokens` : the words of a node in canonical form.
* `PlainWords` : whether all string literals have plain characters only.
* `Expr.clashes`, `Stmt.clashes` : the places where an expression runs on into the next statement.
* `Expr.Writable`, `Stmt.Writable` : the trees whose words are words of the language.
-/

namespace MonkeyLang

open Grammar

/-- The lists of tokens with commas between them. -/
def commaSeparated : List (List TokenKind) → List TokenKind
  | [] => []
  | [ks] => ks
  | ks :: kss => ks ++ .comma :: commaSeparated kss

/-- The word that an infix operator is written with. -/
def BinaryOp.token : BinaryOp → TokenKind
  | .add => .plus
  | .sub => .minus
  | .mul => .star
  | .div => .slash
  | .eq => .eqEq
  | .notEq => .notEq
  | .lt => .lt
  | .gt => .gt

mutual

/-- The words of an expression in canonical form. -/
def Expr.tokens : Expr → List TokenKind
  | .int value _ => [.int value]
  | .bool true _ => [.trueKw]
  | .bool false _ => [.falseKw]
  | .str text _ => [.str text]
  | .ident name _ => [.ident name]
  | .array items _ => .lbracket :: (commaSeparated (Expr.tokensEach items) ++ [.rbracket])
  | .hash entries _ => .lbrace :: (commaSeparated (Expr.tokensEntries entries) ++ [.rbrace])
  | .unary op operand _ => .lparen :: op.token :: (operand.tokens ++ [.rparen])
  | .binary op left right _ =>
    .lparen :: (left.tokens ++ op.token :: (right.tokens ++ [.rparen]))
  | .cond test thenBlock none _ =>
    .ifKw :: .lparen :: (test.tokens ++ .rparen :: thenBlock.tokens)
  | .cond test thenBlock (some elseBlock) _ =>
    .ifKw :: .lparen :: (test.tokens ++ .rparen :: (thenBlock.tokens ++ .elseKw :: elseBlock.tokens))
  | .function params body _ _ =>
    .fnKw :: .lparen :: (commaSeparated (params.map ([.ident ·])) ++ .rparen :: body.tokens)
  | .call callee args _ =>
    callee.tokens ++ .lparen :: (commaSeparated (Expr.tokensEach args) ++ [.rparen])
  | .index base place _ =>
    .lparen :: (base.tokens ++ .lbracket :: (place.tokens ++ [.rbracket, .rparen]))
  | .assign target value _ =>
    .lparen :: (target.tokens ++ .assign :: (value.tokens ++ [.rparen]))

/-- The words of each of the expressions. -/
def Expr.tokensEach : List Expr → List (List TokenKind)
  | [] => []
  | e :: es => e.tokens :: Expr.tokensEach es

/-- The words of each of the entries of a hash literal. -/
def Expr.tokensEntries : List (Expr × Expr) → List (List TokenKind)
  | [] => []
  | (key, value) :: entries =>
    (key.tokens ++ .colon :: value.tokens) :: Expr.tokensEntries entries

/-- The words of a later part of a loop's header. -/
def Expr.tokensPart : Option Expr → List TokenKind
  | none => []
  | some e => e.tokens

/-- The words of a statement in canonical form. -/
def Stmt.tokens : Stmt → List TokenKind
  | .letBind name value _ => .letKw :: .ident name :: .assign :: (value.tokens ++ [.semicolon])
  | .ret value _ => .returnKw :: (value.tokens ++ [.semicolon])
  | .expr value _ => value.tokens
  | .forLoop init test after body _ =>
    .forKw :: .lparen :: (Stmt.tokensInit init ++ (Expr.tokensPart test ++ .semicolon ::
      (Expr.tokensPart after ++ .rparen :: body.tokens)))

/-- The words of the first part of a loop's header, with its semicolon. -/
def Stmt.tokensInit : Option Stmt → List TokenKind
  | none => [.semicolon]
  | some (.letBind name value _) =>
    .letKw :: .ident name :: .assign :: (value.tokens ++ [.semicolon])
  | some init => init.tokens ++ [.semicolon]

/-- The words of a block in canonical form. -/
def Block.tokens : Block → List TokenKind
  | ⟨statements, _⟩ => .lbrace :: (Stmt.tokensAll statements ++ [.rbrace])

/-- The words of statements in canonical form. -/
def Stmt.tokensAll : List Stmt → List TokenKind
  | [] => []
  | s :: ss => s.tokens ++ Stmt.tokensAll ss

end

/-! ### What can go wrong -/

/-- Whether a character stands for itself in a string literal in canonical form, or is written with
an escape that the language knows. -/
def PlainChar (c : Char) : Prop := c = '\t' ∨ c = '\n' ∨ NonPrinting.isNonPrinting c = false

/-- Whether the string literals among the words have plain characters only. -/
def PlainWords (ks : List TokenKind) : Prop := ∀ t, .str t ∈ ks → ∀ c ∈ t.toList, PlainChar c

/-- Whether the statement is an expression, which is written without a semicolon. -/
def Stmt.isExpr : Stmt → Bool
  | .expr .. => true
  | _ => false

/-- Whether the statement, written before the words `ks`, runs on into them. -/
def Stmt.clashesWith (s : Stmt) (ks : List TokenKind) : Bool := s.isExpr && ks.head?.any continues

mutual

/-- The number of places in an expression where a statement runs on into the next one. -/
def Expr.clashes : Expr → Nat
  | .int .. | .bool .. | .str .. | .ident .. => 0
  | .array items _ => Expr.clashesAll items
  | .hash entries _ => Expr.clashesEntries entries
  | .unary _ operand _ => operand.clashes
  | .binary _ left right _ => left.clashes + right.clashes
  | .cond test thenBlock none _ => test.clashes + thenBlock.clashes
  | .cond test thenBlock (some elseBlock) _ =>
    test.clashes + thenBlock.clashes + elseBlock.clashes
  | .function _ body _ _ => body.clashes
  | .call callee args _ => callee.clashes + Expr.clashesAll args
  | .index base place _ => base.clashes + place.clashes
  | .assign target value _ => target.clashes + value.clashes

/-- As `Expr.clashes`, in all of the expressions. -/
def Expr.clashesAll : List Expr → Nat
  | [] => 0
  | e :: es => e.clashes + Expr.clashesAll es

/-- As `Expr.clashes`, in all keys and values. -/
def Expr.clashesEntries : List (Expr × Expr) → Nat
  | [] => 0
  | (key, value) :: entries => key.clashes + value.clashes + Expr.clashesEntries entries

/-- As `Expr.clashes`, in a later part of a loop's header. -/
def Expr.clashesPart : Option Expr → Nat
  | none => 0
  | some e => e.clashes

/-- As `Expr.clashes`, inside a statement. -/
def Stmt.clashes : Stmt → Nat
  | .letBind _ value _ | .ret value _ | .expr value _ => value.clashes
  | .forLoop init test after body _ =>
    Stmt.clashesPart init + Expr.clashesPart test + Expr.clashesPart after + body.clashes

/-- As `Expr.clashes`, in the first part of a loop's header. -/
def Stmt.clashesPart : Option Stmt → Nat
  | none => 0
  | some s => s.clashes

/-- As `Expr.clashes`, in a block. -/
def Block.clashes : Block → Nat
  | ⟨statements, _⟩ => Stmt.clashesAll statements

/-- The number of places in the statements or between them where a statement runs on into the next
one. -/
def Stmt.clashesAll : List Stmt → Nat
  | [] => 0
  | s :: ss =>
    s.clashes + Stmt.clashesAll ss + if s.clashesWith (Stmt.tokensAll ss) then 1 else 0

end

/-! ### Trees that can be written -/

/-- Whether the text is an identifier. -/
def IsIdentifier (x : String) : Prop := Lexical.Spells x.toList (.ident x)

mutual

/-- The expressions whose words are words of the language. -/
inductive Expr.Writable : Expr → Prop where
  | int {v : Int64} {s : Span} : 0 ≤ v.toInt → Expr.Writable (.int v s)
  | bool {b : Bool} {s : Span} : Expr.Writable (.bool b s)
  | str {t : String} {s : Span} : Expr.Writable (.str t s)
  | ident {x : String} {s : Span} : IsIdentifier x → Expr.Writable (.ident x s)
  | array {es : List Expr} {s : Span} : Expr.WritableAll es → Expr.Writable (.array es s)
  | hash {es : List (Expr × Expr)} {s : Span} : Expr.WritableEntries es → Expr.Writable (.hash es s)
  | unary {op : UnaryOp} {e : Expr} {s : Span} : Expr.Writable e → Expr.Writable (.unary op e s)
  | binary {op : BinaryOp} {a b : Expr} {s : Span} :
      Expr.Writable a → Expr.Writable b → Expr.Writable (.binary op a b s)
  | cond {c : Expr} {b : Block} {s : Span} :
      Expr.Writable c → Block.Writable b → Expr.Writable (.cond c b none s)
  | condElse {c : Expr} {b d : Block} {s : Span} :
      Expr.Writable c → Block.Writable b → Block.Writable d → Expr.Writable (.cond c b (some d) s)
  | function {xs : List String} {b : Block} {s t : Span} :
      (∀ x ∈ xs, IsIdentifier x) → Block.Writable b → Expr.Writable (.function xs b s t)
  | call {f : Expr} {args : List Expr} {s : Span} :
      Expr.Writable f → Expr.WritableAll args → Expr.Writable (.call f args s)
  | index {b i : Expr} {s : Span} : Expr.Writable b → Expr.Writable i → Expr.Writable (.index b i s)
  | assign {t v : Expr} {s : Span} : Expr.Writable t → Expr.Writable v → Expr.Writable (.assign t v s)

/-- Expressions, all of which are writable. -/
inductive Expr.WritableAll : List Expr → Prop where
  | nil : Expr.WritableAll []
  | cons {e : Expr} {es : List Expr} :
      Expr.Writable e → Expr.WritableAll es → Expr.WritableAll (e :: es)

/-- Entries of a hash literal, all of whose keys and values are writable. -/
inductive Expr.WritableEntries : List (Expr × Expr) → Prop where
  | nil : Expr.WritableEntries []
  | cons {k v : Expr} {es : List (Expr × Expr)} :
      Expr.Writable k → Expr.Writable v → Expr.WritableEntries es →
        Expr.WritableEntries ((k, v) :: es)

/-- A later part of a loop's header that is writable or missing. -/
inductive Expr.WritablePart : Option Expr → Prop where
  | none : Expr.WritablePart none
  | some {e : Expr} : Expr.Writable e → Expr.WritablePart (some e)

/-- The statements whose words are words of the language. -/
inductive Stmt.Writable : Stmt → Prop where
  | letBind {x : String} {v : Expr} {s : Span} :
      IsIdentifier x → Expr.Writable v → Stmt.Writable (.letBind x v s)
  | ret {v : Expr} {s : Span} : Expr.Writable v → Stmt.Writable (.ret v s)
  | expr {v : Expr} {s : Span} : Expr.Writable v → Stmt.Writable (.expr v s)
  | forLoop {i : Option Stmt} {t a : Option Expr} {b : Block} {s : Span} :
      Stmt.WritableInit i → Expr.WritablePart t → Expr.WritablePart a → Block.Writable b →
        Stmt.Writable (.forLoop i t a b s)

/-- A first part of a loop's header that is a binding, an expression or missing. -/
inductive Stmt.WritableInit : Option Stmt → Prop where
  | none : Stmt.WritableInit none
  | letBind {x : String} {v : Expr} {s : Span} :
      IsIdentifier x → Expr.Writable v → Stmt.WritableInit (some (.letBind x v s))
  | expr {v : Expr} {s : Span} : Expr.Writable v → Stmt.WritableInit (some (.expr v s))

/-- Blocks of writable statements. -/
inductive Block.Writable : Block → Prop where
  | mk {ss : List Stmt} {s : Span} : Stmt.WritableAll ss → Block.Writable ⟨ss, s⟩

/-- Statements, all of which are writable. -/
inductive Stmt.WritableAll : List Stmt → Prop where
  | nil : Stmt.WritableAll []
  | cons {s : Stmt} {ss : List Stmt} :
      Stmt.Writable s → Stmt.WritableAll ss → Stmt.WritableAll (s :: ss)

end

end MonkeyLang
