import MonkeyLang.Proofs.Parsing.Strip
import MonkeyLang.Token

/-!
# The grammar

The sentences of the language, as lists of token kinds, with the trees that they stand for. Trees
carry no spans here: every span is `Span.nowhere`.

    program    = stmt*
    stmt       = "let" ident "=" A [";"] | "return" A [";"] | A [";"]
               | "for" "(" [ "let" ident "=" A | A ] ";" [A] ";" [A] ")" block [";"]
    block      = "{" stmt* "}"
    A          = Q | Q "=" A
    Q, L, S, P = the left-associative levels of == !=, of < >, of + - and of * /
    U          = "!" U | "-" U | X
    X          = atom | X "(" args ")" | X "[" A "]"

A statement other than a loop that lacks its semicolon must not be followed by a token that goes on
with an expression. This is the only thing that the grammar says about neighbours, and it keeps
`f (x)` from being two statements.

## Main definitions

* `Grammar.Layer` : the layers `A` to `X` of expressions.
* `Grammar.Expression`, `Grammar.Statement`, `Grammar.Statements` : the derivations.
-/

namespace MonkeyLang.Grammar

/-- The layers of expressions, from the loosest to the tightest. -/
inductive Layer where
  /-- `A`: assignments. -/
  | assignment
  /-- `Q`: tests for equality. -/
  | equality
  /-- `L`: comparisons. -/
  | order
  /-- `S`: sums and differences. -/
  | sum
  /-- `P`: products and quotients. -/
  | product
  /-- `U`: prefix operators. -/
  | unary
  /-- `X`: atoms, calls and index expressions. -/
  | suffix
  deriving DecidableEq

/-- The layer on which a layer is built; the tightest layer is built on itself. -/
def Layer.tighter : Layer → Layer
  | .assignment => .equality
  | .equality => .order
  | .order => .sum
  | .sum => .product
  | .product => .unary
  | .unary | .suffix => .suffix

/-- The infix operator of a layer that a token stands for. -/
def Layer.operator? : Layer → TokenKind → Option BinaryOp
  | .equality, .eqEq => some .eq
  | .equality, .notEq => some .notEq
  | .order, .lt => some .lt
  | .order, .gt => some .gt
  | .sum, .plus => some .add
  | .sum, .minus => some .sub
  | .product, .star => some .mul
  | .product, .slash => some .div
  | _, _ => none

/-- Whether an expression that comes before the token would go on with it. -/
def continues : TokenKind → Bool
  | .lparen | .lbracket | .assign | .eqEq | .notEq | .lt | .gt | .plus | .minus | .star
  | .slash => true
  | _ => false

/-- Whether a statement is a loop, which ends with its block. -/
def isLoop : Stmt → Bool
  | .forLoop .. => true
  | _ => false

/-- The parameters of a function, between the parentheses, when there are any. -/
inductive Names : List TokenKind → List String → Prop where
  /-- One parameter. -/
  | one {x : String} : Names [.ident x] [x]
  /-- A parameter, and more after a comma. -/
  | more {x : String} {ks : List TokenKind} {xs : List String} :
      Names ks xs → Names (.ident x :: .comma :: ks) (x :: xs)

/-- The parameters of a function, between the parentheses. -/
inductive Params : List TokenKind → List String → Prop where
  /-- No parameters. -/
  | none : Params [] []
  /-- Parameters with commas between them. -/
  | some {ks : List TokenKind} {xs : List String} : Names ks xs → Params ks xs

mutual

/-- `Expression l ks e`: the tokens `ks` are an expression of the layer `l` with the tree `e`. -/
inductive Expression : Layer → List TokenKind → Expr → Prop where
  /-- A layer holds all that the next one holds. -/
  | tighter {l : Layer} {ks : List TokenKind} {e : Expr} :
      Expression l.tighter ks e → Expression l ks e
  /-- `t = v`. -/
  | assign {ks ls : List TokenKind} {t v : Expr} :
      Expression .equality ks t → Expression .assignment ls v →
      Expression .assignment (ks ++ .assign :: ls) (.assign t v .nowhere)
  /-- `a + b` and the like: on the left the same layer, on the right the next. -/
  | binary {l : Layer} {k : TokenKind} {op : BinaryOp} {ks ls : List TokenKind} {a b : Expr} :
      l.operator? k = some op → Expression l ks a → Expression l.tighter ls b →
      Expression l (ks ++ k :: ls) (.binary op a b .nowhere)
  /-- `!a`. -/
  | not {ks : List TokenKind} {e : Expr} :
      Expression .unary ks e → Expression .unary (.bang :: ks) (.unary .not e .nowhere)
  /-- `-a`. -/
  | neg {ks : List TokenKind} {e : Expr} :
      Expression .unary ks e → Expression .unary (.minus :: ks) (.unary .neg e .nowhere)
  /-- `f(a, b)`. -/
  | call {ks ls : List TokenKind} {f : Expr} {args : List Expr} :
      Expression .suffix ks f → Items ls args →
      Expression .suffix (ks ++ .lparen :: (ls ++ [.rparen])) (.call f args .nowhere)
  /-- `b[i]`. -/
  | index {ks ls : List TokenKind} {b i : Expr} :
      Expression .suffix ks b → Expression .assignment ls i →
      Expression .suffix (ks ++ .lbracket :: (ls ++ [.rbracket])) (.index b i .nowhere)
  /-- An integer literal. -/
  | int {v : Int64} : Expression .suffix [.int v] (.int v .nowhere)
  /-- A string literal. -/
  | str {t : String} : Expression .suffix [.str t] (.str t .nowhere)
  /-- An identifier. -/
  | ident {x : String} : Expression .suffix [.ident x] (.ident x .nowhere)
  /-- `true`. -/
  | true : Expression .suffix [.trueKw] (.bool true .nowhere)
  /-- `false`. -/
  | false : Expression .suffix [.falseKw] (.bool false .nowhere)
  /-- `(a)`, which has the tree of `a`. -/
  | group {ks : List TokenKind} {e : Expr} :
      Expression .assignment ks e → Expression .suffix (.lparen :: (ks ++ [.rparen])) e
  /-- `if (c) { … }`. -/
  | cond {ks bs : List TokenKind} {c : Expr} {b : Block} :
      Expression .assignment ks c → Braces bs b →
      Expression .suffix (.ifKw :: .lparen :: (ks ++ .rparen :: bs)) (.cond c b none .nowhere)
  /-- `if (c) { … } else { … }`. -/
  | condElse {ks bs ds : List TokenKind} {c : Expr} {b d : Block} :
      Expression .assignment ks c → Braces bs b → Braces ds d →
      Expression .suffix (.ifKw :: .lparen :: (ks ++ .rparen :: (bs ++ .elseKw :: ds)))
        (.cond c b (some d) .nowhere)
  /-- `fn(x, y) { … }`. -/
  | function {ps bs : List TokenKind} {xs : List String} {b : Block} :
      Params ps xs → Braces bs b →
      Expression .suffix (.fnKw :: .lparen :: (ps ++ .rparen :: bs))
        (.function xs b .nowhere .nowhere)
  /-- `[a, b]`. -/
  | array {ks : List TokenKind} {es : List Expr} :
      Items ks es → Expression .suffix (.lbracket :: (ks ++ [.rbracket])) (.array es .nowhere)
  /-- `{k: v, l: w}`. -/
  | hash {ks : List TokenKind} {es : List (Expr × Expr)} :
      Entries ks es → Expression .suffix (.lbrace :: (ks ++ [.rbrace])) (.hash es .nowhere)

/-- At least one expression, with commas between them. -/
inductive Items1 : List TokenKind → List Expr → Prop where
  /-- One expression. -/
  | one {ks : List TokenKind} {e : Expr} : Expression .assignment ks e → Items1 ks [e]
  /-- An expression, and more after a comma. -/
  | more {ks ls : List TokenKind} {e : Expr} {es : List Expr} :
      Expression .assignment ks e → Items1 ls es → Items1 (ks ++ .comma :: ls) (e :: es)

/-- Expressions with commas between them, possibly none. -/
inductive Items : List TokenKind → List Expr → Prop where
  /-- No expression. -/
  | none : Items [] []
  /-- At least one. -/
  | some {ks : List TokenKind} {es : List Expr} : Items1 ks es → Items ks es

/-- The entries of a hash literal. A comma may follow the last one. -/
inductive Entries : List TokenKind → List (Expr × Expr) → Prop where
  /-- No entry. -/
  | none : Entries [] []
  /-- An entry without a comma. -/
  | one {ks ls : List TokenKind} {k v : Expr} :
      Expression .assignment ks k → Expression .assignment ls v →
      Entries (ks ++ .colon :: ls) [(k, v)]
  /-- An entry with a comma, and possibly more after it. -/
  | more {ks ls ms : List TokenKind} {k v : Expr} {es : List (Expr × Expr)} :
      Expression .assignment ks k → Expression .assignment ls v → Entries ms es →
      Entries (ks ++ .colon :: (ls ++ .comma :: ms)) ((k, v) :: es)

/-- `{ … }`. -/
inductive Braces : List TokenKind → Block → Prop where
  /-- Statements between braces. -/
  | mk {ks : List TokenKind} {ss : List Stmt} :
      Statements ks ss → Braces (.lbrace :: (ks ++ [.rbrace])) ⟨ss, .nowhere⟩

/-- The first part of a loop's header. -/
inductive Init : List TokenKind → Option Stmt → Prop where
  /-- Nothing. -/
  | none : Init [] none
  /-- `let x = v`. -/
  | letBind {x : String} {ks : List TokenKind} {e : Expr} :
      Expression .assignment ks e →
      Init (.letKw :: .ident x :: .assign :: ks) (some (.letBind x e .nowhere))
  /-- An expression. -/
  | expr {ks : List TokenKind} {e : Expr} :
      Expression .assignment ks e → Init ks (some (.expr e .nowhere))

/-- A later part of a loop's header. -/
inductive Part : List TokenKind → Option Expr → Prop where
  /-- Nothing. -/
  | none : Part [] none
  /-- An expression. -/
  | some {ks : List TokenKind} {e : Expr} : Expression .assignment ks e → Part ks (some e)

/-- A statement without its semicolon. -/
inductive Statement : List TokenKind → Stmt → Prop where
  /-- `let x = v`. -/
  | letBind {x : String} {ks : List TokenKind} {e : Expr} :
      Expression .assignment ks e →
      Statement (.letKw :: .ident x :: .assign :: ks) (.letBind x e .nowhere)
  /-- `return v`. -/
  | ret {ks : List TokenKind} {e : Expr} :
      Expression .assignment ks e → Statement (.returnKw :: ks) (.ret e .nowhere)
  /-- An expression. -/
  | expr {ks : List TokenKind} {e : Expr} :
      Expression .assignment ks e → Statement ks (.expr e .nowhere)
  /-- `for (i; c; a) { … }`. -/
  | forLoop {is cs as bs : List TokenKind} {i : Option Stmt} {c a : Option Expr} {b : Block} :
      Init is i → Part cs c → Part as a → Braces bs b →
      Statement
        (.forKw :: .lparen :: (is ++ .semicolon :: (cs ++ .semicolon :: (as ++ .rparen :: bs))))
        (.forLoop i c a b .nowhere)

/-- The statements of a program or of a block. -/
inductive Statements : List TokenKind → List Stmt → Prop where
  /-- No statement. -/
  | nil : Statements [] []
  /-- A statement with its semicolon, and the others. -/
  | closed {ks ls : List TokenKind} {s : Stmt} {ss : List Stmt} :
      Statement ks s → Statements ls ss → Statements (ks ++ .semicolon :: ls) (s :: ss)
  /-- A statement without its semicolon, and the others. Unless it is a loop, the first token of
  the others must not go on with it; what may follow the last statement never does. -/
  | bare {ks ls : List TokenKind} {s : Stmt} {ss : List Stmt} :
      Statement ks s → Statements ls ss → (isLoop s = false → ∀ k ∈ ls.head?, continues k = false) →
      Statements (ks ++ ls) (s :: ss)

end

end MonkeyLang.Grammar
