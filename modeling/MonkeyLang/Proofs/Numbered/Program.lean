import MonkeyLang.Program

/-!
# Numbered programs

The tree of a program in which numbers stand for names and for the texts of string literals. It is
made with a numbering of texts, which matters only at the texts that the program holds. Numbered
programs have no spans.

## Main definitions

* `Numbered.Expr`, `Numbered.Stmt` : the trees.
* `Expr.numbered`, `Stmt.numbered` : the numbered tree of a tree.
* `Expr.names`, `Stmt.names` : the texts that a tree holds.

## Main statements

* `Stmt.numberedAll_congr` : what the numbered tree depends on.
-/

namespace MonkeyLang

namespace Numbered

mutual

/-- Expressions. -/
inductive Expr where
  /-- An integer literal. -/
  | int (value : Int64)
  /-- `true` or `false`. -/
  | bool (value : Bool)
  /-- A string literal. -/
  | str (text : Nat)
  /-- An identifier. -/
  | ident (name : Nat)
  /-- `[a, b]`. -/
  | array (items : List Expr)
  /-- `{k: v, l: w}`. -/
  | hash (entries : List (Expr × Expr))
  /-- `!a` or `-a`. -/
  | unary (op : UnaryOp) (operand : Expr)
  /-- `a + b` and the like. -/
  | binary (op : BinaryOp) (left right : Expr)
  /-- `if (c) { … } else { … }`, where the second block may be missing. -/
  | cond (test : Expr) (thenBlock : List Stmt) (elseBlock : Option (List Stmt))
  /-- `fn(x, y) { … }`. -/
  | function (params : List Nat) (body : List Stmt)
  /-- `f(a, b)`. -/
  | call (callee : Expr) (args : List Expr)
  /-- `b[i]`. -/
  | index (base place : Expr)
  /-- `t = v`. -/
  | assign (target value : Expr)

/-- Statements. -/
inductive Stmt where
  /-- `let x = v;`. -/
  | letBind (name : Nat) (value : Expr)
  /-- `return v;`. -/
  | ret (value : Expr)
  /-- An expression, whose value is that of the statement. -/
  | expr (value : Expr)
  /-- `for (i; c; a) { … }`, where each part of the header may be missing. -/
  | forLoop (init : Option Stmt) (test after : Option Expr) (body : List Stmt)

end

end Numbered

/-! ### The numbered tree of a tree -/

section

variable (num : String → Nat)

mutual

/-- The expression with the numbers of its texts. -/
def Expr.numbered : Expr → Numbered.Expr
  | .int value _ => .int value
  | .bool value _ => .bool value
  | .str text _ => .str (num text)
  | .ident name _ => .ident (num name)
  | .array items _ => .array (Expr.numberedAll items)
  | .hash entries _ => .hash (Expr.numberedEntries entries)
  | .unary op operand _ => .unary op operand.numbered
  | .binary op left right _ => .binary op left.numbered right.numbered
  | .cond test thenBlock elseBlock _ =>
    .cond test.numbered thenBlock.numbered (Block.numberedPart elseBlock)
  | .function params body _ _ => .function (params.map num) body.numbered
  | .call callee args _ => .call callee.numbered (Expr.numberedAll args)
  | .index base place _ => .index base.numbered place.numbered
  | .assign target value _ => .assign target.numbered value.numbered

/-- The expressions with the numbers of their texts. -/
def Expr.numberedAll : List Expr → List Numbered.Expr
  | [] => []
  | e :: es => e.numbered :: Expr.numberedAll es

/-- The entries of a hash literal with the numbers of their texts. -/
def Expr.numberedEntries : List (Expr × Expr) → List (Numbered.Expr × Numbered.Expr)
  | [] => []
  | (key, value) :: entries => (key.numbered, value.numbered) :: Expr.numberedEntries entries

/-- A part of a loop's header with the numbers of its texts. -/
def Expr.numberedPart : Option Expr → Option Numbered.Expr
  | none => none
  | some e => some e.numbered

/-- The statement with the numbers of its texts. -/
def Stmt.numbered : Stmt → Numbered.Stmt
  | .letBind name value _ => .letBind (num name) value.numbered
  | .ret value _ => .ret value.numbered
  | .expr value _ => .expr value.numbered
  | .forLoop init test after body _ =>
    .forLoop (Stmt.numberedPart init) (Expr.numberedPart test) (Expr.numberedPart after)
      body.numbered

/-- The first part of a loop's header with the numbers of its texts. -/
def Stmt.numberedPart : Option Stmt → Option Numbered.Stmt
  | none => none
  | some s => some s.numbered

/-- The statements with the numbers of their texts. -/
def Stmt.numberedAll : List Stmt → List Numbered.Stmt
  | [] => []
  | s :: ss => s.numbered :: Stmt.numberedAll ss

/-- The statements of a block with the numbers of their texts. -/
def Block.numbered : Block → List Numbered.Stmt
  | ⟨statements, _⟩ => Stmt.numberedAll statements

/-- The second block of an `if` expression with the numbers of its texts. -/
def Block.numberedPart : Option Block → Option (List Numbered.Stmt)
  | none => none
  | some b => some b.numbered

end

end

/-! ### The texts of a tree -/

mutual

/-- The names in an expression and the texts of its string literals. -/
def Expr.names : Expr → List String
  | .int .. | .bool .. => []
  | .str text _ => [text]
  | .ident name _ => [name]
  | .array items _ => Expr.namesAll items
  | .hash entries _ => Expr.namesEntries entries
  | .unary _ operand _ => operand.names
  | .binary _ left right _ => left.names ++ right.names
  | .cond test thenBlock elseBlock _ =>
    test.names ++ (thenBlock.names ++ Block.namesPart elseBlock)
  | .function params body _ _ => params ++ body.names
  | .call callee args _ => callee.names ++ Expr.namesAll args
  | .index base place _ => base.names ++ place.names
  | .assign target value _ => target.names ++ value.names

/-- The texts in expressions. -/
def Expr.namesAll : List Expr → List String
  | [] => []
  | e :: es => e.names ++ Expr.namesAll es

/-- The texts in the entries of a hash literal. -/
def Expr.namesEntries : List (Expr × Expr) → List String
  | [] => []
  | (key, value) :: entries => key.names ++ (value.names ++ Expr.namesEntries entries)

/-- The texts in a part of a loop's header. -/
def Expr.namesPart : Option Expr → List String
  | none => []
  | some e => e.names

/-- The texts in a statement. -/
def Stmt.names : Stmt → List String
  | .letBind name value _ => name :: value.names
  | .ret value _ => value.names
  | .expr value _ => value.names
  | .forLoop init test after body _ =>
    Stmt.namesPart init ++ (Expr.namesPart test ++ (Expr.namesPart after ++ body.names))

/-- The texts in the first part of a loop's header. -/
def Stmt.namesPart : Option Stmt → List String
  | none => []
  | some s => s.names

/-- The texts in statements. -/
def Stmt.namesAll : List Stmt → List String
  | [] => []
  | s :: ss => s.names ++ Stmt.namesAll ss

/-- The texts in a block. -/
def Block.names : Block → List String
  | ⟨statements, _⟩ => Stmt.namesAll statements

/-- The texts in the second block of an `if` expression. -/
def Block.namesPart : Option Block → List String
  | none => []
  | some b => b.names

end

@[simp] theorem Block.numberedAll_statements (num : String → Nat) (b : Block) :
    Stmt.numberedAll num b.statements = b.numbered num := by
  cases b
  rfl

@[simp] theorem Block.namesAll_statements (b : Block) :
    Stmt.namesAll b.statements = b.names := by
  cases b
  rfl

/-! ### Numberings that agree -/

section

variable {num num' : String → Nat}

mutual

theorem Expr.numbered_congr {e : Expr} (h : ∀ x ∈ e.names, num x = num' x) :
    e.numbered num = e.numbered num' := by
  match e with
  | .int .. | .bool .. => rfl
  | .str x _ => exact congrArg Numbered.Expr.str (h x List.mem_cons_self)
  | .ident x _ => exact congrArg Numbered.Expr.ident (h x List.mem_cons_self)
  | .array items _ => exact congrArg Numbered.Expr.array (Expr.numberedAll_congr h)
  | .hash entries _ => exact congrArg Numbered.Expr.hash (Expr.numberedEntries_congr h)
  | .unary op operand _ => exact congrArg (Numbered.Expr.unary op) (Expr.numbered_congr h)
  | .binary _ left right _ | .index left right _ | .assign left right _ =>
    simp only [Expr.names, List.forall_mem_append] at h
    simp only [Expr.numbered, Expr.numbered_congr h.1, Expr.numbered_congr h.2]
  | .cond test thenBlock none _ =>
    simp only [Expr.names, List.forall_mem_append] at h
    simp only [Expr.numbered, Block.numberedPart, Expr.numbered_congr h.1,
      Block.numbered_congr h.2.1]
  | .cond test thenBlock (some elseBlock) _ =>
    simp only [Expr.names, Block.namesPart, List.forall_mem_append] at h
    simp only [Expr.numbered, Block.numberedPart, Expr.numbered_congr h.1,
      Block.numbered_congr h.2.1, Block.numbered_congr h.2.2]
  | .function params body _ _ =>
    simp only [Expr.names, List.forall_mem_append] at h
    simp only [Expr.numbered, List.map_congr_left h.1, Block.numbered_congr h.2]
  | .call callee args _ =>
    simp only [Expr.names, List.forall_mem_append] at h
    simp only [Expr.numbered, Expr.numbered_congr h.1, Expr.numberedAll_congr h.2]

theorem Expr.numberedAll_congr {es : List Expr} (h : ∀ x ∈ Expr.namesAll es, num x = num' x) :
    Expr.numberedAll num es = Expr.numberedAll num' es := by
  match es with
  | [] => rfl
  | e :: es =>
    simp only [Expr.namesAll, List.forall_mem_append] at h
    simp only [Expr.numberedAll, Expr.numbered_congr h.1, Expr.numberedAll_congr h.2]

theorem Expr.numberedEntries_congr {es : List (Expr × Expr)}
    (h : ∀ x ∈ Expr.namesEntries es, num x = num' x) :
    Expr.numberedEntries num es = Expr.numberedEntries num' es := by
  match es with
  | [] => rfl
  | (key, value) :: es =>
    simp only [Expr.namesEntries, List.forall_mem_append] at h
    simp only [Expr.numberedEntries, Expr.numbered_congr h.1, Expr.numbered_congr h.2.1,
      Expr.numberedEntries_congr h.2.2]

theorem Expr.numberedPart_congr {p : Option Expr} (h : ∀ x ∈ Expr.namesPart p, num x = num' x) :
    Expr.numberedPart num p = Expr.numberedPart num' p := by
  match p with
  | none => rfl
  | some e => exact congrArg some (Expr.numbered_congr h)

theorem Stmt.numbered_congr {s : Stmt} (h : ∀ x ∈ s.names, num x = num' x) :
    s.numbered num = s.numbered num' := by
  match s with
  | .letBind x value _ =>
    simp only [Stmt.names, List.forall_mem_cons] at h
    simp only [Stmt.numbered, h.1, Expr.numbered_congr h.2]
  | .ret value _ => exact congrArg Numbered.Stmt.ret (Expr.numbered_congr h)
  | .expr value _ => exact congrArg Numbered.Stmt.expr (Expr.numbered_congr h)
  | .forLoop init test after body _ =>
    simp only [Stmt.names, List.forall_mem_append] at h
    simp only [Stmt.numbered, Stmt.numberedPart_congr h.1, Expr.numberedPart_congr h.2.1,
      Expr.numberedPart_congr h.2.2.1, Block.numbered_congr h.2.2.2]

theorem Stmt.numberedPart_congr {p : Option Stmt} (h : ∀ x ∈ Stmt.namesPart p, num x = num' x) :
    Stmt.numberedPart num p = Stmt.numberedPart num' p := by
  match p with
  | none => rfl
  | some s => exact congrArg some (Stmt.numbered_congr h)

theorem Stmt.numberedAll_congr {ss : List Stmt} (h : ∀ x ∈ Stmt.namesAll ss, num x = num' x) :
    Stmt.numberedAll num ss = Stmt.numberedAll num' ss := by
  match ss with
  | [] => rfl
  | s :: ss =>
    simp only [Stmt.namesAll, List.forall_mem_append] at h
    simp only [Stmt.numberedAll, Stmt.numbered_congr h.1, Stmt.numberedAll_congr h.2]

theorem Block.numbered_congr {b : Block} (h : ∀ x ∈ b.names, num x = num' x) :
    b.numbered num = b.numbered num' := by
  match b with
  | ⟨statements, _⟩ => exact Stmt.numberedAll_congr h

end

end

end MonkeyLang
