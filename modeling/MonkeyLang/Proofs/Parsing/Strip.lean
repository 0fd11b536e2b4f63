import MonkeyLang.Program

/-!
# Programs up to spans

`strip` takes every span out of a tree. Two trees are equal up to spans when what is left of them is
equal, so a statement about a program that does not speak of its places is one about `strip`.
-/

namespace MonkeyLang

mutual

/-- The expression without its spans. -/
def Expr.strip : Expr → Expr
  | .int value _ => .int value .nowhere
  | .bool value _ => .bool value .nowhere
  | .str text _ => .str text .nowhere
  | .ident name _ => .ident name .nowhere
  | .array items _ => .array (Expr.stripAll items) .nowhere
  | .hash entries _ => .hash (Expr.stripEntries entries) .nowhere
  | .unary op operand _ => .unary op operand.strip .nowhere
  | .binary op left right _ => .binary op left.strip right.strip .nowhere
  | .cond test thenBlock elseBlock _ =>
    .cond test.strip thenBlock.strip (Block.stripPart elseBlock) .nowhere
  | .function params body _ _ => .function params body.strip .nowhere .nowhere
  | .call callee args _ => .call callee.strip (Expr.stripAll args) .nowhere
  | .index base place _ => .index base.strip place.strip .nowhere
  | .assign target value _ => .assign target.strip value.strip .nowhere

/-- The expressions without their spans. -/
def Expr.stripAll : List Expr → List Expr
  | [] => []
  | e :: es => e.strip :: Expr.stripAll es

/-- The entries of a hash literal without their spans. -/
def Expr.stripEntries : List (Expr × Expr) → List (Expr × Expr)
  | [] => []
  | (key, value) :: entries => (key.strip, value.strip) :: Expr.stripEntries entries

/-- A part of a loop's header without its spans. -/
def Expr.stripPart : Option Expr → Option Expr
  | none => none
  | some e => some e.strip

/-- The statement without its spans. -/
def Stmt.strip : Stmt → Stmt
  | .letBind name value _ => .letBind name value.strip .nowhere
  | .ret value _ => .ret value.strip .nowhere
  | .expr value _ => .expr value.strip .nowhere
  | .forLoop init test after body _ =>
    .forLoop (Stmt.stripPart init) (Expr.stripPart test) (Expr.stripPart after) body.strip .nowhere

/-- The first part of a loop's header without its spans. -/
def Stmt.stripPart : Option Stmt → Option Stmt
  | none => none
  | some s => some s.strip

/-- The statements without their spans. -/
def Stmt.stripAll : List Stmt → List Stmt
  | [] => []
  | s :: ss => s.strip :: Stmt.stripAll ss

/-- The block without its spans. -/
def Block.strip : Block → Block
  | ⟨statements, _⟩ => ⟨Stmt.stripAll statements, .nowhere⟩

/-- The second block of an `if` expression without its spans. -/
def Block.stripPart : Option Block → Option Block
  | none => none
  | some b => some b.strip

end

/-- The program without its spans. -/
def Program.strip (p : Program) : Program := Stmt.stripAll p

/-- The span of an expression is no part of what is left of it. -/
@[simp] theorem Expr.strip_withSpan (s : Span) (e : Expr) : (e.withSpan s).strip = e.strip := by
  cases e with
  | cond test thenBlock elseBlock span => simp only [withSpan, strip]
  | _ => rfl

mutual

/-- There are no spans left to take out. -/
@[simp] theorem Expr.strip_strip (e : Expr) : e.strip.strip = e.strip := by
  match e with
  | .int .. | .bool .. | .str .. | .ident .. => simp only [Expr.strip]
  | .array items _ => simp only [Expr.strip, Expr.stripAll_stripAll items]
  | .hash entries _ => simp only [Expr.strip, Expr.stripEntries_stripEntries entries]
  | .unary _ operand _ => simp only [Expr.strip, operand.strip_strip]
  | .binary _ left right _ => simp only [Expr.strip, left.strip_strip, right.strip_strip]
  | .cond test thenBlock none _ =>
    simp only [Expr.strip, Block.stripPart, test.strip_strip, thenBlock.strip_strip]
  | .cond test thenBlock (some elseBlock) _ =>
    simp only [Expr.strip, Block.stripPart, test.strip_strip, thenBlock.strip_strip,
      elseBlock.strip_strip]
  | .function _ body _ _ => simp only [Expr.strip, body.strip_strip]
  | .call callee args _ => simp only [Expr.strip, callee.strip_strip, Expr.stripAll_stripAll args]
  | .index base place _ => simp only [Expr.strip, base.strip_strip, place.strip_strip]
  | .assign target value _ => simp only [Expr.strip, target.strip_strip, value.strip_strip]

@[simp] theorem Expr.stripAll_stripAll (es : List Expr) :
    Expr.stripAll (Expr.stripAll es) = Expr.stripAll es := by
  match es with
  | [] => rfl
  | e :: es => simp only [Expr.stripAll, e.strip_strip, Expr.stripAll_stripAll es]

@[simp] theorem Expr.stripEntries_stripEntries (es : List (Expr × Expr)) :
    Expr.stripEntries (Expr.stripEntries es) = Expr.stripEntries es := by
  match es with
  | [] => rfl
  | (key, value) :: es =>
    simp only [Expr.stripEntries, key.strip_strip, value.strip_strip,
      Expr.stripEntries_stripEntries es]

@[simp] theorem Expr.stripPart_stripPart (p : Option Expr) :
    Expr.stripPart (Expr.stripPart p) = Expr.stripPart p := by
  match p with
  | none => rfl
  | some e => simp only [Expr.stripPart, e.strip_strip]

@[simp] theorem Stmt.strip_strip (s : Stmt) : s.strip.strip = s.strip := by
  match s with
  | .letBind _ value _ | .ret value _ | .expr value _ => simp only [Stmt.strip, value.strip_strip]
  | .forLoop init test after body _ =>
    simp only [Stmt.strip, Stmt.stripPart_stripPart init, Expr.stripPart_stripPart test,
      Expr.stripPart_stripPart after, body.strip_strip]

@[simp] theorem Stmt.stripPart_stripPart (p : Option Stmt) :
    Stmt.stripPart (Stmt.stripPart p) = Stmt.stripPart p := by
  match p with
  | none => rfl
  | some s => simp only [Stmt.stripPart, s.strip_strip]

@[simp] theorem Stmt.stripAll_stripAll (ss : List Stmt) :
    Stmt.stripAll (Stmt.stripAll ss) = Stmt.stripAll ss := by
  match ss with
  | [] => rfl
  | s :: ss => simp only [Stmt.stripAll, s.strip_strip, Stmt.stripAll_stripAll ss]

@[simp] theorem Block.strip_strip (b : Block) : b.strip.strip = b.strip := by
  match b with
  | ⟨statements, _⟩ => simp only [Block.strip, Stmt.stripAll_stripAll statements]

end

end MonkeyLang
