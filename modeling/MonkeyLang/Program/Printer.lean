import MonkeyLang.Program
import MonkeyLang.Text.Quoted
import MonkeyLang.Text.Separated

/-!
# Canonical form

The text of a program in canonical form: one statement on a line, one blank around infix operators
and after commas, and parentheses around every prefix operation, infix operation, index expression
and assignment, so that the grouping can be read off. `let` and `return` are written with their
semicolon, an expression without.

## Main definitions

* `Expr.display`, `Stmt.display`, `Block.display` : the canonical form of a node.
* `Program.display` : the canonical form of a program.
-/

namespace MonkeyLang

mutual

/-- The canonical form of an expression. -/
def Expr.display : Expr → String
  | .int value _ => toString value.toInt
  | .bool value _ => toString value
  | .str text _ => Quoted.text text
  | .ident name _ => name
  | .array items _ => "[" ++ separated ", " (Expr.displayAll items) ++ "]"
  | .hash entries _ => "\x7b" ++ separated ", " (Expr.displayEntries entries) ++ "\x7d"
  | .unary op operand _ => "(" ++ op.symbol ++ operand.display ++ ")"
  | .binary op left right _ =>
    "(" ++ left.display ++ " " ++ op.symbol ++ " " ++ right.display ++ ")"
  | .cond test thenBlock none _ => "if (" ++ test.display ++ ") " ++ thenBlock.display
  | .cond test thenBlock (some elseBlock) _ =>
    "if (" ++ test.display ++ ") " ++ thenBlock.display ++ " else " ++ elseBlock.display
  | .function params body _ _ => "fn(" ++ separated ", " params ++ ") " ++ body.display
  | .call callee args _ => callee.display ++ "(" ++ separated ", " (Expr.displayAll args) ++ ")"
  | .index base place _ => "(" ++ base.display ++ "[" ++ place.display ++ "])"
  | .assign target value _ => "(" ++ target.display ++ " = " ++ value.display ++ ")"

/-- The canonical forms of expressions. -/
def Expr.displayAll : List Expr → List String
  | [] => []
  | e :: es => e.display :: Expr.displayAll es

/-- The canonical forms of the entries of a hash literal. -/
def Expr.displayEntries : List (Expr × Expr) → List String
  | [] => []
  | (key, value) :: entries =>
    (key.display ++ ": " ++ value.display) :: Expr.displayEntries entries

/-- The canonical form of a statement. -/
def Stmt.display : Stmt → String
  | .letBind name value _ => "let " ++ name ++ " = " ++ value.display ++ ";"
  | .ret value _ => "return " ++ value.display ++ ";"
  | .expr value _ => value.display
  | .forLoop init test after body _ =>
    "for (" ++ Stmt.displayInit init ++ Expr.displayPart test ++ ";" ++ Expr.displayPart after ++
      ") " ++ body.display

/-- The first part of a loop's header with its semicolon, which `let` brings along. -/
def Stmt.displayInit : Option Stmt → String
  | none => ";"
  | some (.letBind name value _) => "let " ++ name ++ " = " ++ value.display ++ ";"
  | some init => init.display ++ ";"

/-- A later part of a loop's header, after a blank if there is one. -/
def Expr.displayPart : Option Expr → String
  | none => ""
  | some e => " " ++ e.display

/-- The canonical form of a block. -/
def Block.display : Block → String
  | ⟨[], _⟩ => "\x7b \x7d"
  | ⟨statements, _⟩ => "\x7b " ++ separated " " (Stmt.displayAll statements) ++ " \x7d"

/-- The canonical forms of statements. -/
def Stmt.displayAll : List Stmt → List String
  | [] => []
  | s :: ss => s.display :: Stmt.displayAll ss

end

/-- The canonical form of a program: one statement on a line. -/
def Program.display (p : Program) : String := separated "\n" (Stmt.displayAll p)

end MonkeyLang
