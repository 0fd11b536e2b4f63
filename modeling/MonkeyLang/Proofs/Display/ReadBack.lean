import MonkeyLang.Proofs.Display.Derived
import MonkeyLang.Proofs.Display.Joints
import MonkeyLang.Proofs.Display.Printed
import MonkeyLang.Proofs.Display.Sources
import MonkeyLang.Proofs.Parsing.Acceptance

/-!
# Reading the canonical form

Which programs are read back from their canonical form. The text is cut into the words that it is
meant to consist of, unless a string literal among them has a character that is not plain. The words
derive the program that was written, unless a statement runs on into the next one. There is nothing
else that can go wrong, and both do go wrong: so a program that has been read from a source is read
back exactly when its string literals are plain and no statement of it runs on.

## Main statements

* `Program.readsBack_iff` : the programs that are read back.
-/

namespace MonkeyLang

open MonkeyLang.Grammar MonkeyLang.Lexical MonkeyLang.Parser

/-! ### Spans do not show -/

mutual

theorem Expr.display_strip (e : Expr) : e.strip.display = e.display := by
  match e with
  | .int .. | .bool .. | .str .. | .ident .. => simp only [Expr.strip, Expr.display]
  | .array items _ => simp only [Expr.strip, Expr.display, Expr.displayAll_stripAll items]
  | .hash entries _ => simp only [Expr.strip, Expr.display, Expr.displayEntries_stripEntries entries]
  | .unary _ operand _ => simp only [Expr.strip, Expr.display, operand.display_strip]
  | .binary _ left right _ =>
    simp only [Expr.strip, Expr.display, left.display_strip, right.display_strip]
  | .cond test thenBlock none _ =>
    simp only [Expr.strip, Block.stripPart, Expr.display, test.display_strip,
      thenBlock.display_strip]
  | .cond test thenBlock (some elseBlock) _ =>
    simp only [Expr.strip, Block.stripPart, Expr.display, test.display_strip,
      thenBlock.display_strip, elseBlock.display_strip]
  | .function _ body _ _ => simp only [Expr.strip, Expr.display, body.display_strip]
  | .call callee args _ =>
    simp only [Expr.strip, Expr.display, callee.display_strip, Expr.displayAll_stripAll args]
  | .index base place _ =>
    simp only [Expr.strip, Expr.display, base.display_strip, place.display_strip]
  | .assign target value _ =>
    simp only [Expr.strip, Expr.display, target.display_strip, value.display_strip]

theorem Expr.displayAll_stripAll (es : List Expr) :
    Expr.displayAll (Expr.stripAll es) = Expr.displayAll es := by
  match es with
  | [] => rfl
  | e :: es =>
    simp only [Expr.stripAll, Expr.displayAll, e.display_strip, Expr.displayAll_stripAll es]

theorem Expr.displayEntries_stripEntries (es : List (Expr × Expr)) :
    Expr.displayEntries (Expr.stripEntries es) = Expr.displayEntries es := by
  match es with
  | [] => rfl
  | (key, value) :: es =>
    simp only [Expr.stripEntries, Expr.displayEntries, key.display_strip, value.display_strip,
      Expr.displayEntries_stripEntries es]

theorem Expr.displayPart_stripPart (p : Option Expr) :
    Expr.displayPart (Expr.stripPart p) = Expr.displayPart p := by
  match p with
  | none => rfl
  | some e => simp only [Expr.stripPart, Expr.displayPart, e.display_strip]

theorem Stmt.display_strip (s : Stmt) : s.strip.display = s.display := by
  match s with
  | .letBind _ value _ | .ret value _ | .expr value _ =>
    simp only [Stmt.strip, Stmt.display, value.display_strip]
  | .forLoop init test after body _ =>
    simp only [Stmt.strip, Stmt.display, Stmt.displayInit_stripPart init,
      Expr.displayPart_stripPart test, Expr.displayPart_stripPart after, body.display_strip]

theorem Stmt.displayInit_stripPart (p : Option Stmt) :
    Stmt.displayInit (Stmt.stripPart p) = Stmt.displayInit p := by
  match p with
  | none => rfl
  | some (.letBind _ value _) | some (.ret value _) | some (.expr value _) =>
    simp only [Stmt.stripPart, Stmt.strip, Stmt.displayInit, Stmt.display, value.display_strip]
  | some (.forLoop init test after body _) =>
    simp only [Stmt.stripPart, Stmt.strip, Stmt.displayInit, Stmt.display,
      Stmt.displayInit_stripPart init, Expr.displayPart_stripPart test,
      Expr.displayPart_stripPart after, body.display_strip]

theorem Stmt.displayAll_stripAll (ss : List Stmt) :
    Stmt.displayAll (Stmt.stripAll ss) = Stmt.displayAll ss := by
  match ss with
  | [] => rfl
  | s :: ss =>
    simp only [Stmt.stripAll, Stmt.displayAll, s.display_strip, Stmt.displayAll_stripAll ss]

theorem Block.display_strip (b : Block) : b.strip.display = b.display := by
  match b with
  | ⟨[], _⟩ => rfl
  | ⟨s :: ss, _⟩ =>
    simp only [Block.strip, Stmt.stripAll, Block.display, Stmt.displayAll, s.display_strip,
      Stmt.displayAll_stripAll ss]

end

namespace Program

theorem display_strip (p : Program) : p.strip.display = p.display := by
  rw [Program.strip, Program.display, Stmt.displayAll_stripAll, Program.display]

/-! ### Reading back -/

/-- The canonical form of the program is read without errors, as the same program up to spans. -/
def ReadsBack (p : Program) : Prop :=
  (ofSource p.display).errors = [] ∧ (ofSource p.display).program.strip = p.strip

/-- The errors in the spelling of a source are among its errors. Without any, the program is that of
the tokens. -/
theorem ofSource_eq_ofTokens {source : String} (h : (ofSource source).errors = []) :
    (lex source).errors = [] ∧ ofSource source = ofTokens (lex source).tokens := by
  obtain ⟨-, -, -, hreported⟩ := exists_done_of_errors_eq_nil h
  have hlex : (lex source).errors = [] := List.map_eq_nil_iff.1 hreported
  rw [ofSource, hlex, List.map_nil, ofTokens]
  exact ⟨rfl, rfl⟩

/-- A source that is cut into the words of a program, without bad escapes, is read as that
program. -/
theorem ofSource_of_lexes {source : String} {ks : List TokenKind} {p : Program}
    (h : Lexes source.toList (ks ++ [.eof])) (hplain : PlainWords (ks ++ [.eof]))
    (hp : Statements ks p) :
    (ofSource source).errors = [] ∧ (ofSource source).program.strip = p := by
  obtain ⟨herrors, htokens⟩ := h 0
  have hof : ofSource source = ofTokens (lex source).tokens := by
    rw [ofSource, lex, herrors.2 hplain]
    rfl
  rw [hof]
  exact ofTokens_of_statements (htokens hplain) hp

/-- A source without errors derives its program, from words that a text may spell. -/
theorem statements_of_source {source : String} (h : (ofSource source).errors = []) :
    ∃ ks, (lex source).tokens.map (·.kind) = ks ++ [.eof] ∧ (∀ k ∈ ks, Spelt k) ∧
      Statements ks (ofSource source).program.strip := by
  obtain ⟨-, hof⟩ := ofSource_eq_ofTokens h
  obtain ⟨ks, hk, hend, hspelt⟩ := exists_kinds_lexFrom 0 source.toList
  rw [hof] at h ⊢
  exact ⟨ks, hk, hspelt, statements_of_errors_eq_nil hk hend h⟩

/-- The canonical form of a program that can be written is cut into its words. -/
theorem lexes_display {ss : List Stmt} (h : Stmt.WritableAll ss) :
    Lexes (Program.display ss).toList (Stmt.tokensAll ss ++ [.eof]) := by
  have := LexesAs.spaced (c := '\n') rfl h.lexes [] [.eof] breaks_nil .nil
  rw [List.append_nil, ← Stmt.tokensAll_eq_flatten] at this
  exact this

/-- A program that has been read from a source without errors is read back from its canonical form
if and only if all of its string literals are plain and no statement of it runs on into the next
one. -/
theorem readsBack_iff {source : String} (h : (ofSource source).errors = []) :
    ReadsBack (ofSource source).program ↔
      PlainWords (Stmt.tokensAll (ofSource source).program.strip) ∧
        Stmt.clashesAll (ofSource source).program.strip = 0 := by
  obtain ⟨ks, -, hspelt, hks⟩ := statements_of_source h
  generalize hss : (ofSource source).program.strip = ss at hks
  have hstrip : Stmt.stripAll ss = ss := by
    rw [← hss]
    exact Stmt.stripAll_stripAll _
  have hwrite := hks.writable hspelt
  obtain ⟨herrors, htokens⟩ := lexes_display hwrite 0
  have hplain : PlainWords (Stmt.tokensAll ss ++ [.eof]) ↔ PlainWords (Stmt.tokensAll ss) := by
    simp [PlainWords]
  rw [hplain] at herrors htokens
  rw [ReadsBack, ← display_strip, hss]
  constructor
  · rintro ⟨hnone, hsame⟩
    obtain ⟨js, hjs, -, hderives⟩ := statements_of_source hnone
    have hwords := herrors.1 (ofSource_eq_ofTokens hnone).1
    obtain rfl : js = Stmt.tokensAll ss := List.append_cancel_right (hjs.symm.trans (htokens hwords))
    rw [hsame] at hderives
    exact ⟨hwords, clashesAll_eq_zero hwrite hderives⟩
  · rintro ⟨hwords, hclash⟩
    have hderives := hwrite.derives hclash
    have hof : ofSource (Program.display ss) = ofTokens (lex (Program.display ss)).tokens := by
      rw [ofSource, lex, herrors.2 hwords]
      rfl
    rw [hstrip] at hderives
    rw [hof]
    exact ofTokens_of_statements (htokens hwords) hderives

/-- A line that starts with a parenthesis, and a text with a line feed and a quote in it. -/
def greeting : String := "let x = !y\n([x, \"hi\n\\\"\"][0])"

/-- The parenthesis makes the second line the argument of a call, which is read back. -/
theorem readsBack_greeting_iff :
    (ofSource greeting).errors = [] ∧
    (ReadsBack (ofSource greeting).program ↔
      PlainWords (Stmt.tokensAll (ofSource greeting).program.strip) ∧
        Stmt.clashesAll (ofSource greeting).program.strip = 0) :=
  ⟨by decide +kernel, readsBack_iff (by decide +kernel)⟩

/-- Two programs that are not read back. The canonical form of the first one is `1` and `(-2)` on
two lines, which is a call. In that of the second one, the carriage return is an escape that stands
for nothing. -/
theorem not_readsBack :
    ((ofSource "1; -2").errors = [] ∧ ¬ ReadsBack (ofSource "1; -2").program) ∧
      (ofSource "\"\r\"").errors = [] ∧ ¬ ReadsBack (ofSource "\"\r\"").program := by
  refine ⟨⟨by decide +kernel, fun h => ?_⟩, by decide +kernel, fun h => ?_⟩
  · exact absurd (congrArg List.length h.2) (by decide +kernel)
  · exact absurd (congrArg List.length h.1) (by decide +kernel)

end Program

end MonkeyLang
