import MonkeyLang.Proofs.Display.Grouping
import MonkeyLang.Session

/-!
# Calculating with integers

What an operator makes of two integers is said by arithmetic without bounds, and then a number is
reduced to the 64 bits of two's complement. There are no literals for negative integers: a minus
sign in front of a literal is an operator of its own. So a calculation that is written in decimal
goes through the lexer, the grouping by parentheses, the sign, the operator and back to decimal.

## Main definitions

* `BinaryOp.exact` : what an operator makes of two integers, without bounds.
* `Calculation` : an operator with two integers, how it is written and how it ends.

## Main statements

* `Value.binary_int` : the operators on integers of 64 bits.
* `Calculation.ofSource_source` : a written calculation is read as what was meant.
* `Calculation.results` : its run ends with the exact result, reduced to 64 bits.
-/

namespace MonkeyLang

open MonkeyLang.Grammar

/-! ### Exact results -/

/-- A result without bounds. -/
inductive Exact where
  /-- A number. -/
  | number (n : Int)
  /-- A truth value. -/
  | truth (b : Bool)

namespace Exact

/-- The value that stands for the result: of a number, the 64 bits of two's complement. -/
def value : Exact → Value
  | .number n => .int (Int64.ofInt n)
  | .truth b => .bool b

/-- The text of the result, where a number is reduced to the range from `-2^63` to `2^63 - 1`. -/
def text : Exact → String
  | .number n => toString (n.bmod (2 ^ 64))
  | .truth b => toString b

theorem render_value (s : Store) (r : Exact) : s.render r.value = r.text := by
  cases r with
  | number n =>
    show toString (Int64.ofInt n).toInt = toString (n.bmod (2 ^ 64))
    rw [Int64.toInt_ofInt]
    rfl
  | truth b => rfl

end Exact

/-- What the operator makes of two integers. Division truncates toward zero, and nothing is made of
a division by zero. -/
def BinaryOp.exact : BinaryOp → Int → Int → Option Exact
  | .add, a, b => some (.number (a + b))
  | .sub, a, b => some (.number (a - b))
  | .mul, a, b => some (.number (a * b))
  | .div, a, b => if b = 0 then none else some (.number (a.tdiv b))
  | .eq, a, b => some (.truth (a = b))
  | .notEq, a, b => some (.truth (a ≠ b))
  | .lt, a, b => some (.truth (a < b))
  | .gt, a, b => some (.truth (a > b))

theorem BinaryOp.exact_eq_none_iff {op : BinaryOp} {a b : Int} :
    op.exact a b = none ↔ op = .div ∧ b = 0 := by
  cases op <;> simp [exact]

/-- The operators on integers of 64 bits give the exact results, reduced to 64 bits. -/
theorem Value.binary_int (op : BinaryOp) (a b : Int64) :
    Value.binary op (.int a) (.int b) =
      match op.exact a.toInt b.toInt with
      | some r => .ok r.value
      | none => .error .divisionByZero := by
  have hzero : b = 0 ↔ b.toInt = 0 := by
    rw [← Int64.toInt_inj, Int64.toInt_zero]
  have heq : (a == b) = decide (a.toInt = b.toInt) := by
    rw [beq_eq_decide, decide_eq_decide, Int64.toInt_inj]
  cases op with
  | add => simp [binary, integerBinary, BinaryOp.exact, Exact.value, Int64.ofInt_add]
  | sub => simp [binary, integerBinary, BinaryOp.exact, Exact.value, Int64.ofInt_sub]
  | mul => simp [binary, integerBinary, BinaryOp.exact, Exact.value, Int64.ofInt_mul]
  | div =>
    have hdiv : a / b = Int64.ofInt (a.toInt.tdiv b.toInt) := by
      rw [← Int64.toInt_inj, Int64.toInt_div, Int64.toInt_ofInt]
    by_cases hb : b = 0
    · simp [binary, integerBinary, BinaryOp.exact, hb]
    · simp [binary, integerBinary, BinaryOp.exact, Exact.value, hb, mt hzero.2 hb, hdiv]
  | eq => simp [binary, integerBinary, BinaryOp.exact, Exact.value, heq]
  | notEq => simp [binary, integerBinary, BinaryOp.exact, Exact.value, bne, heq]
  | lt => simp [binary, integerBinary, BinaryOp.exact, Exact.value, Int64.lt_iff_toInt_lt]
  | gt => simp [binary, integerBinary, BinaryOp.exact, Exact.value, Int64.lt_iff_toInt_lt]

/-! ### Signed numerals -/

/-- An integer with an absolute value of at most `2^63 - 1`. -/
def Small (a : Int) : Prop := a.natAbs ≤ 2 ^ 63 - 1

instance (a : Int) : Decidable (Small a) := inferInstanceAs (Decidable (_ ≤ _))

/-- The words of an integer in decimal, with a minus sign in front if it is negative. -/
def signedWords (a : Int) : List TokenKind :=
  if a < 0 then [.minus, .int (Int64.ofInt (-a))] else [.int (Int64.ofInt a)]

/-- The tree of an integer in decimal. -/
def signedNumeral (a : Int) : Expr :=
  if a < 0 then .unary .neg (.int (Int64.ofInt (-a)) .nowhere) .nowhere
  else .int (Int64.ofInt a) .nowhere

section

variable {a : Int} {rest : List Char} {ks : List TokenKind}

theorem Small.toInt_ofInt (h : Small a) : (Int64.ofInt a).toInt = a := by
  unfold Small at h
  exact Int64.toInt_ofInt_of_le (by omega) (by omega)

theorem Small.neg (h : Small a) : Small (-a) := by
  rwa [Small, Int.natAbs_neg]

theorem toList_toString_neg (h : a < 0) :
    (toString a).toList = '-' :: (toString (-a)).toList := by
  obtain ⟨n, rfl⟩ := Int.eq_negSucc_of_lt_zero h
  show ("-" ++ (n + 1).repr).toList = '-' :: (n + 1).repr.toList
  rw [String.toList_append]
  rfl

/-- A signed numeral is cut into its words. -/
theorem Small.lexes (h : Small a) (hrest : Breaks rest) (hks : Lexes rest ks) :
    Lexes ((toString a).toList ++ rest) (signedWords a ++ ks) := by
  unfold signedWords
  split
  next hneg =>
    have hv := h.neg.toInt_ofInt
    have hnumeral := Lexes.int (v := Int64.ofInt (-a)) (by omega) hrest hks
    rw [hv] at hnumeral
    rw [toList_toString_neg hneg]
    exact hnumeral.delimiter '-' rfl
  next hpos =>
    have hv := h.toInt_ofInt
    have hnumeral := Lexes.int (v := Int64.ofInt a) (by omega) hrest hks
    rwa [hv] at hnumeral

/-- The words of a signed numeral in parentheses derive its tree. -/
theorem signedNumeral_derives (a : Int) :
    Expression .suffix (.lparen :: (signedWords a ++ [.rparen])) (signedNumeral a) := by
  unfold signedWords signedNumeral
  split
  · exact group_of (.neg (Expression.int.of_suffix .unary))
  · exact group_of .int

/-- A signed numeral has the value that was written, wherever it stands. -/
theorem eval_signedNumeral {e : Expr} (he : e.strip = signedNumeral a) (o : Options) (n : Nat)
    (m : Machine) : e.eval o (n + 2) m = .done (.int (Int64.ofInt a)) m := by
  unfold signedNumeral at he
  split at he
  · cases e with
    | unary op e span =>
      obtain ⟨rfl, he, -⟩ := Expr.unary.inj he
      cases e with
      | int v span' =>
        obtain ⟨rfl, -⟩ := Expr.int.inj he
        show Outcome.done (Value.int (-Int64.ofInt (-a))) m = _
        rw [← Int64.ofInt_neg, Int.neg_neg]
      | _ => cases he
    | _ => cases he
  · cases e with
    | int v span =>
      obtain ⟨rfl, -⟩ := Expr.int.inj he
      rfl
    | _ => cases he

end

/-! ### Calculations -/

/-- An operator between two integers. -/
structure Calculation where
  /-- The operator. -/
  op : BinaryOp
  /-- The integer on its left. -/
  left : Int
  /-- The integer on its right. -/
  right : Int

namespace Calculation

variable {c : Calculation}

/-- The calculation in decimal, with the integers in parentheses. -/
def source (c : Calculation) : String :=
  "(" ++ toString c.left ++ ") " ++ c.op.symbol ++ " (" ++ toString c.right ++ ")"

/-- The words of the calculation. -/
def words (c : Calculation) : List TokenKind :=
  (.lparen :: (signedWords c.left ++ [.rparen])) ++
    c.op.token :: (.lparen :: (signedWords c.right ++ [.rparen]))

/-- The tree of the calculation. -/
def tree (c : Calculation) : Expr :=
  .binary c.op (signedNumeral c.left) (signedNumeral c.right) .nowhere

/-- How the calculation is to end. -/
def ending (c : Calculation) : Ending :=
  match c.op.exact c.left c.right with
  | some r => .completed (some r.value)
  | none => .failed .divisionByZero

/-- What a session is to show for the calculation. -/
def shown (c : Calculation) : String :=
  match c.op.exact c.left c.right with
  | some r => r.text ++ "\n"
  | none => "ERROR: division by zero\n"

/-- A written calculation is cut into its words. -/
theorem lexes (hl : Small c.left) (hr : Small c.right) :
    Lexes c.source.toList (c.words ++ [.eof]) := by
  have hclose : Lexes [')'] [.rparen, .eof] := Lexes.nil.delimiter ')' rfl
  have hright := (hr.lexes (breaks_cons rfl _) hclose).delimiter '(' rfl
  have hop := (Lexes.binaryOp c.op (hright.blank ' ' rfl)).blank ' ' rfl
  have hleft := (hl.lexes (breaks_cons rfl _) (hop.delimiter ')' rfl)).delimiter '(' rfl
  simpa [source, words] using hleft

/-- The words of a calculation derive its tree. -/
theorem derives (c : Calculation) : Statements c.words [.expr c.tree .nowhere] := by
  have hexpr : Expression (Extension.binary c.op).layer c.words c.tree :=
    .binary (operator?_token c.op) ((signedNumeral_derives c.left).of_suffix _)
      ((signedNumeral_derives c.right).of_suffix _)
  have hstmt : Statement c.words (.expr c.tree .nowhere) :=
    .expr (hexpr.loosen (by cases c.op <;> decide))
  simpa using Statements.bare hstmt .nil (by simp)

/-- The words of a signed numeral are no string literals. -/
theorem plainWords_signedWords (a : Int) : PlainWords (signedWords a) := by
  unfold signedWords
  split <;> simp [plainWords_cons_of_ne]

/-- A written calculation is read without errors as what was meant. -/
theorem ofSource_source (hl : Small c.left) (hr : Small c.right) :
    (Program.ofSource c.source).errors = [] ∧
      (Program.ofSource c.source).program.strip = [.expr c.tree .nowhere] := by
  have hplain : PlainWords (c.words ++ [.eof]) := by
    simp [words, plainWords_cons_of_ne, plainWords_signedWords]
  exact Program.ofSource_of_lexes (lexes hl hr) hplain c.derives

/-- A program that is the calculation up to spans ends as the calculation is to end, and leaves the
machine as it was. -/
theorem eval_of_strip_eq {p : Program} (hp : p.strip = [.expr c.tree .nowhere]) (hl : Small c.left)
    (hr : Small c.right) (o : Options) {fuel : Nat} (hfuel : 5 ≤ fuel) (m : Machine) :
    Program.eval o fuel p m = some (c.ending, m) := by
  obtain ⟨n, rfl⟩ := Nat.exists_eq_add_of_le' hfuel
  obtain ⟨e, span, rfl, he⟩ := Program.eq_of_strip_eq_expr hp
  cases e with
  | binary op l r sp =>
    obtain ⟨rfl, hleft, hright, -⟩ := Expr.binary.inj he
    have heval : (Expr.binary c.op l r sp).eval o (n + 3) m =
        .ofExcept (Value.binary c.op (.int (Int64.ofInt c.left)) (.int (Int64.ofInt c.right)))
          m := by
      rw [Expr.eval, eval_signedNumeral hleft, Outcome.andThen, eval_signedNumeral hright,
        Outcome.andThen]
    rw [Value.binary_int, hl.toInt_ofInt, hr.toInt_ofInt] at heval
    rw [Program.eval, Stmt.evalAll, Stmt.eval, heval, ending]
    cases c.op.exact c.left c.right <;> rfl
  | _ => cases he

/-- Only a division by zero fails. -/
theorem ending_eq_failed_iff :
    c.ending = .failed .divisionByZero ↔ c.op = .div ∧ c.right = 0 := by
  rw [← BinaryOp.exact_eq_none_iff (a := c.left), ending]
  cases c.op.exact c.left c.right <;> simp

/-- What a session shows for a program that has ended as the calculation is to end. -/
theorem ofEnding_ending (c : Calculation) (m : Machine) :
    Session.LineReport.ofEnding m c.ending = ⟨m.printed, c.shown, none⟩ := by
  rw [ending, shown]
  cases c.op.exact c.left c.right with
  | some r => simp only [Session.LineReport.ofEnding, r.render_value]
  | none => rfl

/-- A calculation with two integers of at most `2^63 - 1`, as it is written, has no errors. Wherever
it is run, it ends with the exact result, reduced to 64 bits, and a session shows the digits of
that; only a division by zero fails. It takes five steps, prints nothing and changes nothing. The
operator itself does the same with all integers of 64 bits, with the least of them, too. -/
theorem results (c : Calculation) (hl : Small c.left) (hr : Small c.right) :
    (Program.ofSource c.source).errors = [] ∧
    (∀ o fuel m, 5 ≤ fuel →
      Program.eval o fuel (Program.ofSource c.source).program m = some (c.ending, m)) ∧
    (∀ o fuel path, 5 ≤ fuel →
      Script.run o fuel path c.source = some (.ofEnding "" c.ending)) ∧
    (∀ s : Session, ∀ fuel, 5 ≤ fuel →
      s.line fuel c.source =
        some (⟨"", c.shown, none⟩, { s with machine := { s.machine with printed := "" } })) ∧
    (c.ending = .failed .divisionByZero ↔ c.op = .div ∧ c.right = 0) ∧
    (∀ op a b, Value.binary op (.int a) (.int b) =
      match op.exact a.toInt b.toInt with
      | some r => .ok r.value
      | none => .error .divisionByZero) ∧
    Value.binary .div (.int Int64.minValue) (.int (-1)) = .ok (.int Int64.minValue) := by
  obtain ⟨herrors, hread⟩ := ofSource_source hl hr
  have hnone : (Program.ofSource c.source).hasErrors = false := by
    rw [Parsed.hasErrors, herrors]
    rfl
  have heval (o : Options) (fuel : Nat) (m : Machine) (hfuel : 5 ≤ fuel) :
      Program.eval o fuel (Program.ofSource c.source).program m = some (c.ending, m) :=
    eval_of_strip_eq hread hl hr o hfuel m
  refine ⟨herrors, heval, fun o fuel path hfuel => ?_, fun s fuel hfuel => ?_,
    ending_eq_failed_iff, Value.binary_int, by decide⟩
  · simp only [Script.run, hnone, heval o fuel _ hfuel, Bool.false_eq_true, if_false,
      Option.map_some]
    rfl
  · simp only [Session.line, hnone, heval _ fuel _ hfuel, Bool.false_eq_true, if_false,
      Option.map_some, ofEnding_ending]

/-- The calculation with the least number that can be written, times two. -/
def doubled : Calculation := ⟨.mul, -9223372036854775807, 2⟩

/-- The product does not fit into 64 bits. -/
theorem results_doubled :
    (Small doubled.left ∧ Small doubled.right) ∧
    doubled.source = "(-9223372036854775807) * (2)" ∧ doubled.shown = "2\n" ∧
    (Program.ofSource doubled.source).errors = [] ∧
    (∀ s : Session, s.line 5 doubled.source =
      some (⟨"", doubled.shown, none⟩, { s with machine := { s.machine with printed := "" } })) :=
  have hl : Small doubled.left := by decide
  have hr : Small doubled.right := by decide
  have h := results doubled hl hr
  ⟨⟨hl, hr⟩, by decide +kernel, by decide +kernel, h.1, fun s => h.2.2.2.1 s 5 (by decide)⟩

end Calculation

end MonkeyLang
