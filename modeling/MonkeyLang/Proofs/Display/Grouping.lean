import MonkeyLang.Proofs.Display.ReadBack

/-!
# The canonical form of an expression fixes its grouping

Every operation but a call is written in parentheses, and a call starts with its callee. So what is
written for an operand is read as one operand again wherever it stands, and the text of an expression
says how it is grouped. This holds of all trees, also of those that no source is read as, such as an
assignment to a sum.

Without function literals and `if` expressions there are no statements in an expression, so nothing
in it can run on into a next statement. What is left to ask for is that the words of the expression
are words of the language.

## Main definitions

* `Expr.Plain` : the expressions without blocks whose text is made of words of the language.

## Main statements

* `Expr.Plain.display_reads_back` : the canonical form of an expression is read as that expression.
-/

namespace MonkeyLang

open MonkeyLang.Lexical

/-- Whether the character is written in a string literal as it is or with one of the escapes of the
language. -/
def WrittenPlainly (c : Char) : Prop :=
  Quoted.character '"' c = c.toString ∨
    ∃ d, (d, c) ∈ escapes ∧ Quoted.character '"' c = "\\" ++ d.toString

mutual

/-- The expressions without function literals and `if` expressions whose identifiers are identifiers,
whose numbers are not negative and whose strings are written without escapes that the language does
not know. -/
inductive Expr.Plain : Expr → Prop where
  | int {v : Int64} {s : Span} : 0 ≤ v.toInt → Expr.Plain (.int v s)
  | bool {b : Bool} {s : Span} : Expr.Plain (.bool b s)
  | str {t : String} {s : Span} : (∀ c ∈ t.toList, WrittenPlainly c) → Expr.Plain (.str t s)
  | ident {x : String} {s : Span} : IsIdentifier x → Expr.Plain (.ident x s)
  | array {es : List Expr} {s : Span} : Expr.PlainAll es → Expr.Plain (.array es s)
  | hash {es : List (Expr × Expr)} {s : Span} : Expr.PlainEntries es → Expr.Plain (.hash es s)
  | unary {op : UnaryOp} {e : Expr} {s : Span} : Expr.Plain e → Expr.Plain (.unary op e s)
  | binary {op : BinaryOp} {a b : Expr} {s : Span} :
      Expr.Plain a → Expr.Plain b → Expr.Plain (.binary op a b s)
  | call {f : Expr} {args : List Expr} {s : Span} :
      Expr.Plain f → Expr.PlainAll args → Expr.Plain (.call f args s)
  | index {b i : Expr} {s : Span} : Expr.Plain b → Expr.Plain i → Expr.Plain (.index b i s)
  | assign {t v : Expr} {s : Span} : Expr.Plain t → Expr.Plain v → Expr.Plain (.assign t v s)

/-- Expressions, all of which are plain. -/
inductive Expr.PlainAll : List Expr → Prop where
  | nil : Expr.PlainAll []
  | cons {e : Expr} {es : List Expr} : Expr.Plain e → Expr.PlainAll es → Expr.PlainAll (e :: es)

/-- Entries of a hash literal, all of whose keys and values are plain. -/
inductive Expr.PlainEntries : List (Expr × Expr) → Prop where
  | nil : Expr.PlainEntries []
  | cons {k v : Expr} {es : List (Expr × Expr)} :
      Expr.Plain k → Expr.Plain v → Expr.PlainEntries es → Expr.PlainEntries ((k, v) :: es)

end

/-! ### The words of plain expressions -/

theorem WrittenPlainly.plainChar {c : Char} (h : WrittenPlainly c) : PlainChar c := by
  rcases character_cases c with ⟨-, -, -, hplain⟩ | ⟨-, -, -, hplain⟩ |
    ⟨d, ds, hlist, hnone, -, hplain⟩
  · exact hplain
  · exact hplain
  · -- The third way starts with an escape that stands for nothing, and the other two do not.
    rcases h with h | ⟨e, hmem, h⟩
    · rw [h, Char.toString, String.toList_singleton] at hlist
      obtain ⟨-, hnil⟩ := List.cons.inj hlist
      cases hnil
    · have htwo : ['\\', e] = '\\' :: d :: ds := by simpa [h] using hlist
      simp only [List.cons.injEq, true_and] at htwo
      exact absurd (htwo.1 ▸ hmem) (hnone c)

@[simp] theorem plainWords_append (ks ls : List TokenKind) :
    PlainWords (ks ++ ls) ↔ PlainWords ks ∧ PlainWords ls := by
  simp only [PlainWords, List.mem_append]
  exact ⟨fun h => ⟨fun t ht => h t (.inl ht), fun t ht => h t (.inr ht)⟩,
    fun h t ht => ht.elim (h.1 t) (h.2 t)⟩

@[simp] theorem plainWords_nil : PlainWords [] := by simp [PlainWords]

/-- Commas are no string literals. -/
theorem plainWords_commaSeparated {kss : List (List TokenKind)} (h : ∀ ks ∈ kss, PlainWords ks) :
    PlainWords (commaSeparated kss) := by
  fun_induction commaSeparated kss with
  | case1 => exact plainWords_nil
  | case2 ks => exact h ks List.mem_cons_self
  | case3 ks kss _ ih =>
    obtain ⟨hks, hkss⟩ := List.forall_mem_cons.1 h
    rw [plainWords_append, plainWords_cons_of_ne (by simp)]
    exact ⟨hks, ih hkss⟩

@[simp] theorem plainWords_op {op : BinaryOp} {ks : List TokenKind} :
    PlainWords (op.token :: ks) ↔ PlainWords ks :=
  plainWords_cons_of_ne (by cases op <;> simp [BinaryOp.token]) ks

mutual

/-- Plain expressions consist of words of the language. -/
theorem Expr.Plain.writable {e : Expr} (h : e.Plain) : e.Writable := by
  match h with
  | .int hv => exact .int hv
  | .bool => exact .bool
  | .str _ => exact .str
  | .ident hx => exact .ident hx
  | .array hes => exact .array hes.writable
  | .hash hes => exact .hash hes.writable
  | .unary he => exact .unary he.writable
  | .binary ha hb => exact .binary ha.writable hb.writable
  | .call hf hargs => exact .call hf.writable hargs.writable
  | .index hb hi => exact .index hb.writable hi.writable
  | .assign ht hv => exact .assign ht.writable hv.writable

theorem Expr.PlainAll.writable {es : List Expr} (h : Expr.PlainAll es) : Expr.WritableAll es := by
  match h with
  | .nil => exact .nil
  | .cons he hes => exact .cons he.writable hes.writable

theorem Expr.PlainEntries.writable {es : List (Expr × Expr)} (h : Expr.PlainEntries es) :
    Expr.WritableEntries es := by
  match h with
  | .nil => exact .nil
  | .cons hk hv hes => exact .cons hk.writable hv.writable hes.writable

end

mutual

/-- There are no statements in a plain expression that could run on. -/
theorem Expr.Plain.clashes_eq_zero {e : Expr} (h : e.Plain) : e.clashes = 0 := by
  match h with
  | .int _ | .bool | .str _ | .ident _ => rfl
  | .array hes => exact hes.clashesAll_eq_zero
  | .hash hes => exact hes.clashesEntries_eq_zero
  | .unary he => exact he.clashes_eq_zero
  | .binary ha hb => rw [Expr.clashes, ha.clashes_eq_zero, hb.clashes_eq_zero]
  | .call hf hargs => rw [Expr.clashes, hf.clashes_eq_zero, hargs.clashesAll_eq_zero]
  | .index hb hi => rw [Expr.clashes, hb.clashes_eq_zero, hi.clashes_eq_zero]
  | .assign ht hv => rw [Expr.clashes, ht.clashes_eq_zero, hv.clashes_eq_zero]

theorem Expr.PlainAll.clashesAll_eq_zero {es : List Expr} (h : Expr.PlainAll es) :
    Expr.clashesAll es = 0 := by
  match h with
  | .nil => rfl
  | .cons he hes => rw [Expr.clashesAll, he.clashes_eq_zero, hes.clashesAll_eq_zero]

theorem Expr.PlainEntries.clashesEntries_eq_zero {es : List (Expr × Expr)}
    (h : Expr.PlainEntries es) : Expr.clashesEntries es = 0 := by
  match h with
  | .nil => rfl
  | .cons hk hv hes =>
    rw [Expr.clashesEntries, hk.clashes_eq_zero, hv.clashes_eq_zero, hes.clashesEntries_eq_zero]

end

mutual

/-- Plain expressions have plain string literals. -/
theorem Expr.Plain.plainWords {e : Expr} (h : e.Plain) : PlainWords e.tokens := by
  match h with
  | .int _ | .ident _ | .bool (b := true) | .bool (b := false) => simp [Expr.tokens, PlainWords]
  | .str ht =>
    rw [Expr.tokens, plainWords_cons]
    refine ⟨fun s hs c hc => ?_, plainWords_nil⟩
    rw [← TokenKind.str.inj hs] at hc
    exact (ht c hc).plainChar
  | .array hes =>
    have := plainWords_commaSeparated hes.plainWords
    simpa [Expr.tokens, plainWords_cons_of_ne] using this
  | .hash hes =>
    have := plainWords_commaSeparated hes.plainWords
    simpa [Expr.tokens, plainWords_cons_of_ne] using this
  | @Expr.Plain.unary op _ _ he =>
    have hop : ∀ t, op.token ≠ .str t := by cases op <;> simp [UnaryOp.token]
    simpa [Expr.tokens, plainWords_cons_of_ne, hop] using he.plainWords
  | .binary ha hb =>
    simp [Expr.tokens, plainWords_cons_of_ne, ha.plainWords, hb.plainWords]
  | .call hf hargs =>
    have := plainWords_commaSeparated hargs.plainWords
    simp [Expr.tokens, plainWords_cons_of_ne, hf.plainWords, this]
  | .index hb hi =>
    simp [Expr.tokens, plainWords_cons_of_ne, hb.plainWords, hi.plainWords]
  | .assign ht hv =>
    simp [Expr.tokens, plainWords_cons_of_ne, ht.plainWords, hv.plainWords]

theorem Expr.PlainAll.plainWords {es : List Expr} (h : Expr.PlainAll es) :
    ∀ ks ∈ Expr.tokensEach es, PlainWords ks := by
  match h with
  | .nil => simp [Expr.tokensEach]
  | .cons he hes => exact List.forall_mem_cons.2 ⟨he.plainWords, hes.plainWords⟩

theorem Expr.PlainEntries.plainWords {es : List (Expr × Expr)} (h : Expr.PlainEntries es) :
    ∀ ks ∈ Expr.tokensEntries es, PlainWords ks := by
  match h with
  | .nil => simp [Expr.tokensEntries]
  | .cons hk hv hes =>
    refine List.forall_mem_cons.2 ⟨?_, hes.plainWords⟩
    simp [plainWords_cons_of_ne, hk.plainWords, hv.plainWords]

end

/-! ### Reading plain expressions -/

/-- The canonical form of a plain expression is read as a program that is this expression. -/
theorem Expr.Plain.ofSource_display {e : Expr} (h : e.Plain) :
    (Program.ofSource e.display).errors = [] ∧
      (Program.ofSource e.display).program.strip = [.expr e.strip .nowhere] := by
  let ss : Program := [.expr e .nowhere]
  have hwritable : Stmt.WritableAll ss := .cons (.expr h.writable) .nil
  have htext : Program.display ss = e.display := by
    simp [ss, Program.display, Stmt.displayAll, Stmt.display]
  have hplain : PlainWords (Stmt.tokensAll ss ++ [.eof]) := by
    simp [ss, Stmt.tokensAll, Stmt.tokens, h.plainWords, plainWords_cons_of_ne]
  have hclash : Stmt.clashesAll ss = 0 := by
    simp [ss, Stmt.clashesAll, Stmt.clashes, h.clashes_eq_zero, Stmt.clashesWith, Stmt.tokensAll]
  have hlexes := Program.lexes_display hwritable
  rw [htext] at hlexes
  exact Program.ofSource_of_lexes hlexes hplain (hwritable.derives hclash)

/-- A program that is one expression up to spans is one expression. -/
theorem Program.eq_of_strip_eq_expr {p : Program} {e : Expr}
    (h : p.strip = [.expr e .nowhere]) : ∃ e' span, p = [.expr e' span] ∧ e'.strip = e := by
  match p, h with
  | [.expr e' span], h =>
    obtain ⟨hs, -⟩ := List.cons.inj h
    exact ⟨e', span, rfl, (Stmt.expr.inj hs).1⟩

/-- The canonical form of a plain expression fixes how the expression is grouped: it is read without
errors as one statement, which is this expression up to spans. So no other plain expression is
written in the same way. -/
theorem Expr.Plain.display_reads_back {e : Expr} (h : e.Plain) :
    (Program.ofSource e.display).errors = [] ∧
      (∃ e' span, (Program.ofSource e.display).program = [.expr e' span] ∧ e'.strip = e.strip) ∧
      ∀ e' : Expr, e'.Plain → e'.display = e.display → e'.strip = e.strip := by
  obtain ⟨herrors, hread⟩ := h.ofSource_display
  refine ⟨herrors, Program.eq_of_strip_eq_expr hread, fun e' h' hdisplay => ?_⟩
  obtain ⟨-, hread'⟩ := h'.ofSource_display
  rw [hdisplay, hread] at hread'
  simpa using hread'.symm

/-- An assignment to a sum. The value is the negation of a call whose callee is a negation again, and
whose argument is an entry of a table with a key that is written with escapes. -/
def Expr.tangled : Expr :=
  let f : Expr := .ident "f" .nowhere
  let table : Expr := .hash [(.str "\"\n\\" .nowhere, .bool true .nowhere)] .nowhere
  .assign (.binary .add f (.int 1 .nowhere) .nowhere)
    (.unary .neg (.call (.unary .neg f .nowhere) [.index table (.int 0 .nowhere) .nowhere] .nowhere)
      .nowhere) .nowhere

theorem Expr.tangled_plain : Expr.tangled.Plain := by
  have hf : Expr.Plain (.ident "f" .nowhere) :=
    .ident (@Spells.ident 'f' [] (by decide) (by simp) (by decide))
  have hkey : Expr.Plain (.str "\"\n\\" .nowhere) := by
    refine .str fun c hc => ?_
    obtain rfl | rfl | rfl : c = '"' ∨ c = '\n' ∨ c = '\\' := by simpa using hc
    · exact .inr ⟨'"', by decide, rfl⟩
    · exact .inr ⟨'n', by decide, rfl⟩
    · exact .inr ⟨'\\', by decide, rfl⟩
  refine .assign (.binary hf (.int (by decide))) (.unary (.call (.unary hf) (.cons ?_ .nil)))
  exact .index (.hash (.cons hkey .bool .nil)) (.int (by decide))

/-- The sum is the target of the assignment and the inner negation is the callee, also when they are
read back. -/
theorem Expr.display_tangled_reads_back :
    Expr.tangled.Plain ∧
      Expr.tangled.display = "((f + 1) = (-(-f)((\x7b\"\\\"\\n\\\\\": true\x7d[0]))))" ∧
      (Program.ofSource Expr.tangled.display).errors = [] ∧
      ∃ e span, (Program.ofSource Expr.tangled.display).program = [.expr e span] ∧
        e.strip = Expr.tangled.strip :=
  have h := Expr.tangled_plain.display_reads_back
  ⟨Expr.tangled_plain, by decide +kernel, h.1, h.2.1⟩

end MonkeyLang
