import MonkeyLang.Proofs.Display.Canonical

/-!
# The canonical form is in the grammar

If no statement of a tree runs on into the next one, the words of its canonical form derive the
tree. Every operation stands in parentheses, so the words of an expression are an atom and can stand
wherever an expression can.

## Main statements

* `Expr.Writable.derives`, `Stmt.WritableAll.derives` : expressions and statements.
-/

namespace MonkeyLang

open Grammar

/-- An atom is an expression of every layer. -/
theorem Grammar.Expression.of_suffix {ks : List TokenKind} {e : Expr} (l : Layer)
    (h : Expression .suffix ks e) : Expression l ks e :=
  h.loosen (by cases l <;> decide)

theorem operator?_token (op : BinaryOp) :
    (Extension.binary op).layer.operator? op.token = some op := by
  cases op <;> rfl

theorem params_derive (xs : List String) :
    Params (commaSeparated (xs.map ([.ident ·]))) xs := by
  have names (x : String) (xs : List String) :
      Names (commaSeparated ((x :: xs).map ([.ident ·]))) (x :: xs) := by
    induction xs generalizing x with
    | nil => exact .one
    | cons y ys ih => exact .more (ih y)
  cases xs with
  | nil => exact .none
  | cons x xs => exact .some (names x xs)

theorem Grammar.Items.items1 {ks : List TokenKind} {es : List Expr} (h : Items ks es)
    (hne : es ≠ []) : Items1 ks es := by
  cases h with
  | none => exact absurd rfl hne
  | some h => exact h

/-- One more expression before others. -/
theorem items_cons {ks : List TokenKind} {e : Expr} {es : List Expr}
    (h : Expression .assignment ks e)
    (hs : Items (commaSeparated (Expr.tokensEach es)) (Expr.stripAll es)) :
    Items (commaSeparated (ks :: Expr.tokensEach es)) (e :: Expr.stripAll es) := by
  cases es with
  | nil => exact .some (.one h)
  | cons e' es =>
    have hs₁ : Items1 _ _ := hs.items1 (by simp [Expr.stripAll])
    exact .some (.more h hs₁)

/-- One more entry before others. -/
theorem entries_cons {ks ls : List TokenKind} {k v : Expr} {es : List (Expr × Expr)}
    (hk : Expression .assignment ks k) (hv : Expression .assignment ls v)
    (hs : Entries (commaSeparated (Expr.tokensEntries es)) (Expr.stripEntries es)) :
    Entries (commaSeparated ((ks ++ .colon :: ls) :: Expr.tokensEntries es))
      ((k, v) :: Expr.stripEntries es) := by
  cases es with
  | nil => exact .one hk hv
  | cons e es =>
    have := Entries.more hk hv hs
    simpa [Expr.tokensEntries, commaSeparated] using this

/-- Every operation stands in parentheses. -/
theorem group_of {l : Layer} {ks : List TokenKind} {e : Expr} (h : Expression l ks e) :
    Expression .suffix (.lparen :: (ks ++ [.rparen])) e :=
  .group (h.loosen (by cases l <;> decide))

/-- What a statement of the canonical form derives: it has its semicolon if it is neither an
expression nor a loop. -/
def Stmt.Derives (s : Stmt) : Prop :=
  (∃ ks, s.tokens = ks ++ [.semicolon] ∧ Statement ks s.strip) ∨
    (Statement s.tokens s.strip ∧ (s.isExpr = true ∨ isLoop s.strip = true))

/-- A statement before others that it does not run on into. -/
theorem statements_cons {s : Stmt} {ss : List Stmt} (h : s.Derives)
    (hc : s.clashesWith (Stmt.tokensAll ss) = false)
    (hs : Statements (Stmt.tokensAll ss) (Stmt.stripAll ss)) :
    Statements (Stmt.tokensAll (s :: ss)) (Stmt.stripAll (s :: ss)) := by
  rw [Stmt.tokensAll, Stmt.stripAll]
  obtain ⟨ks, hks, h⟩ | ⟨h, hkind⟩ := h
  · rw [hks, List.append_assoc]
    exact .closed h hs
  · refine .bare h hs fun hloop k hk => ?_
    have hexpr : s.isExpr = true := hkind.resolve_right (by simp [hloop])
    obtain ⟨ks, hks⟩ := List.head?_eq_some_iff.1 hk
    simpa [Stmt.clashesWith, hexpr, hks] using hc

mutual

theorem Expr.Writable.derives {e : Expr} (h : e.Writable) (hc : e.clashes = 0) :
    Expression .suffix e.tokens e.strip := by
  match h with
  | .int _ => exact .int
  | .bool (b := true) => exact .true
  | .bool (b := false) => exact .false
  | .str => exact .str
  | .ident _ => exact .ident
  | .array hes => exact .array (hes.derives hc)
  | .hash hes => exact .hash (hes.derives hc)
  | @Expr.Writable.unary .not _ _ he => exact group_of (.not ((he.derives hc).of_suffix _))
  | @Expr.Writable.unary .neg _ _ he => exact group_of (.neg ((he.derives hc).of_suffix _))
  | @Expr.Writable.binary op _ _ _ ha hb =>
    obtain ⟨hca, hcb⟩ := Nat.add_eq_zero_iff.1 hc
    have hop := Expression.binary (operator?_token op) ((ha.derives hca).of_suffix _)
      ((hb.derives hcb).of_suffix _)
    simpa [Expr.tokens, Expr.strip] using group_of hop
  | .cond ht hb =>
    obtain ⟨hct, hcb⟩ := Nat.add_eq_zero_iff.1 hc
    exact .cond ((ht.derives hct).of_suffix _) (hb.derives hcb)
  | .condElse ht hb hd =>
    obtain ⟨hctb, hcd⟩ := Nat.add_eq_zero_iff.1 hc
    obtain ⟨hct, hcb⟩ := Nat.add_eq_zero_iff.1 hctb
    exact .condElse ((ht.derives hct).of_suffix _) (hb.derives hcb) (hd.derives hcd)
  | .function _ hb => exact .function (params_derive _) (hb.derives hc)
  | .call hf ha =>
    obtain ⟨hcf, hca⟩ := Nat.add_eq_zero_iff.1 hc
    exact .call (hf.derives hcf) (ha.derives hca)
  | .index hb hi =>
    obtain ⟨hcb, hci⟩ := Nat.add_eq_zero_iff.1 hc
    have hindex := Expression.index (hb.derives hcb) ((hi.derives hci).of_suffix _)
    simpa [Expr.tokens, Expr.strip] using group_of hindex
  | .assign ht hv =>
    obtain ⟨hct, hcv⟩ := Nat.add_eq_zero_iff.1 hc
    have hassign := Expression.assign ((ht.derives hct).of_suffix _)
      ((hv.derives hcv).of_suffix _)
    simpa [Expr.tokens, Expr.strip] using group_of hassign

theorem Expr.WritableAll.derives {es : List Expr} (h : Expr.WritableAll es)
    (hc : Expr.clashesAll es = 0) :
    Items (commaSeparated (Expr.tokensEach es)) (Expr.stripAll es) := by
  match h with
  | .nil => exact .none
  | .cons he hes =>
    obtain ⟨hce, hces⟩ := Nat.add_eq_zero_iff.1 hc
    exact items_cons ((he.derives hce).of_suffix _) (hes.derives hces)

theorem Expr.WritableEntries.derives {es : List (Expr × Expr)} (h : Expr.WritableEntries es)
    (hc : Expr.clashesEntries es = 0) :
    Entries (commaSeparated (Expr.tokensEntries es)) (Expr.stripEntries es) := by
  match h with
  | .nil => exact .none
  | .cons hk hv hes =>
    obtain ⟨hckv, hces⟩ := Nat.add_eq_zero_iff.1 hc
    obtain ⟨hck, hcv⟩ := Nat.add_eq_zero_iff.1 hckv
    exact entries_cons ((hk.derives hck).of_suffix _) ((hv.derives hcv).of_suffix _)
      (hes.derives hces)

theorem Expr.WritablePart.derives {e : Option Expr} (h : Expr.WritablePart e)
    (hc : Expr.clashesPart e = 0) : Part (Expr.tokensPart e) (Expr.stripPart e) := by
  match h with
  | .none => exact .none
  | .some he => exact .some ((he.derives hc).of_suffix _)

theorem Stmt.Writable.derives {s : Stmt} (h : s.Writable) (hc : s.clashes = 0) : s.Derives := by
  match h with
  | .letBind _ hv => exact .inl ⟨_, rfl, .letBind ((hv.derives hc).of_suffix _)⟩
  | .ret hv => exact .inl ⟨_, rfl, .ret ((hv.derives hc).of_suffix _)⟩
  | .expr hv => exact .inr ⟨.expr ((hv.derives hc).of_suffix _), .inl rfl⟩
  | .forLoop hi ht ha hb =>
    obtain ⟨hcita, hcb⟩ := Nat.add_eq_zero_iff.1 hc
    obtain ⟨hcit, hca⟩ := Nat.add_eq_zero_iff.1 hcita
    obtain ⟨hci, hct⟩ := Nat.add_eq_zero_iff.1 hcit
    obtain ⟨is, his, hinit⟩ := hi.derives hci
    have hloop := Statement.forLoop hinit (ht.derives hct) (ha.derives hca) (hb.derives hcb)
    refine .inr ⟨?_, .inr rfl⟩
    simpa [Stmt.tokens, Stmt.strip, his] using hloop

theorem Stmt.WritableInit.derives {i : Option Stmt} (h : Stmt.WritableInit i)
    (hc : Stmt.clashesPart i = 0) :
    ∃ ks, Stmt.tokensInit i = ks ++ [.semicolon] ∧ Init ks (Stmt.stripPart i) := by
  match h with
  | .none => exact ⟨[], rfl, .none⟩
  | .letBind _ hv => exact ⟨_, rfl, .letBind ((hv.derives hc).of_suffix _)⟩
  | .expr hv => exact ⟨_, rfl, .expr ((hv.derives hc).of_suffix _)⟩

theorem Block.Writable.derives {b : Block} (h : b.Writable) (hc : b.clashes = 0) :
    Braces b.tokens b.strip := by
  match h with
  | .mk hss => exact .mk (hss.derives hc)

theorem Stmt.WritableAll.derives {ss : List Stmt} (h : Stmt.WritableAll ss)
    (hc : Stmt.clashesAll ss = 0) :
    Statements (Stmt.tokensAll ss) (Stmt.stripAll ss) := by
  match h with
  | .nil => exact .nil
  | .cons hs hss =>
    obtain ⟨hcs, hclash⟩ := Nat.add_eq_zero_iff.1 hc
    obtain ⟨hcs, hcss⟩ := Nat.add_eq_zero_iff.1 hcs
    refine statements_cons (hs.derives hcs) ?_ (hss.derives hcss)
    simpa using hclash

end

end MonkeyLang
