import MonkeyLang.Proofs.Display.ReadBack
import MonkeyLang.Proofs.Numbered.Program

/-!
# The texts of a program

A program holds no texts but those of the identifiers and string literals among its tokens.

## Main statements

* `Grammar.Statements.forall_names` : the texts of the tree of a derivation.
* `Program.mem_names_of_source` : the texts of a program without errors.
-/

namespace MonkeyLang

namespace Grammar

variable {P : String → Prop}

theorem Names.forall_names {ks : List TokenKind} {xs : List String} (h : Names ks xs)
    (hks : ∀ k ∈ ks, ∀ x ∈ k.name?, P x) : ∀ x ∈ xs, P x := by
  induction h with
  | one => exact List.forall_mem_singleton.2 (hks _ List.mem_cons_self _ rfl)
  | more _ ih =>
    simp only [List.forall_mem_cons] at hks
    exact List.forall_mem_cons.2 ⟨hks.1 _ rfl, ih hks.2.2⟩

theorem Params.forall_names {ks : List TokenKind} {xs : List String} (h : Params ks xs)
    (hks : ∀ k ∈ ks, ∀ x ∈ k.name?, P x) : ∀ x ∈ xs, P x := by
  cases h with
  | none => exact List.forall_mem_nil _
  | some h => exact h.forall_names hks

mutual

theorem Expression.forall_names {l : Layer} {ks : List TokenKind} {e : Expr}
    (h : Expression l ks e) (hks : ∀ k ∈ ks, ∀ x ∈ k.name?, P x) : ∀ x ∈ e.names, P x := by
  match h with
  | .tighter h => exact h.forall_names hks
  | .assign ht hv =>
    simp only [List.forall_mem_append, List.forall_mem_cons] at hks
    exact List.forall_mem_append.2 ⟨ht.forall_names hks.1, hv.forall_names hks.2.2⟩
  | .binary _ ha hb =>
    simp only [List.forall_mem_append, List.forall_mem_cons] at hks
    exact List.forall_mem_append.2 ⟨ha.forall_names hks.1, hb.forall_names hks.2.2⟩
  | .not h | .neg h => exact h.forall_names (List.forall_mem_cons.1 hks).2
  | .call hf ha =>
    simp only [List.forall_mem_append, List.forall_mem_cons] at hks
    exact List.forall_mem_append.2 ⟨hf.forall_names hks.1, ha.forall_names hks.2.2.1⟩
  | .index hb hi =>
    simp only [List.forall_mem_append, List.forall_mem_cons] at hks
    exact List.forall_mem_append.2 ⟨hb.forall_names hks.1, hi.forall_names hks.2.2.1⟩
  | .int | .true | .false => exact List.forall_mem_nil _
  | .str | .ident => exact List.forall_mem_singleton.2 (hks _ List.mem_cons_self _ rfl)
  | .group h =>
    simp only [List.forall_mem_append, List.forall_mem_cons] at hks
    exact h.forall_names hks.2.1
  | .cond hc hb =>
    simp only [List.forall_mem_append, List.forall_mem_cons] at hks
    exact List.forall_mem_append.2 ⟨hc.forall_names hks.2.2.1,
      List.forall_mem_append.2 ⟨hb.forall_names hks.2.2.2.2, List.forall_mem_nil _⟩⟩
  | .condElse hc hb hd =>
    simp only [List.forall_mem_append, List.forall_mem_cons] at hks
    obtain ⟨-, -, hcs, -, hbs, -, hds⟩ := hks
    exact List.forall_mem_append.2 ⟨hc.forall_names hcs,
      List.forall_mem_append.2 ⟨hb.forall_names hbs, hd.forall_names hds⟩⟩
  | .function hp hb =>
    simp only [List.forall_mem_append, List.forall_mem_cons] at hks
    exact List.forall_mem_append.2 ⟨hp.forall_names hks.2.2.1, hb.forall_names hks.2.2.2.2⟩
  | .array hes =>
    simp only [List.forall_mem_append, List.forall_mem_cons] at hks
    exact hes.forall_names hks.2.1
  | .hash hes =>
    simp only [List.forall_mem_append, List.forall_mem_cons] at hks
    exact hes.forall_names hks.2.1

theorem Items1.forall_names {ks : List TokenKind} {es : List Expr} (h : Items1 ks es)
    (hks : ∀ k ∈ ks, ∀ x ∈ k.name?, P x) : ∀ x ∈ Expr.namesAll es, P x := by
  match h with
  | .one h => exact List.forall_mem_append.2 ⟨h.forall_names hks, List.forall_mem_nil _⟩
  | .more h hes =>
    simp only [List.forall_mem_append, List.forall_mem_cons] at hks
    exact List.forall_mem_append.2 ⟨h.forall_names hks.1, hes.forall_names hks.2.2⟩

theorem Items.forall_names {ks : List TokenKind} {es : List Expr} (h : Items ks es)
    (hks : ∀ k ∈ ks, ∀ x ∈ k.name?, P x) : ∀ x ∈ Expr.namesAll es, P x := by
  match h with
  | .none => exact List.forall_mem_nil _
  | .some h => exact h.forall_names hks

theorem Entries.forall_names {ks : List TokenKind} {es : List (Expr × Expr)} (h : Entries ks es)
    (hks : ∀ k ∈ ks, ∀ x ∈ k.name?, P x) : ∀ x ∈ Expr.namesEntries es, P x := by
  match h with
  | .none => exact List.forall_mem_nil _
  | .one hk hv =>
    simp only [List.forall_mem_append, List.forall_mem_cons] at hks
    exact List.forall_mem_append.2 ⟨hk.forall_names hks.1,
      List.forall_mem_append.2 ⟨hv.forall_names hks.2.2, List.forall_mem_nil _⟩⟩
  | .more hk hv hes =>
    simp only [List.forall_mem_append, List.forall_mem_cons] at hks
    obtain ⟨hkey, -, hvalue, -, hrest⟩ := hks
    exact List.forall_mem_append.2 ⟨hk.forall_names hkey,
      List.forall_mem_append.2 ⟨hv.forall_names hvalue, hes.forall_names hrest⟩⟩

theorem Braces.forall_names {ks : List TokenKind} {b : Block} (h : Braces ks b)
    (hks : ∀ k ∈ ks, ∀ x ∈ k.name?, P x) : ∀ x ∈ b.names, P x := by
  match h with
  | .mk h =>
    simp only [List.forall_mem_append, List.forall_mem_cons] at hks
    exact h.forall_names hks.2.1

theorem Init.forall_names {ks : List TokenKind} {i : Option Stmt} (h : Init ks i)
    (hks : ∀ k ∈ ks, ∀ x ∈ k.name?, P x) : ∀ x ∈ Stmt.namesPart i, P x := by
  match h with
  | .none => exact List.forall_mem_nil _
  | .letBind h =>
    simp only [List.forall_mem_cons] at hks
    exact List.forall_mem_cons.2 ⟨hks.2.1 _ rfl, h.forall_names hks.2.2.2⟩
  | .expr h => exact h.forall_names hks

theorem Part.forall_names {ks : List TokenKind} {p : Option Expr} (h : Part ks p)
    (hks : ∀ k ∈ ks, ∀ x ∈ k.name?, P x) : ∀ x ∈ Expr.namesPart p, P x := by
  match h with
  | .none => exact List.forall_mem_nil _
  | .some h => exact h.forall_names hks

theorem Statement.forall_names {ks : List TokenKind} {s : Stmt} (h : Statement ks s)
    (hks : ∀ k ∈ ks, ∀ x ∈ k.name?, P x) : ∀ x ∈ s.names, P x := by
  match h with
  | .letBind h =>
    simp only [List.forall_mem_cons] at hks
    exact List.forall_mem_cons.2 ⟨hks.2.1 _ rfl, h.forall_names hks.2.2.2⟩
  | .ret h => exact h.forall_names (List.forall_mem_cons.1 hks).2
  | .expr h => exact h.forall_names hks
  | .forLoop hi hc ha hb =>
    simp only [List.forall_mem_append, List.forall_mem_cons] at hks
    obtain ⟨-, -, his, -, hcs, -, has, -, hbs⟩ := hks
    exact List.forall_mem_append.2 ⟨hi.forall_names his,
      List.forall_mem_append.2 ⟨hc.forall_names hcs,
        List.forall_mem_append.2 ⟨ha.forall_names has, hb.forall_names hbs⟩⟩⟩

theorem Statements.forall_names {ks : List TokenKind} {ss : List Stmt} (h : Statements ks ss)
    (hks : ∀ k ∈ ks, ∀ x ∈ k.name?, P x) : ∀ x ∈ Stmt.namesAll ss, P x := by
  match h with
  | .nil => exact List.forall_mem_nil _
  | .closed hs hss =>
    simp only [List.forall_mem_append, List.forall_mem_cons] at hks
    exact List.forall_mem_append.2 ⟨hs.forall_names hks.1, hss.forall_names hks.2.2⟩
  | .bare hs hss _ =>
    rw [List.forall_mem_append] at hks
    exact List.forall_mem_append.2 ⟨hs.forall_names hks.1, hss.forall_names hks.2⟩

end

end Grammar

/-! ### Trees with spans -/

mutual

/-- Spans hold no texts. -/
@[simp] theorem Expr.names_strip (e : Expr) : e.strip.names = e.names := by
  match e with
  | .int .. | .bool .. | .str .. | .ident .. => rfl
  | .array items _ => exact Expr.namesAll_stripAll items
  | .hash entries _ => exact Expr.namesEntries_stripEntries entries
  | .unary _ operand _ => exact operand.names_strip
  | .binary _ left right _ | .index left right _ | .assign left right _ =>
    simp only [Expr.strip, Expr.names, left.names_strip, right.names_strip]
  | .cond test thenBlock none _ =>
    simp only [Expr.strip, Expr.names, Block.stripPart, test.names_strip, thenBlock.names_strip]
  | .cond test thenBlock (some elseBlock) _ =>
    simp only [Expr.strip, Expr.names, Block.stripPart, Block.namesPart, test.names_strip,
      thenBlock.names_strip, elseBlock.names_strip]
  | .function _ body _ _ => simp only [Expr.strip, Expr.names, body.names_strip]
  | .call callee args _ =>
    simp only [Expr.strip, Expr.names, callee.names_strip, Expr.namesAll_stripAll args]

@[simp] theorem Expr.namesAll_stripAll (es : List Expr) :
    Expr.namesAll (Expr.stripAll es) = Expr.namesAll es := by
  match es with
  | [] => rfl
  | e :: es =>
    simp only [Expr.stripAll, Expr.namesAll, e.names_strip, Expr.namesAll_stripAll es]

@[simp] theorem Expr.namesEntries_stripEntries (es : List (Expr × Expr)) :
    Expr.namesEntries (Expr.stripEntries es) = Expr.namesEntries es := by
  match es with
  | [] => rfl
  | (key, value) :: es =>
    simp only [Expr.stripEntries, Expr.namesEntries, key.names_strip, value.names_strip,
      Expr.namesEntries_stripEntries es]

@[simp] theorem Expr.namesPart_stripPart (p : Option Expr) :
    Expr.namesPart (Expr.stripPart p) = Expr.namesPart p := by
  match p with
  | none => rfl
  | some e => exact e.names_strip

@[simp] theorem Stmt.names_strip (s : Stmt) : s.strip.names = s.names := by
  match s with
  | .letBind _ value _ | .ret value _ | .expr value _ =>
    simp only [Stmt.strip, Stmt.names, value.names_strip]
  | .forLoop init test after body _ =>
    simp only [Stmt.strip, Stmt.names, Stmt.namesPart_stripPart init,
      Expr.namesPart_stripPart test, Expr.namesPart_stripPart after, body.names_strip]

@[simp] theorem Stmt.namesPart_stripPart (p : Option Stmt) :
    Stmt.namesPart (Stmt.stripPart p) = Stmt.namesPart p := by
  match p with
  | none => rfl
  | some s => exact s.names_strip

@[simp] theorem Stmt.namesAll_stripAll (ss : List Stmt) :
    Stmt.namesAll (Stmt.stripAll ss) = Stmt.namesAll ss := by
  match ss with
  | [] => rfl
  | s :: ss => simp only [Stmt.stripAll, Stmt.namesAll, s.names_strip, Stmt.namesAll_stripAll ss]

@[simp] theorem Block.names_strip (b : Block) : b.strip.names = b.names := by
  match b with
  | ⟨statements, _⟩ => exact Stmt.namesAll_stripAll statements

end

/-- The texts of a program without errors are those of tokens of its source. -/
theorem Program.mem_names_of_source {source : String} (h : (ofSource source).errors = []) :
    ∀ x ∈ Stmt.namesAll (ofSource source).program, x ∈ (lex source).names := by
  obtain ⟨ks, hks, -, hstatements⟩ := statements_of_source h
  rw [← Stmt.namesAll_stripAll]
  refine hstatements.forall_names fun k hk x hx => ?_
  have hmem : k ∈ (lex source).tokens.map (·.kind) := hks ▸ List.mem_append_left [.eof] hk
  obtain ⟨token, htoken, rfl⟩ := List.mem_map.1 hmem
  exact List.mem_filterMap.2 ⟨token, htoken, hx⟩

end MonkeyLang
