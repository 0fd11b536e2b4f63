import MonkeyLang.Proofs.Display.Canonical
import MonkeyLang.Proofs.Lexing.MaximalMunch

/-!
# Trees that come from sources

The tokens of a source are spelt in it. So its identifiers are names and its numbers are not
negative, and the tree of a derivation from them can be written with words of the language.

## Main statements

* `exists_kinds_lexFrom` : the tokens of a source.
* `Grammar.Statements.writable` : the tree of a derivation.
-/

namespace MonkeyLang

open MonkeyLang.Lexical

/-- Whether a text may spell the word. An identifier that is no name and a negative number are words
that no text spells. -/
def Spelt : TokenKind → Prop
  | .ident x => IsIdentifier x
  | .int v => 0 ≤ v.toInt
  | _ => True

/-! ### The tokens of a source -/

theorem Lexical.Spells.spelt {cs : List Char} {k : TokenKind} (h : Spells cs k) : Spelt k := by
  cases h with
  | keyword hk =>
    have hall : ∀ k ∈ keywords, Spelt k := by simp [keywords, Spelt]
    exact hall k hk
  | symbol hk =>
    have hall : ∀ k ∈ symbols, Spelt k := by simp [symbols, Spelt]
    exact hall k hk
  | ident hc hcs hkey =>
    rw [Spelt, IsIdentifier, String.toList_ofList]
    exact .ident hc hcs hkey
  | int _ _ hv =>
    rw [Spelt, hv]
    exact Int.natCast_nonneg _
  | tooLarge | closed | unclosed => trivial

theorem Lexical.Next.spelt {cs rest : List Char} {k : TokenKind} (h : Next cs rest (some k)) :
    Spelt k := by
  cases h with
  | word _ hk _ => exact hk.spelt
  | stray _ _ => trivial

/-- The tokens of a source are words and, after them, the end of the input. -/
theorem exists_kinds_lexFrom (offset : Nat) (cs : List Char) :
    ∃ ks, (lexFrom offset cs).tokens.map (·.kind) = ks ++ [.eof] ∧ .eof ∉ ks ∧
      ∀ k ∈ ks, Spelt k := by
  fun_induction lexFrom offset cs with
  | case1 => exact ⟨[], rfl, List.not_mem_nil, by simp⟩
  | case2 offset c cs l stop span errors later k h ih =>
    obtain ⟨ks, hks, hend, hspelt⟩ := ih
    have hnext := first_next c cs span
    rw [h] at hnext
    refine ⟨k :: ks, by rw [List.map_cons, hks, List.cons_append], ?_, ?_⟩
    · rw [List.mem_cons, not_or]
      exact ⟨hnext.ne_eof.symm, hend⟩
    · exact List.forall_mem_cons.2 ⟨hnext.spelt, hspelt⟩
  | case3 _ _ _ _ _ _ _ _ _ ih => exact ih

/-! ### The tree of a derivation -/

namespace Grammar

theorem Names.isIdentifier {ks : List TokenKind} {xs : List String} (h : Names ks xs)
    (hks : ∀ k ∈ ks, Spelt k) : ∀ x ∈ xs, IsIdentifier x := by
  induction h with
  | one =>
    intro x hx
    obtain rfl := List.mem_singleton.1 hx
    exact hks _ List.mem_cons_self
  | more _ ih =>
    simp only [List.forall_mem_cons] at hks
    exact List.forall_mem_cons.2 ⟨hks.1, ih hks.2.2⟩

theorem Params.isIdentifier {ks : List TokenKind} {xs : List String} (h : Params ks xs)
    (hks : ∀ k ∈ ks, Spelt k) : ∀ x ∈ xs, IsIdentifier x := by
  cases h with
  | none => simp
  | some h => exact h.isIdentifier hks

mutual

theorem Expression.writable {l : Layer} {ks : List TokenKind} {e : Expr} (h : Expression l ks e)
    (hks : ∀ k ∈ ks, Spelt k) : e.Writable := by
  match h with
  | .tighter h => exact h.writable hks
  | .assign ht hv =>
    simp only [List.forall_mem_append, List.forall_mem_cons] at hks
    exact .assign (ht.writable hks.1) (hv.writable hks.2.2)
  | .binary _ ha hb =>
    simp only [List.forall_mem_append, List.forall_mem_cons] at hks
    exact .binary (ha.writable hks.1) (hb.writable hks.2.2)
  | .not h | .neg h => exact .unary (h.writable (List.forall_mem_cons.1 hks).2)
  | .call hf ha =>
    simp only [List.forall_mem_append, List.forall_mem_cons] at hks
    exact .call (hf.writable hks.1) (ha.writable hks.2.2.1)
  | .index hb hi =>
    simp only [List.forall_mem_append, List.forall_mem_cons] at hks
    exact .index (hb.writable hks.1) (hi.writable hks.2.2.1)
  | .int => exact .int (hks _ List.mem_cons_self)
  | .str => exact .str
  | .ident => exact .ident (hks _ List.mem_cons_self)
  | .true | .false => exact .bool
  | .group h =>
    simp only [List.forall_mem_append, List.forall_mem_cons] at hks
    exact h.writable hks.2.1
  | .cond hc hb =>
    simp only [List.forall_mem_append, List.forall_mem_cons] at hks
    exact .cond (hc.writable hks.2.2.1) (hb.writable hks.2.2.2.2)
  | .condElse hc hb hd =>
    simp only [List.forall_mem_append, List.forall_mem_cons] at hks
    obtain ⟨-, -, hcs, -, hbs, -, hds⟩ := hks
    exact .condElse (hc.writable hcs) (hb.writable hbs) (hd.writable hds)
  | .function hp hb =>
    simp only [List.forall_mem_append, List.forall_mem_cons] at hks
    exact .function (hp.isIdentifier hks.2.2.1) (hb.writable hks.2.2.2.2)
  | .array hes =>
    simp only [List.forall_mem_append, List.forall_mem_cons] at hks
    exact .array (hes.writable hks.2.1)
  | .hash hes =>
    simp only [List.forall_mem_append, List.forall_mem_cons] at hks
    exact .hash (hes.writable hks.2.1)

theorem Items1.writable {ks : List TokenKind} {es : List Expr} (h : Items1 ks es)
    (hks : ∀ k ∈ ks, Spelt k) : Expr.WritableAll es := by
  match h with
  | .one h => exact .cons (h.writable hks) .nil
  | .more h hes =>
    simp only [List.forall_mem_append, List.forall_mem_cons] at hks
    exact .cons (h.writable hks.1) (hes.writable hks.2.2)

theorem Items.writable {ks : List TokenKind} {es : List Expr} (h : Items ks es)
    (hks : ∀ k ∈ ks, Spelt k) : Expr.WritableAll es := by
  match h with
  | .none => exact .nil
  | .some h => exact h.writable hks

theorem Entries.writable {ks : List TokenKind} {es : List (Expr × Expr)} (h : Entries ks es)
    (hks : ∀ k ∈ ks, Spelt k) : Expr.WritableEntries es := by
  match h with
  | .none => exact .nil
  | .one hk hv =>
    simp only [List.forall_mem_append, List.forall_mem_cons] at hks
    exact .cons (hk.writable hks.1) (hv.writable hks.2.2) .nil
  | .more hk hv hes =>
    simp only [List.forall_mem_append, List.forall_mem_cons] at hks
    obtain ⟨hkey, -, hvalue, -, hrest⟩ := hks
    exact .cons (hk.writable hkey) (hv.writable hvalue) (hes.writable hrest)

theorem Braces.writable {ks : List TokenKind} {b : Block} (h : Braces ks b)
    (hks : ∀ k ∈ ks, Spelt k) : b.Writable := by
  match h with
  | .mk h =>
    simp only [List.forall_mem_append, List.forall_mem_cons] at hks
    exact .mk (h.writable hks.2.1)

theorem Init.writable {ks : List TokenKind} {i : Option Stmt} (h : Init ks i)
    (hks : ∀ k ∈ ks, Spelt k) : Stmt.WritableInit i := by
  match h with
  | .none => exact .none
  | .letBind h =>
    simp only [List.forall_mem_cons] at hks
    exact .letBind hks.2.1 (h.writable hks.2.2.2)
  | .expr h => exact .expr (h.writable hks)

theorem Part.writable {ks : List TokenKind} {p : Option Expr} (h : Part ks p)
    (hks : ∀ k ∈ ks, Spelt k) : Expr.WritablePart p := by
  match h with
  | .none => exact .none
  | .some h => exact .some (h.writable hks)

theorem Statement.writable {ks : List TokenKind} {s : Stmt} (h : Statement ks s)
    (hks : ∀ k ∈ ks, Spelt k) : s.Writable := by
  match h with
  | .letBind h =>
    simp only [List.forall_mem_cons] at hks
    exact .letBind hks.2.1 (h.writable hks.2.2.2)
  | .ret h => exact .ret (h.writable (List.forall_mem_cons.1 hks).2)
  | .expr h => exact .expr (h.writable hks)
  | .forLoop hi hc ha hb =>
    simp only [List.forall_mem_append, List.forall_mem_cons] at hks
    obtain ⟨-, -, his, -, hcs, -, has, -, hbs⟩ := hks
    exact .forLoop (hi.writable his) (hc.writable hcs) (ha.writable has) (hb.writable hbs)

theorem Statements.writable {ks : List TokenKind} {ss : List Stmt} (h : Statements ks ss)
    (hks : ∀ k ∈ ks, Spelt k) : Stmt.WritableAll ss := by
  match h with
  | .nil => exact .nil
  | .closed hs hss =>
    simp only [List.forall_mem_append, List.forall_mem_cons] at hks
    exact .cons (hs.writable hks.1) (hss.writable hks.2.2)
  | .bare hs hss _ =>
    rw [List.forall_mem_append] at hks
    exact .cons (hs.writable hks.1) (hss.writable hks.2)

end

end Grammar

end MonkeyLang
