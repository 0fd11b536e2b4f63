import Mathlib.Data.List.Forall2
import MonkeyLang.Program.Printer
import MonkeyLang.Proofs.Display.Lexes

/-!
# The canonical form is cut into its words

The text of a program in canonical form consists of the words that it is meant to consist of. The
proof goes through the tree, and through the text of a node from its end to its beginning: what
follows the node is cut into words already, and one word after the other is put before it.

## Main statements

* `Stmt.WritableAll.lexes` : the words of a program in canonical form.
-/

namespace MonkeyLang

open MonkeyLang.Lexical

/-- `LexesAs text ks`: the text is cut into the words `ks`, before any text that breaks words. -/
def LexesAs (text : String) (ks : List TokenKind) : Prop :=
  ∀ rest ls, Breaks rest → Lexes rest ls → Lexes (text.toList ++ rest) (ks ++ ls)

namespace LexesAs

variable {s t : String} {ks ls : List TokenKind}

theorem nil : LexesAs "" [] := fun _ _ _ h => h

theorem ident {x : String} (hx : IsIdentifier x) : LexesAs x [.ident x] :=
  fun _ _ hrest h => h.ident hx hrest

/-- The texts of a list with commas between them. -/
theorem separated {texts : List String} {kss : List (List TokenKind)}
    (h : List.Forall₂ LexesAs texts kss) : LexesAs (separated ", " texts) (commaSeparated kss) := by
  induction h with
  | nil => exact nil
  | @cons s ks texts kss hs htexts ih =>
    cases htexts with
    | nil => exact hs
    | cons _ _ =>
      intro rest ls hrest hl
      have hcomma := ((ih rest ls hrest hl).blank ' ' rfl).delimiter ',' rfl
      simpa [separated_cons_cons, commaSeparated] using hs _ _ (breaks_cons rfl _) hcomma

/-- The texts of a list with blanks between them. -/
theorem spaced {c : Char} (hc : isSpace c = true) {texts : List String} {kss : List (List TokenKind)}
    (h : List.Forall₂ LexesAs texts kss) :
    LexesAs (MonkeyLang.separated c.toString texts) kss.flatten := by
  have hbreaks : isWordPart c = false := by
    rw [Bool.eq_false_iff, Ne, isWordPart_iff]
    exact ((isSpace_iff c).1 hc).not_part
  induction h with
  | nil => exact nil
  | @cons s ks texts kss hs htexts ih =>
    cases htexts with
    | nil => simpa using hs
    | cons _ _ =>
      intro rest ls hrest hl
      have hblank := (ih rest ls hrest hl).blank c hc
      simpa [separated_cons_cons] using hs _ _ (breaks_cons hbreaks _) hblank

/-- A text in braces, with blanks next to them. -/
theorem braces (h : LexesAs s ks) :
    LexesAs ("\x7b " ++ s ++ " \x7d") (.lbrace :: (ks ++ [.rbrace])) := by
  intro rest ls hrest hl
  have hclose := (hl.delimiter '}' rfl).blank ' ' rfl
  have hopen := ((h _ _ (breaks_cons rfl _) hclose).blank ' ' rfl).delimiter '{' rfl
  simpa using hopen

/-- A binding of a name to a value. -/
theorem letBinding {x : String} (hx : IsIdentifier x) (h : LexesAs s ks) :
    LexesAs ("let " ++ x ++ " = " ++ s ++ ";")
      (.letKw :: .ident x :: .assign :: (ks ++ [.semicolon])) := by
  intro rest ls _ hl
  have hvalue := h _ _ (breaks_cons rfl _) (hl.delimiter ';' rfl)
  have hsign := (hvalue.blank ' ' rfl).symbol (c := '=') rfl (by simp [symbolPair?])
  have hname := Lexes.ident hx (breaks_cons rfl _) (hsign.blank ' ' rfl)
  have hlet := Lexes.keyword .letKw (breaks_cons rfl _) (hname.blank ' ' rfl)
  simpa [TokenKind.displayName] using hlet

end LexesAs

theorem Stmt.tokensAll_eq_flatten (ss : List Stmt) :
    Stmt.tokensAll ss = (ss.map Stmt.tokens).flatten := by
  induction ss with
  | nil => rfl
  | cons s ss ih => rw [Stmt.tokensAll, ih, List.map_cons, List.flatten_cons]

/-- An expression in canonical form does not start with the sign of equality. -/
theorem Expr.Writable.head_display {e : Expr} (h : e.Writable) :
    ∃ c, e.display.toList.head? = some c ∧ c ≠ '=' := by
  cases h with
  | int hv =>
    obtain ⟨c, cs, hlist, hdigits, -⟩ := exists_toList_toString hv
    refine ⟨c, by rw [Expr.display, hlist, List.head?_cons], ?_⟩
    rintro rfl
    exact absurd (hdigits '=' List.mem_cons_self) (by decide)
  | @bool b _ =>
    rw [Expr.display]
    cases b with
    | true => exact ⟨'t', rfl, by decide⟩
    | false => exact ⟨'f', rfl, by decide⟩
  | str => exact ⟨'"', by simp [Expr.display, Quoted.text], by decide⟩
  | ident hx =>
    obtain ⟨c, cs, hlist, hc, -⟩ := hx.exists_toList
    refine ⟨c, by rw [Expr.display, hlist, List.head?_cons], ?_⟩
    rintro rfl
    exact absurd hc (by decide)
  | array _ => exact ⟨'[', by simp [Expr.display], by decide⟩
  | hash _ => exact ⟨'{', by simp [Expr.display], by decide⟩
  | cond _ _ | condElse _ _ _ => exact ⟨'i', by simp [Expr.display], by decide⟩
  | function _ _ => exact ⟨'f', by simp [Expr.display], by decide⟩
  | unary _ | binary _ _ | index _ _ | assign _ _ =>
    exact ⟨'(', by simp [Expr.display], by decide⟩
  | call hf _ =>
    obtain ⟨c, hhead, hc⟩ := hf.head_display
    exact ⟨c, by simp [Expr.display, hhead], hc⟩

/-- The text of a later part of a loop's header is followed by a delimiter. -/
theorem breaks_displayPart {c : Char} (hc : isWordPart c = false) (p : Option Expr)
    (cs : List Char) : Breaks ((Expr.displayPart p).toList ++ c :: cs) := by
  cases p with
  | none => exact breaks_cons hc cs
  | some e =>
    rw [Expr.displayPart, String.toList_append, List.append_assoc]
    exact breaks_cons rfl _

mutual

theorem Expr.Writable.lexes {e : Expr} (h : e.Writable) : LexesAs e.display e.tokens := by
  match h with
  | .int hv => exact fun _ _ hrest hl => hl.int hv hrest
  | .bool (b := true) => exact fun _ _ hrest hl => .keyword .trueKw hrest hl
  | .bool (b := false) => exact fun _ _ hrest hl => .keyword .falseKw hrest hl
  | .str => exact fun _ _ _ hl => hl.str
  | .ident hx => exact .ident hx
  | .array hes =>
    intro rest ls hrest hl
    have hclose := hl.delimiter ']' rfl
    have hopen := (LexesAs.separated hes.lexes _ _ (breaks_cons rfl _) hclose).delimiter '[' rfl
    simpa [Expr.display, Expr.tokens] using hopen
  | .hash hes =>
    intro rest ls hrest hl
    have hclose := hl.delimiter '}' rfl
    have hopen := (LexesAs.separated hes.lexes _ _ (breaks_cons rfl _) hclose).delimiter '{' rfl
    simpa [Expr.display, Expr.tokens] using hopen
  | @Expr.Writable.unary op e _ he =>
    intro rest ls hrest hl
    have hclose := hl.delimiter ')' rfl
    have hoperand := he.lexes _ _ (breaks_cons rfl _) hclose
    obtain ⟨c, hhead, hc⟩ := he.head_display
    cases op with
    | not =>
      have hop := hoperand.symbol (c := '!') rfl (by simp [hhead, symbolPair?, hc])
      simpa [Expr.display, Expr.tokens, UnaryOp.symbol, UnaryOp.token] using hop.delimiter '(' rfl
    | neg =>
      have hop := hoperand.delimiter '-' rfl
      simpa [Expr.display, Expr.tokens, UnaryOp.symbol, UnaryOp.token] using hop.delimiter '(' rfl
  | @Expr.Writable.binary op _ _ _ ha hb =>
    intro rest ls hrest hl
    have hright := hb.lexes _ _ (breaks_cons rfl _) (hl.delimiter ')' rfl)
    have hop := (hright.blank ' ' rfl).binaryOp op
    have hleft := ha.lexes _ _ (breaks_cons rfl _) (hop.blank ' ' rfl)
    simpa [Expr.display, Expr.tokens] using hleft.delimiter '(' rfl
  | .cond ht hb =>
    intro rest ls hrest hl
    have hbody := ((hb.lexes _ _ hrest hl).blank ' ' rfl).delimiter ')' rfl
    have htest := (ht.lexes _ _ (breaks_cons rfl _) hbody).delimiter '(' rfl
    have hif := Lexes.keyword .ifKw (breaks_cons rfl _) (htest.blank ' ' rfl)
    simpa [Expr.display, Expr.tokens, TokenKind.displayName] using hif
  | .condElse ht hb hd =>
    intro rest ls hrest hl
    have helse := Lexes.keyword .elseKw (breaks_cons rfl _) ((hd.lexes _ _ hrest hl).blank ' ' rfl)
    have hthen := hb.lexes _ _ (breaks_cons rfl _) (helse.blank ' ' rfl)
    have hbody := (hthen.blank ' ' rfl).delimiter ')' rfl
    have htest := (ht.lexes _ _ (breaks_cons rfl _) hbody).delimiter '(' rfl
    have hif := Lexes.keyword .ifKw (breaks_cons rfl _) (htest.blank ' ' rfl)
    simpa [Expr.display, Expr.tokens, TokenKind.displayName] using hif
  | @Expr.Writable.function xs _ _ _ hxs hb =>
    intro rest ls hrest hl
    have hparams : List.Forall₂ LexesAs xs (xs.map ([.ident ·])) := by
      rw [List.forall₂_map_right_iff, List.forall₂_same]
      exact fun x hx => .ident (hxs x hx)
    have hbody := ((hb.lexes _ _ hrest hl).blank ' ' rfl).delimiter ')' rfl
    have hopen := (LexesAs.separated hparams _ _ (breaks_cons rfl _) hbody).delimiter '(' rfl
    have hfn := Lexes.keyword .fnKw (breaks_cons rfl _) hopen
    simpa [Expr.display, Expr.tokens, TokenKind.displayName] using hfn
  | .call hf ha =>
    intro rest ls hrest hl
    have hclose := hl.delimiter ')' rfl
    have hargs := LexesAs.separated ha.lexes _ _ (breaks_cons rfl _) hclose
    have hcallee := hf.lexes _ _ (breaks_cons rfl _) (hargs.delimiter '(' rfl)
    simpa [Expr.display, Expr.tokens] using hcallee
  | .index hb hi =>
    intro rest ls hrest hl
    have hclose := (hl.delimiter ')' rfl).delimiter ']' rfl
    have hplace := (hi.lexes _ _ (breaks_cons rfl _) hclose).delimiter '[' rfl
    have hbase := (hb.lexes _ _ (breaks_cons rfl _) hplace).delimiter '(' rfl
    simpa [Expr.display, Expr.tokens] using hbase
  | .assign ht hv =>
    intro rest ls hrest hl
    have hvalue := hv.lexes _ _ (breaks_cons rfl _) (hl.delimiter ')' rfl)
    have hsign := (hvalue.blank ' ' rfl).symbol (c := '=') rfl (by simp [symbolPair?])
    have htarget := ht.lexes _ _ (breaks_cons rfl _) (hsign.blank ' ' rfl)
    simpa [Expr.display, Expr.tokens] using htarget.delimiter '(' rfl

theorem Expr.WritableAll.lexes {es : List Expr} (h : Expr.WritableAll es) :
    List.Forall₂ LexesAs (Expr.displayAll es) (Expr.tokensEach es) := by
  match h with
  | .nil => exact .nil
  | .cons he hes => exact .cons he.lexes hes.lexes

theorem Expr.WritableEntries.lexes {es : List (Expr × Expr)} (h : Expr.WritableEntries es) :
    List.Forall₂ LexesAs (Expr.displayEntries es) (Expr.tokensEntries es) := by
  match h with
  | .nil => exact .nil
  | .cons hk hv hes =>
    refine .cons (fun rest ls hrest hl => ?_) hes.lexes
    have hcolon := ((hv.lexes _ _ hrest hl).blank ' ' rfl).delimiter ':' rfl
    simpa using hk.lexes _ _ (breaks_cons rfl _) hcolon

theorem Expr.WritablePart.lexes {p : Option Expr} (h : Expr.WritablePart p) :
    LexesAs (Expr.displayPart p) (Expr.tokensPart p) := by
  match h with
  | .none => exact .nil
  | .some he =>
    intro rest ls hrest hl
    simpa [Expr.displayPart, Expr.tokensPart] using (he.lexes rest ls hrest hl).blank ' ' rfl

theorem Stmt.Writable.lexes {s : Stmt} (h : s.Writable) : LexesAs s.display s.tokens := by
  match h with
  | .letBind hx hv => exact hv.lexes.letBinding hx
  | .ret hv =>
    intro rest ls hrest hl
    have hvalue := hv.lexes _ _ (breaks_cons rfl _) (hl.delimiter ';' rfl)
    have hret := Lexes.keyword .returnKw (breaks_cons rfl _) (hvalue.blank ' ' rfl)
    simpa [Stmt.display, Stmt.tokens, TokenKind.displayName] using hret
  | .expr hv => exact hv.lexes
  | .forLoop hi ht ha hb =>
    intro rest ls hrest hl
    have hbody := ((hb.lexes _ _ hrest hl).blank ' ' rfl).delimiter ')' rfl
    have hafter := (ha.lexes _ _ (breaks_cons rfl _) hbody).delimiter ';' rfl
    have htest := ht.lexes _ _ (breaks_cons rfl _) hafter
    have hinit := hi.lexes _ _ (breaks_displayPart rfl _ _) htest
    have hopen := (hinit.delimiter '(' rfl).blank ' ' rfl
    have hfor := Lexes.keyword .forKw (breaks_cons rfl _) hopen
    simpa [Stmt.display, Stmt.tokens, TokenKind.displayName] using hfor

theorem Stmt.WritableInit.lexes {i : Option Stmt} (h : Stmt.WritableInit i) :
    LexesAs (Stmt.displayInit i) (Stmt.tokensInit i) := by
  match h with
  | .none => exact fun _ _ _ hl => hl.delimiter ';' rfl
  | .letBind hx hv => exact hv.lexes.letBinding hx
  | .expr hv =>
    intro rest ls hrest hl
    have hvalue := hv.lexes _ _ (breaks_cons rfl _) (hl.delimiter ';' rfl)
    simpa [Stmt.displayInit, Stmt.display, Stmt.tokensInit, Stmt.tokens] using hvalue

theorem Block.Writable.lexes {b : Block} (h : b.Writable) : LexesAs b.display b.tokens := by
  match h with
  | .mk .nil =>
    intro rest ls _ hl
    have hclose := (hl.delimiter '}' rfl).blank ' ' rfl
    simpa [Block.display, Block.tokens, Stmt.tokensAll] using hclose.delimiter '{' rfl
  | .mk (.cons hs hss) =>
    rw [Block.tokens, Stmt.tokensAll_eq_flatten]
    exact (LexesAs.spaced (c := ' ') rfl (.cons hs.lexes hss.lexes)).braces

theorem Stmt.WritableAll.lexes {ss : List Stmt} (h : Stmt.WritableAll ss) :
    List.Forall₂ LexesAs (Stmt.displayAll ss) (ss.map Stmt.tokens) := by
  match h with
  | .nil => exact .nil
  | .cons hs hss => exact .cons hs.lexes hss.lexes

end

end MonkeyLang
