import MonkeyLang.Proofs.Display.Derived

/-!
# Counting joints

A joint is a token that goes on with the operand before it: an infix operator, an equals sign, or
the parenthesis or bracket of a call or an index expression. All token lists that derive a tree have
as many joints as the tree says. In the canonical form there is one more for every statement that
runs on into the next one. So such a form does not derive the tree that it was made from.

Joints are counted from left to right. An operand ends with a literal, a name or a closing bracket,
except the brackets of a loop: what follows a loop does not go on with it. So the scan has to know
which brackets are those of loops.

## Main statements

* `Statements.scan` : the joints of a derivation.
* `Stmt.WritableAll.scan` : the joints of the canonical form.
* `clashesAll_eq_zero` : a canonical form that derives its tree has no statement that runs on.
-/

namespace MonkeyLang

open Grammar

/-! ### The joints of a tree -/

mutual

/-- The number of joints of an expression. -/
def Expr.joints : Expr → Nat
  | .int .. | .bool .. | .str .. | .ident .. => 0
  | .array items _ => Expr.jointsAll items
  | .hash entries _ => Expr.jointsEntries entries
  | .unary _ operand _ => operand.joints
  | .binary _ left right _ => left.joints + 1 + right.joints
  | .cond test thenBlock none _ => test.joints + thenBlock.joints
  | .cond test thenBlock (some elseBlock) _ => test.joints + thenBlock.joints + elseBlock.joints
  | .function _ body _ _ => body.joints
  | .call callee args _ => callee.joints + 1 + Expr.jointsAll args
  | .index base place _ => base.joints + 1 + place.joints
  | .assign target value _ => target.joints + 1 + value.joints

/-- The number of joints of expressions. -/
def Expr.jointsAll : List Expr → Nat
  | [] => 0
  | e :: es => e.joints + Expr.jointsAll es

/-- The number of joints of the entries of a hash literal. -/
def Expr.jointsEntries : List (Expr × Expr) → Nat
  | [] => 0
  | (key, value) :: entries => key.joints + value.joints + Expr.jointsEntries entries

/-- The number of joints of a later part of a loop's header. -/
def Expr.jointsPart : Option Expr → Nat
  | none => 0
  | some e => e.joints

/-- The number of joints of a statement; the equals sign of a binding is one. -/
def Stmt.joints : Stmt → Nat
  | .letBind _ value _ => 1 + value.joints
  | .ret value _ | .expr value _ => value.joints
  | .forLoop init test after body _ =>
    Stmt.jointsPart init + Expr.jointsPart test + Expr.jointsPart after + body.joints

/-- The number of joints of the first part of a loop's header. -/
def Stmt.jointsPart : Option Stmt → Nat
  | none => 0
  | some s => s.joints

/-- The number of joints of a block. -/
def Block.joints : Block → Nat
  | ⟨statements, _⟩ => Stmt.jointsAll statements

/-- The number of joints of statements. -/
def Stmt.jointsAll : List Stmt → Nat
  | [] => 0
  | s :: ss => s.joints + Stmt.jointsAll ss

end

/-! ### The scan -/

/-- What is known between two tokens. -/
structure Scan where
  /-- The brackets that are open, the innermost first, and whether each belongs to a loop. -/
  opened : List Bool
  /-- Whether the token before ends an operand. -/
  operand : Bool
  /-- Whether a bracket that comes next belongs to a loop. -/
  loop : Bool
  /-- The joints so far. -/
  count : Nat

namespace Scan

/-- Goes past a token. -/
def step (s : Scan) (k : TokenKind) : Scan :=
  let count := s.count + (s.operand && continues k).toNat
  match k with
  | .lparen | .lbracket | .lbrace => ⟨s.loop :: s.opened, false, false, count⟩
  | .rparen => ⟨s.opened.tail, !s.opened.headD false, s.opened.headD false, count⟩
  | .rbracket | .rbrace => ⟨s.opened.tail, !s.opened.headD false, false, count⟩
  | .forKw => ⟨s.opened, false, true, count⟩
  | .int _ | .str _ | .ident _ | .trueKw | .falseKw => ⟨s.opened, true, false, count⟩
  | _ => ⟨s.opened, false, false, count⟩

/-- Goes past tokens. -/
def run (s : Scan) (ks : List TokenKind) : Scan := ks.foldl step s

@[simp] theorem run_nil (s : Scan) : s.run [] = s := rfl

@[simp] theorem run_cons (s : Scan) (k : TokenKind) (ks : List TokenKind) :
    s.run (k :: ks) = (s.step k).run ks := rfl

@[simp] theorem run_append (s : Scan) (ks ls : List TokenKind) :
    s.run (ks ++ ls) = (s.run ks).run ls := List.foldl_append

/-- After an operand the next token may be a joint. -/
theorem run_operand (o : List Bool) (n : Nat) (k : TokenKind) (ks : List TokenKind) :
    run ⟨o, true, false, n⟩ (k :: ks) =
      run ⟨o, false, false, n + (continues k).toNat⟩ (k :: ks) := by
  cases k <;> simp [step, continues]

end Scan

/-- Past the tokens of an expression the same brackets are open, an operand has ended, and there are
`n` more joints. -/
def ScansAs (ks : List TokenKind) (n : Nat) : Prop :=
  ∀ o m, Scan.run ⟨o, false, false, m⟩ ks = ⟨o, true, false, m + n⟩

/-- As `ScansAs`, but an operand has ended or not. -/
def ScansTo (ks : List TokenKind) (n : Nat) : Prop :=
  ∀ o m, ∃ b, Scan.run ⟨o, false, false, m⟩ ks = ⟨o, b, false, m + n⟩

/-- Past the tokens of a block an operand has ended, unless it is that of a loop. -/
def ScansBlock (ks : List TokenKind) (n : Nat) : Prop :=
  ∀ o a l m, Scan.run ⟨o, a, l, m⟩ ks = ⟨o, !l, false, m + n⟩

/-- Past the tokens of a statement without its semicolon an operand has ended, unless it is a
loop. -/
def ScansStatement (ks : List TokenKind) (l : Bool) (n : Nat) : Prop :=
  ∀ o m, Scan.run ⟨o, false, false, m⟩ ks = ⟨o, !l, false, m + n⟩

section Shapes

variable {ks ls ms : List TokenKind} {i j n : Nat}

theorem ScansAs.scansTo (h : ScansAs ks n) : ScansTo ks n := fun o m => ⟨true, h o m⟩

theorem ScansTo.nil : ScansTo [] 0 := fun _ _ => ⟨false, rfl⟩

/-- Tokens after an operand that start with a joint. -/
theorem ScansAs.joint {k : TokenKind} (h : ScansAs ks i)
    (hk : ∀ o m, Scan.step ⟨o, true, false, m⟩ k = ⟨o, false, false, m + 1⟩) (hl : ScansAs ls j) :
    ScansAs (ks ++ k :: ls) (i + 1 + j) := by
  intro o m
  rw [Scan.run_append, h, Scan.run_cons, hk, hl]
  congr 1
  omega

/-- Tokens between an opening and a closing bracket. -/
theorem ScansTo.between {k c : TokenKind} (h : ScansTo ks n)
    (hk : k = .lparen ∧ c = .rparen ∨ k = .lbracket ∧ c = .rbracket ∨ k = .lbrace ∧ c = .rbrace) :
    ScansAs (k :: (ks ++ [c])) n := by
  intro o m
  obtain ⟨b, hb⟩ := h (false :: o) m
  obtain ⟨rfl, rfl⟩ | ⟨rfl, rfl⟩ | ⟨rfl, rfl⟩ := hk <;>
    simp [Scan.step, continues, hb]

/-- Tokens between brackets after an operand. -/
theorem ScansAs.bracketed {k c : TokenKind} (h : ScansAs ks i) (hl : ScansTo ls j)
    (hk : k = .lparen ∧ c = .rparen ∨ k = .lbracket ∧ c = .rbracket) :
    ScansAs (ks ++ k :: (ls ++ [c])) (i + 1 + j) := by
  intro o m
  obtain ⟨b, hb⟩ := hl (false :: o) (m + i + 1)
  obtain ⟨rfl, rfl⟩ | ⟨rfl, rfl⟩ := hk <;>
    simp [Scan.step, continues, h o m, hb] <;> omega

/-- Tokens between the braces of a block. -/
theorem ScansTo.braces (h : ScansTo ks n) : ScansBlock (.lbrace :: (ks ++ [.rbrace])) n := by
  intro o a l m
  obtain ⟨b, hb⟩ := h (l :: o) m
  simp [Scan.step, continues, hb]

/-- A comma or a colon between two lists of tokens. -/
theorem ScansTo.separated {k : TokenKind} (h : ScansTo ks i) (hl : ScansTo ls j)
    (hk : k = .comma ∨ k = .colon ∨ k = .semicolon) : ScansTo (ks ++ k :: ls) (i + j) := by
  intro o m
  obtain ⟨b, hb⟩ := h o m
  obtain ⟨b', hb'⟩ := hl o (m + i)
  refine ⟨b', ?_⟩
  obtain rfl | rfl | rfl := hk <;>
    simp [Scan.step, continues, hb, hb', Nat.add_assoc]

/-- A keyword with parentheses and a block after it. -/
theorem ScansTo.headed {k : TokenKind} (h : ScansTo ks i) (hb : ScansBlock ls j)
    (hk : k = .ifKw ∨ k = .fnKw) : ScansAs (k :: .lparen :: (ks ++ .rparen :: ls)) (i + j) := by
  intro o m
  obtain ⟨b, hks⟩ := h (false :: o) m
  obtain rfl | rfl := hk <;>
    simp [Scan.step, continues, hks, hb o true false (m + i), Nat.add_assoc]

/-- A second block. -/
theorem ScansAs.otherwise (h : ScansAs ks i) (hb : ScansBlock ls j) :
    ScansAs (ks ++ .elseKw :: ls) (i + j) := by
  intro o m
  simp [Scan.step, continues, h o m, hb o false false (m + i), Nat.add_assoc]

/-- A loop, whose brackets do not end an operand. -/
theorem ScansTo.loop {is cs as bs : List TokenKind} {p q r n : Nat} (hi : ScansTo is p)
    (hc : ScansTo cs q) (ha : ScansTo as r) (hb : ScansBlock bs n) :
    ScansStatement
      (.forKw :: .lparen :: (is ++ .semicolon :: (cs ++ .semicolon :: (as ++ .rparen :: bs)))) true
      (p + q + r + n) := by
  intro o m
  obtain ⟨b₁, h₁⟩ := hi (true :: o) m
  obtain ⟨b₂, h₂⟩ := hc (true :: o) (m + p)
  obtain ⟨b₃, h₃⟩ := ha (true :: o) (m + p + q)
  simp [Scan.step, continues, h₁, h₂, h₃, hb o false true (m + p + q + r)]
  omega

/-- A binding; its equals sign is a joint. -/
theorem ScansAs.letBinding {x : String} (h : ScansAs ks n) :
    ScansAs (.letKw :: .ident x :: .assign :: ks) (1 + n) := by
  intro o m
  simp [Scan.step, continues, h o (m + 1), Nat.add_assoc]

theorem ScansAs.ret (h : ScansAs ks n) : ScansAs (.returnKw :: ks) n := by
  intro o m
  simp [Scan.step, continues, h o m]

/-- A statement with a semicolon before others. -/
theorem ScansStatement.closed {l : Bool} (h : ScansStatement ks l i) (hs : ScansTo ls j) :
    ScansTo (ks ++ .semicolon :: ls) (i + j) := by
  intro o m
  obtain ⟨b, hb⟩ := hs o (m + i)
  refine ⟨b, ?_⟩
  simp [Scan.step, continues, h o m, hb, Nat.add_assoc]

/-- A statement without a semicolon before others. If it is no loop and the first token of the
others goes on with it, that token is a joint. -/
theorem ScansStatement.bare {l : Bool} (h : ScansStatement ks l i) (hs : ScansTo ls j) :
    ScansTo (ks ++ ls) (i + j + if l = false ∧ ls.head?.any continues then 1 else 0) := by
  intro o m
  cases ls with
  | nil =>
    obtain ⟨b, hb⟩ := hs o m
    obtain rfl : j = 0 := by simpa using congrArg Scan.count hb
    exact ⟨!l, by simp [h o m]⟩
  | cons k ls =>
    cases l with
    | true =>
      obtain ⟨b, hb⟩ := hs o (m + i)
      refine ⟨b, ?_⟩
      rw [Scan.run_append, h]
      simpa [Nat.add_assoc] using hb
    | false =>
      obtain ⟨b, hb⟩ := hs o (m + i + (continues k).toNat)
      refine ⟨b, ?_⟩
      rw [Scan.run_append, h, Bool.not_false, Scan.run_operand, hb]
      cases hk : continues k <;> simp [hk] <;> omega

end Shapes

theorem step_joint {l : Layer} {k : TokenKind} {op : BinaryOp} (h : l.operator? k = some op)
    (o : List Bool) (m : Nat) : Scan.step ⟨o, true, false, m⟩ k = ⟨o, false, false, m + 1⟩ := by
  obtain ⟨hk, -⟩ := operator?_eq_some_iff.1 h
  cases k <;> simp [Extension.ofToken?] at hk <;> rfl

theorem Grammar.Names.scan {ks : List TokenKind} {xs : List String} (h : Names ks xs) :
    ScansAs ks 0 := by
  intro o m
  induction h with
  | one => rfl
  | more _ ih => simpa [Scan.step, continues] using ih

theorem Grammar.Params.scan {ks : List TokenKind} {xs : List String} (h : Params ks xs) :
    ScansTo ks 0 := by
  cases h with
  | none => exact .nil
  | some h => exact h.scan.scansTo

/-! ### Derivations -/

namespace Grammar

mutual

theorem Expression.scan {l : Layer} {ks : List TokenKind} {e : Expr} (h : Expression l ks e) :
    ScansAs ks e.joints := by
  match h with
  | .tighter h => exact h.scan
  | .assign ht hv => exact ht.scan.joint (fun _ _ => rfl) hv.scan
  | .binary hop ha hb => exact ha.scan.joint (step_joint hop) hb.scan
  | .not h => exact fun o m => h.scan o m
  | .neg h => exact fun o m => h.scan o m
  | .call hf ha => exact hf.scan.bracketed ha.scan (.inl ⟨rfl, rfl⟩)
  | .index hb hi => exact hb.scan.bracketed hi.scan.scansTo (.inr ⟨rfl, rfl⟩)
  | .int | .str | .ident | .true | .false => exact fun _ _ => rfl
  | .group h => exact h.scan.scansTo.between (.inl ⟨rfl, rfl⟩)
  | .cond hc hb => exact hc.scan.scansTo.headed hb.scan (.inl rfl)
  | .condElse hc hb hd =>
    have := (hc.scan.scansTo.headed hb.scan (.inl rfl)).otherwise hd.scan
    simpa [Expr.joints] using this
  | .function hp hb =>
    have := hp.scan.headed hb.scan (.inr rfl)
    simpa [Expr.joints] using this
  | .array h => exact h.scan.between (.inr (.inl ⟨rfl, rfl⟩))
  | .hash h => exact h.scan.between (.inr (.inr ⟨rfl, rfl⟩))

theorem Items1.scan {ks : List TokenKind} {es : List Expr} (h : Items1 ks es) :
    ScansTo ks (Expr.jointsAll es) := by
  match h with
  | .one h => exact h.scan.scansTo
  | .more h hs => exact h.scan.scansTo.separated hs.scan (.inl rfl)

theorem Items.scan {ks : List TokenKind} {es : List Expr} (h : Items ks es) :
    ScansTo ks (Expr.jointsAll es) := by
  match h with
  | .none => exact .nil
  | .some h => exact h.scan

theorem Entries.scan {ks : List TokenKind} {es : List (Expr × Expr)} (h : Entries ks es) :
    ScansTo ks (Expr.jointsEntries es) := by
  match h with
  | .none => exact .nil
  | .one hk hv => exact hk.scan.scansTo.separated hv.scan.scansTo (.inr (.inl rfl))
  | .more hk hv hes =>
    have := (hk.scan.scansTo.separated hv.scan.scansTo (.inr (.inl rfl))).separated hes.scan
      (.inl rfl)
    simpa [Expr.jointsEntries] using this

theorem Braces.scan {ks : List TokenKind} {b : Block} (h : Braces ks b) :
    ScansBlock ks b.joints := by
  match h with
  | .mk h => exact h.scan.braces

theorem Init.scan {ks : List TokenKind} {i : Option Stmt} (h : Init ks i) :
    ScansTo ks (Stmt.jointsPart i) := by
  match h with
  | .none => exact .nil
  | .letBind h => exact h.scan.letBinding.scansTo
  | .expr h => exact h.scan.scansTo

theorem Part.scan {ks : List TokenKind} {p : Option Expr} (h : Part ks p) :
    ScansTo ks (Expr.jointsPart p) := by
  match h with
  | .none => exact .nil
  | .some h => exact h.scan.scansTo

theorem Statement.scan {ks : List TokenKind} {s : Stmt} (h : Statement ks s) :
    ScansStatement ks (isLoop s) s.joints := by
  match h with
  | .letBind h => exact h.scan.letBinding
  | .ret h => exact h.scan.ret
  | .expr h => exact h.scan
  | .forLoop hi hc ha hb => exact hi.scan.loop hc.scan ha.scan hb.scan

theorem Statements.scan {ks : List TokenKind} {ss : List Stmt} (h : Statements ks ss) :
    ScansTo ks (Stmt.jointsAll ss) := by
  match h with
  | .nil => exact .nil
  | .closed hs hss => exact hs.scan.closed hss.scan
  | @Statements.bare _ ls _ _ hs hss hfree =>
    have := hs.scan.bare hss.scan
    rwa [if_neg] at this
    rintro ⟨hl, hk⟩
    cases ls with
    | nil => cases hk
    | cons k ls => exact absurd hk (by simp [hfree hl k rfl])

end

end Grammar

/-! ### Canonical forms -/

section Canonical

variable {ks ls : List TokenKind} {i n : Nat}

theorem ScansAs.of_eq (h : ScansAs ks i) (hks : ks = ls) (hn : i = n) : ScansAs ls n :=
  hks ▸ hn ▸ h

theorem ScansTo.of_eq (h : ScansTo ks i) (hks : ks = ls) (hn : i = n) : ScansTo ls n :=
  hks ▸ hn ▸ h

/-- Tokens before others with commas between them. -/
theorem ScansTo.commaSeparated_cons {kss : List (List TokenKind)} {j : Nat} (h : ScansTo ks i)
    (hs : ScansTo (commaSeparated kss) j) : ScansTo (commaSeparated (ks :: kss)) (i + j) := by
  cases kss with
  | nil =>
    obtain ⟨b, hb⟩ := hs [] 0
    obtain rfl : j = 0 := by simpa [commaSeparated] using (congrArg Scan.count hb).symm
    exact h
  | cons ks' kss => exact h.separated hs (.inl rfl)

theorem ScansAs.unary (h : ScansAs ks n) (op : UnaryOp) :
    ScansAs (.lparen :: op.token :: (ks ++ [.rparen])) n := by
  have hop : ScansTo (op.token :: ks) n := by
    intro o m
    cases op <;> exact ⟨true, h o m⟩
  exact hop.between (.inl ⟨rfl, rfl⟩)

theorem scansTo_params (xs : List String) : ScansTo (commaSeparated (xs.map ([.ident ·]))) 0 := by
  induction xs with
  | nil => exact .nil
  | cons x xs ih => exact ScansTo.commaSeparated_cons (i := 0) (fun _ _ => ⟨true, rfl⟩) ih

end Canonical

mutual

theorem Expr.Writable.scan {e : Expr} (h : e.Writable) :
    ScansAs e.tokens (e.joints + e.clashes) := by
  match h with
  | .int _ | .bool (b := true) | .bool (b := false) | .str | .ident _ => exact fun _ _ => rfl
  | .array hes => exact hes.scan.between (.inr (.inl ⟨rfl, rfl⟩))
  | .hash hes => exact hes.scan.between (.inr (.inr ⟨rfl, rfl⟩))
  | @Expr.Writable.unary op _ _ he => exact he.scan.unary op
  | @Expr.Writable.binary op _ _ _ ha hb =>
    refine ((ha.scan.joint (step_joint (operator?_token op)) hb.scan).scansTo.between
      (.inl ⟨rfl, rfl⟩)).of_eq (by simp [Expr.tokens]) ?_
    simp only [Expr.joints, Expr.clashes]
    omega
  | .cond ht hb =>
    refine (ht.scan.scansTo.headed hb.scan (.inl rfl)).of_eq rfl ?_
    simp only [Expr.joints, Expr.clashes]
    omega
  | .condElse ht hb hd =>
    refine ((ht.scan.scansTo.headed hb.scan (.inl rfl)).otherwise hd.scan).of_eq
      (by simp [Expr.tokens]) ?_
    simp only [Expr.joints, Expr.clashes]
    omega
  | .function _ hb =>
    refine ((scansTo_params _).headed hb.scan (.inr rfl)).of_eq rfl ?_
    simp only [Expr.joints, Expr.clashes]
    omega
  | .call hf ha =>
    refine (hf.scan.bracketed ha.scan (.inl ⟨rfl, rfl⟩)).of_eq rfl ?_
    simp only [Expr.joints, Expr.clashes]
    omega
  | .index hb hi =>
    refine ((hb.scan.bracketed hi.scan.scansTo (.inr ⟨rfl, rfl⟩)).scansTo.between
      (.inl ⟨rfl, rfl⟩)).of_eq (by simp [Expr.tokens]) ?_
    simp only [Expr.joints, Expr.clashes]
    omega
  | .assign ht hv =>
    refine ((ht.scan.joint (k := .assign) (fun _ _ => rfl) hv.scan).scansTo.between
      (.inl ⟨rfl, rfl⟩)).of_eq (by simp [Expr.tokens]) ?_
    simp only [Expr.joints, Expr.clashes]
    omega

theorem Expr.WritableAll.scan {es : List Expr} (h : Expr.WritableAll es) :
    ScansTo (commaSeparated (Expr.tokensEach es)) (Expr.jointsAll es + Expr.clashesAll es) := by
  match h with
  | .nil => exact .nil
  | .cons he hes =>
    refine (he.scan.scansTo.commaSeparated_cons hes.scan).of_eq rfl ?_
    simp only [Expr.jointsAll, Expr.clashesAll]
    omega

theorem Expr.WritableEntries.scan {es : List (Expr × Expr)} (h : Expr.WritableEntries es) :
    ScansTo (commaSeparated (Expr.tokensEntries es))
      (Expr.jointsEntries es + Expr.clashesEntries es) := by
  match h with
  | .nil => exact .nil
  | .cons hk hv hes =>
    refine ((hk.scan.scansTo.separated hv.scan.scansTo (.inr (.inl rfl))).commaSeparated_cons
      hes.scan).of_eq rfl ?_
    simp only [Expr.jointsEntries, Expr.clashesEntries]
    omega

theorem Expr.WritablePart.scan {e : Option Expr} (h : Expr.WritablePart e) :
    ScansTo (Expr.tokensPart e) (Expr.jointsPart e + Expr.clashesPart e) := by
  match h with
  | .none => exact .nil
  | .some he => exact he.scan.scansTo

/-- A statement of the canonical form before others. -/
theorem Stmt.Writable.scan {s : Stmt} (h : s.Writable) {ks : List TokenKind} {n : Nat}
    (hks : ScansTo ks n) :
    ScansTo (s.tokens ++ ks)
      (s.joints + s.clashes + n + if s.clashesWith ks then 1 else 0) := by
  match h with
  | .letBind (x := x) _ hv =>
    refine (ScansStatement.closed (l := false) (hv.scan.letBinding (x := x)) hks).of_eq
      (by simp [Stmt.tokens]) ?_
    simp [Stmt.joints, Stmt.clashes, Stmt.clashesWith, Stmt.isExpr]
    omega
  | .ret hv =>
    refine (ScansStatement.closed (l := false) hv.scan.ret hks).of_eq (by simp [Stmt.tokens]) ?_
    simp [Stmt.joints, Stmt.clashes, Stmt.clashesWith, Stmt.isExpr]
  | .expr hv =>
    refine (ScansStatement.bare (l := false) hv.scan hks).of_eq (by simp [Stmt.tokens]) ?_
    simp [Stmt.joints, Stmt.clashes, Stmt.clashesWith, Stmt.isExpr]
  | .forLoop hi ht ha hb =>
    obtain ⟨is, his, hinit⟩ := hi.scan
    refine ((hinit.loop ht.scan ha.scan hb.scan).bare hks).of_eq (by simp [Stmt.tokens, his]) ?_
    simp [Stmt.joints, Stmt.clashes, Stmt.clashesWith, Stmt.isExpr]
    omega

theorem Stmt.WritableInit.scan {i : Option Stmt} (h : Stmt.WritableInit i) :
    ∃ ks, Stmt.tokensInit i = ks ++ [.semicolon] ∧
      ScansTo ks (Stmt.jointsPart i + Stmt.clashesPart i) := by
  match h with
  | .none => exact ⟨[], rfl, .nil⟩
  | .letBind _ hv =>
    refine ⟨_, rfl, hv.scan.letBinding.scansTo.of_eq rfl ?_⟩
    simp only [Stmt.jointsPart, Stmt.clashesPart, Stmt.joints, Stmt.clashes]
    omega
  | .expr hv => exact ⟨_, rfl, hv.scan.scansTo⟩

theorem Block.Writable.scan {b : Block} (h : b.Writable) :
    ScansBlock b.tokens (b.joints + b.clashes) := by
  match h with
  | .mk hss => exact hss.scan.braces

theorem Stmt.WritableAll.scan {ss : List Stmt} (h : Stmt.WritableAll ss) :
    ScansTo (Stmt.tokensAll ss) (Stmt.jointsAll ss + Stmt.clashesAll ss) := by
  match h with
  | .nil => exact .nil
  | .cons hs hss =>
    refine (hs.scan hss.scan).of_eq rfl ?_
    simp only [Stmt.jointsAll, Stmt.clashesAll]
    omega

end

/-- A canonical form that derives its tree has no statement that runs on into the next one. -/
theorem clashesAll_eq_zero {ss : List Stmt} (h : Stmt.WritableAll ss)
    (hd : Statements (Stmt.tokensAll ss) ss) : Stmt.clashesAll ss = 0 := by
  obtain ⟨b, hb⟩ := h.scan [] 0
  obtain ⟨b', hb'⟩ := hd.scan [] 0
  have := congrArg Scan.count (hb.symm.trans hb')
  simp only at this
  omega

end MonkeyLang
