import MonkeyLang.Proofs.Parsing.Kinds
import MonkeyLang.Proofs.Parsing.Progress
import MonkeyLang.Proofs.Parsing.Strip

/-!
# Reading does not depend on the layout

The parser looks at the kinds of tokens. Spans end up in the tree and in errors, and errors are
compared by their spans, but nothing else is decided by a span. So token lists of the same kinds are
read into the same tree up to spans, also if there are errors in it: every statement that fails in the
one list fails in the other one, and reading goes on at the same token.

`Alike` relates what two runs of the parser have in common, and there is one lemma for the step of
each production.

## Main statements

* `Program.parse_alike` : token lists of the same kinds.
-/

namespace MonkeyLang

variable {α β γ δ : Type}

/-! ### Places in two lists -/

/-- As many tokens have been consumed, and those that are left have the same kinds. -/
structure Cursor.Alike (c d : Cursor) : Prop where
  position : c.position = d.position
  kinds : c.rest.map (·.kind) = d.rest.map (·.kind)

namespace Cursor.Alike

variable {c d : Cursor}

theorem kind (h : c.Alike d) : c.kind = d.kind := by
  have hkinds := h.kinds
  obtain ⟨_, _, ts⟩ := c
  obtain ⟨_, _, us⟩ := d
  cases ts <;> cases us <;> simp_all [Cursor.kind, Cursor.current]

theorem advance (h : c.Alike d) : c.advance.Alike d.advance := by
  obtain ⟨hposition, hkinds⟩ := h
  obtain ⟨p, _, ts⟩ := c
  obtain ⟨q, _, us⟩ := d
  obtain rfl : p = q := hposition
  cases ts with
  | nil =>
    obtain rfl : us = [] := by simpa using hkinds.symm
    exact ⟨rfl, rfl⟩
  | cons t ts =>
    obtain ⟨u, us, rfl, hk, hks⟩ := List.map_eq_cons_iff.1 hkinds.symm
    simp only [Cursor.advance, hk]
    split
    · exact ⟨rfl, hkinds⟩
    · exact ⟨rfl, hks.symm⟩

end Cursor.Alike

namespace Parser

/-- The places are alike, and in both there are errors or there are none. -/
structure State.Alike (s t : State) : Prop where
  cursor : s.cursor.Alike t.cursor
  errors : s.errors = [] ↔ t.errors = []

/-- Both have been read, into things that are the same under `f`, or both fail, or both run out of
steps. -/
inductive Outcome.Alike (f : α → γ) : Outcome α → Outcome α → Prop where
  /-- Both have been read. -/
  | done {a b : α} {s t : State} (h : f a = f b) (hs : s.Alike t) :
    Alike f (.done a s) (.done b t)
  /-- Both fail, with any errors. -/
  | failed {d e : ParseError} {s t : State} (hs : s.Alike t) : Alike f (.failed d s) (.failed e t)
  /-- Both run out of steps. -/
  | outOfFuel : Alike f .outOfFuel .outOfFuel

namespace Outcome.Alike

variable {f : α → γ} {g : β → δ} {o p : Outcome α}

theorem andThen {next next' : α → State → Outcome β} (h : o.Alike f p)
    (hn : ∀ {a b s t}, f a = f b → s.Alike t → (next a s).Alike g (next' b t)) :
    (o.andThen next).Alike g (p.andThen next') := by
  cases h with
  | done h hs => exact hn h hs
  | failed hs => exact .failed hs
  | outOfFuel => exact .outOfFuel

theorem map {F F' : α → β} (h : o.Alike f p) (hF : ∀ {a b}, f a = f b → g (F a) = g (F' b)) :
    (o.map F).Alike g (p.map F') :=
  h.andThen fun hab hs => .done (hF hab) hs

theorem within (c c' : Construct) (h : o.Alike f p) : (o.within c).Alike f (p.within c') := by
  cases h with
  | done h hs => exact .done h hs
  | failed hs => exact .failed hs
  | outOfFuel => exact .outOfFuel

end Outcome.Alike

/-! ### Single tokens -/

/-- Skipping goes by the kinds. -/
theorem resume_alike (scope : Scope) (depth position : Nat) (previous previous' : Span)
    {ts us : List Token} (h : ts.map (·.kind) = us.map (·.kind)) :
    (resume scope depth position previous ts).Alike (resume scope depth position previous' us) := by
  induction ts generalizing us depth position previous previous' with
  | nil =>
    obtain rfl : us = [] := by simpa using h.symm
    exact ⟨rfl, rfl⟩
  | cons t ts ih =>
    obtain ⟨u, us, rfl, hk, hks⟩ := List.map_eq_cons_iff.1 h.symm
    have onward (depth : Nat) := ih depth (position + 1) t.span u.span hks.symm
    unfold resume
    rw [show u.kind = t.kind from hk]
    split
    · exact ⟨rfl, h⟩
    · exact ⟨rfl, hks.symm⟩
    · exact ⟨rfl, h⟩
    · exact ⟨rfl, h⟩
    · exact ⟨rfl, h⟩
    · exact onward _
    · exact onward _
    · cases scope with
      | block => exact ⟨rfl, h⟩
      | program => exact onward 0
    · exact onward _

namespace State.Alike

variable {s t : State} (h : s.Alike t)
include h

theorem kind : s.kind = t.kind := h.cursor.kind

theorem advance : s.advance.Alike t.advance := ⟨h.cursor.advance, h.errors⟩

theorem skipOne (k : TokenKind) : (s.skipOne k).Alike (t.skipOne k) := by
  unfold State.skipOne
  rw [h.kind]
  split
  · exact h.advance
  · exact h

theorem expect (k : TokenKind) : (s.expect k).Alike (fun _ => ()) (t.expect k) := by
  unfold State.expect
  rw [h.kind]
  split
  · exact .done rfl h.advance
  · exact .failed h

theorem expectIdent : s.expectIdent.Alike id t.expectIdent := by
  unfold State.expectIdent
  rw [h.kind]
  split
  · exact .done rfl h.advance
  · exact .failed h

/-- After a report there are errors. -/
theorem report (d e : ParseError) : (s.report d).Alike (t.report e) := by
  have hne (s : State) (e : ParseError) : (s.report e).errors ≠ [] := by
    unfold State.report
    split
    next hreported =>
      rintro hnil
      simp [hnil] at hreported
    next => simp
  refine ⟨?_, iff_of_false (hne s d) (hne t e)⟩
  rw [cursor_report, cursor_report]
  exact h.cursor

theorem recover (scope : Scope) (start : Nat) :
    (s.recover scope start).Alike (t.recover scope start) := by
  unfold State.recover
  rw [h.cursor.position]
  refine ⟨?_, h.errors⟩
  dsimp only
  split
  · rw [h.cursor.advance.position]
    exact resume_alike scope 0 _ _ _ h.cursor.advance.kinds
  · rw [h.cursor.position]
    exact resume_alike scope 0 _ _ _ h.cursor.kinds

theorem stops (scope : Scope) : s.stops scope = t.stops scope := by
  unfold State.stops
  rw [h.kind]

end State.Alike

/-! ### Productions -/

theorem paramNames_alike (n : Nat) {s t : State} (h : s.Alike t) :
    (paramNames n s).Alike id (paramNames n t) := by
  induction n generalizing s t with
  | zero => exact .outOfFuel
  | succ n ih =>
    rw [paramNames, paramNames]
    refine h.expectIdent.andThen fun {x y s t} hx h => ?_
    obtain rfl : x = y := hx
    rw [h.kind]
    split
    · exact (ih h.advance).map fun hxs => congrArg (x :: ·) hxs
    · exact (h.expect _).map fun _ => rfl

theorem params_alike (n : Nat) {s t : State} (h : s.Alike t) :
    (params n s).Alike id (params n t) := by
  rw [params, params]
  refine (h.expect _).andThen fun _ h => ?_
  rw [h.kind]
  split
  · exact .done rfl h.advance
  · exact paramNames_alike n h

/-- What every production does from two states that are alike, in `n` steps. -/
structure ReadsAlike (n : Nat) : Prop where
  expression : ∀ min {s t}, s.Alike t → (expression n min s).Alike Expr.strip (expression n min t)
  operators : ∀ min {d e : Expr} {s t}, d.strip = e.strip → s.Alike t →
    (operators n min d s).Alike Expr.strip (operators n min e t)
  extension : ∀ x {d e : Expr} {s t}, d.strip = e.strip → s.Alike t →
    (extension n x d s).Alike Expr.strip (extension n x e t)
  operand : ∀ {s t}, s.Alike t → (operand n s).Alike Expr.strip (operand n t)
  unary : ∀ op {s t}, s.Alike t → (unary n op s).Alike Expr.strip (unary n op t)
  grouping : ∀ {s t}, s.Alike t → (grouping n s).Alike Expr.strip (grouping n t)
  conditional : ∀ {s t}, s.Alike t → (conditional n s).Alike Expr.strip (conditional n t)
  function : ∀ {s t}, s.Alike t → (function n s).Alike Expr.strip (function n t)
  arrayLiteral : ∀ {s t}, s.Alike t → (arrayLiteral n s).Alike Expr.strip (arrayLiteral n t)
  hashLiteral : ∀ {s t}, s.Alike t → (hashLiteral n s).Alike Expr.strip (hashLiteral n t)
  expressions : ∀ close {s t}, s.Alike t →
    (expressions n close s).Alike Expr.stripAll (expressions n close t)
  expressionsFrom : ∀ close {s t}, s.Alike t →
    (expressionsFrom n close s).Alike Expr.stripAll (expressionsFrom n close t)
  entries : ∀ {s t}, s.Alike t → (entries n s).Alike Expr.stripEntries (entries n t)
  statement : ∀ {s t}, s.Alike t → (statement n s).Alike Stmt.strip (statement n t)
  letBinding : ∀ {s t}, s.Alike t → (letBinding n s).Alike Stmt.strip (letBinding n t)
  returnStatement : ∀ {s t}, s.Alike t →
    (returnStatement n s).Alike Stmt.strip (returnStatement n t)
  forLoop : ∀ {s t}, s.Alike t → (forLoop n s).Alike Stmt.strip (forLoop n t)
  loopInit : ∀ {s t}, s.Alike t → (loopInit n s).Alike Stmt.stripPart (loopInit n t)
  loopPart : ∀ close {s t}, s.Alike t →
    (loopPart n close s).Alike Expr.stripPart (loopPart n close t)
  block : ∀ {s t}, s.Alike t → (block n s).Alike Block.strip (block n t)
  statements : ∀ scope {s t}, s.Alike t →
    (statements n scope s).Alike Stmt.stripAll (statements n scope t)

namespace ReadsAlike

variable {n : Nat}

theorem zero : ReadsAlike 0 := by
  constructor <;> intros <;> exact .outOfFuel

section Step

variable (ih : ReadsAlike n) {s t : State} (h : s.Alike t)
include ih h

theorem expression_succ (min : Precedence) :
    (Parser.expression (n + 1) min s).Alike Expr.strip (Parser.expression (n + 1) min t) := by
  rw [Parser.expression, Parser.expression]
  exact (ih.operand h).andThen fun he h => ih.operators min he h

theorem operators_succ (min : Precedence) {d e : Expr} (he : d.strip = e.strip) :
    (Parser.operators (n + 1) min d s).Alike Expr.strip (Parser.operators (n + 1) min e t) := by
  rw [Parser.operators, Parser.operators, h.kind]
  split
  · exact .done he h
  · split
    · exact (ih.extension _ he h.advance).andThen fun he h => ih.operators min he h
    · exact .done he h

theorem extension_succ (x : Extension) {d e : Expr} (he : d.strip = e.strip) :
    (Parser.extension (n + 1) x d s).Alike Expr.strip (Parser.extension (n + 1) x e t) := by
  cases x with
  | call =>
    rw [Parser.extension, Parser.extension]
    refine ((ih.expressions _ h).within _ _).andThen fun hargs h => .done ?_ h
    simp only [Expr.strip, he, hargs]
  | index =>
    rw [Parser.extension, Parser.extension]
    refine ((?_ : Outcome.Alike Expr.strip _ _).within _ _).andThen fun hplace h => .done ?_ h
    · exact (ih.expression _ h).andThen fun hplace h => (h.expect _).map fun _ => hplace
    · simp only [Expr.strip, he, hplace]
  | assign =>
    rw [Parser.extension, Parser.extension]
    exact (ih.expression _ h).map fun hvalue => by simp only [Expr.strip, he, hvalue]
  | binary op =>
    rw [Parser.extension, Parser.extension]
    exact (ih.expression _ h).map fun hright => by simp only [Expr.strip, he, hright]

theorem operand_succ :
    (Parser.operand (n + 1) s).Alike Expr.strip (Parser.operand (n + 1) t) := by
  rw [Parser.operand, Parser.operand, h.kind]
  split
  · exact .done (by simp only [Expr.strip]) h.advance
  · exact .done (by simp only [Expr.strip]) h.advance
  · exact .done (by simp only [Expr.strip]) h.advance
  · exact .done (by simp only [Expr.strip]) h.advance
  · exact .done (by simp only [Expr.strip]) h.advance
  · exact ih.unary _ h
  · exact ih.unary _ h
  · exact (ih.grouping h).within _ _
  · exact (ih.conditional h).within _ _
  · exact (ih.function h).within _ _
  · exact (ih.arrayLiteral h).within _ _
  · exact (ih.hashLiteral h).within _ _
  · split
    · exact .failed h
    · exact .failed h

theorem unary_succ (op : UnaryOp) :
    (Parser.unary (n + 1) op s).Alike Expr.strip (Parser.unary (n + 1) op t) := by
  rw [Parser.unary, Parser.unary]
  exact (ih.expression _ h.advance).map fun he => by simp only [Expr.strip, he]

theorem grouping_succ :
    (Parser.grouping (n + 1) s).Alike Expr.strip (Parser.grouping (n + 1) t) := by
  rw [Parser.grouping, Parser.grouping]
  refine (ih.expression _ h.advance).andThen fun he h => ?_
  exact (h.expect _).map fun _ => by simp only [Expr.strip_withSpan, he]

theorem conditional_succ :
    (Parser.conditional (n + 1) s).Alike Expr.strip (Parser.conditional (n + 1) t) := by
  rw [Parser.conditional, Parser.conditional]
  refine (h.advance.expect _).andThen fun _ h => ?_
  refine (ih.expression _ h).andThen fun htest h => ?_
  refine (h.expect _).andThen fun _ h => ?_
  refine (ih.block h).andThen fun hthen h => ?_
  rw [h.kind]
  split
  · exact (ih.block h.advance).map fun helse => by
      simp only [Expr.strip, Block.stripPart, htest, hthen, helse]
  · exact .done (by simp only [Expr.strip, Block.stripPart, htest, hthen]) h

theorem function_succ :
    (Parser.function (n + 1) s).Alike Expr.strip (Parser.function (n + 1) t) := by
  rw [Parser.function, Parser.function]
  refine ((params_alike n h.advance).within _ _).andThen fun {xs ys s t} hnames h => ?_
  obtain rfl : xs = ys := hnames
  exact (ih.block h).map fun hbody => by simp only [Expr.strip, hbody]

theorem arrayLiteral_succ :
    (Parser.arrayLiteral (n + 1) s).Alike Expr.strip (Parser.arrayLiteral (n + 1) t) := by
  rw [Parser.arrayLiteral, Parser.arrayLiteral]
  exact (ih.expressions _ h.advance).andThen fun hitems h =>
    .done (by simp only [Expr.strip, hitems]) h

theorem hashLiteral_succ :
    (Parser.hashLiteral (n + 1) s).Alike Expr.strip (Parser.hashLiteral (n + 1) t) := by
  rw [Parser.hashLiteral, Parser.hashLiteral]
  refine (ih.entries h.advance).andThen fun hentries h => ?_
  exact (h.expect _).map fun _ => by simp only [Expr.strip, hentries]

theorem expressions_succ (close : TokenKind) :
    (Parser.expressions (n + 1) close s).Alike Expr.stripAll
      (Parser.expressions (n + 1) close t) := by
  rw [Parser.expressions, Parser.expressions, h.kind]
  split
  · exact .done rfl h.advance
  · exact ih.expressionsFrom close h

theorem expressionsFrom_succ (close : TokenKind) :
    (Parser.expressionsFrom (n + 1) close s).Alike Expr.stripAll
      (Parser.expressionsFrom (n + 1) close t) := by
  rw [Parser.expressionsFrom, Parser.expressionsFrom]
  refine (ih.expression _ h).andThen fun he h => ?_
  rw [h.kind]
  split
  · exact (ih.expressionsFrom close h.advance).map fun hes => by
      simp only [Expr.stripAll, he, hes]
  · exact (h.expect _).map fun _ => by simp only [Expr.stripAll, he]

theorem entries_succ :
    (Parser.entries (n + 1) s).Alike Expr.stripEntries (Parser.entries (n + 1) t) := by
  rw [Parser.entries, Parser.entries, h.kind]
  split
  · exact .done rfl h
  refine (ih.expression _ h).andThen fun hkey h => ?_
  refine (h.expect _).andThen fun _ h => ?_
  refine (ih.expression _ h).andThen fun hvalue h => ?_
  rw [h.kind]
  split
  · exact (ih.entries h.advance).map fun hrest => by
      simp only [Expr.stripEntries, hkey, hvalue, hrest]
  · exact .done (by simp only [Expr.stripEntries, hkey, hvalue]) h

theorem statement_succ :
    (Parser.statement (n + 1) s).Alike Stmt.strip (Parser.statement (n + 1) t) := by
  rw [Parser.statement, Parser.statement, h.kind]
  split
  · exact ((ih.letBinding h).within _ _).andThen fun hst h => .done hst (h.skipOne _)
  · exact (ih.returnStatement h).within _ _
  · exact (ih.forLoop h).within _ _
  · exact (ih.expression _ h).andThen fun he h =>
      .done (by simp only [Stmt.strip, he]) (h.skipOne _)

theorem letBinding_succ :
    (Parser.letBinding (n + 1) s).Alike Stmt.strip (Parser.letBinding (n + 1) t) := by
  rw [Parser.letBinding, Parser.letBinding]
  refine h.advance.expectIdent.andThen fun {x y s t} hx h => ?_
  obtain rfl : x = y := hx
  refine (h.expect _).andThen fun _ h => ?_
  exact (ih.expression _ h).map fun hvalue => by simp only [Stmt.strip, hvalue]

theorem returnStatement_succ :
    (Parser.returnStatement (n + 1) s).Alike Stmt.strip (Parser.returnStatement (n + 1) t) := by
  rw [Parser.returnStatement, Parser.returnStatement]
  exact (ih.expression _ h.advance).andThen fun hvalue h =>
    .done (by simp only [Stmt.strip, hvalue]) (h.skipOne _)

theorem forLoop_succ :
    (Parser.forLoop (n + 1) s).Alike Stmt.strip (Parser.forLoop (n + 1) t) := by
  rw [Parser.forLoop, Parser.forLoop]
  refine (h.advance.expect _).andThen fun _ h => ?_
  refine (ih.loopInit h).andThen fun hinit h => ?_
  refine (h.expect _).andThen fun _ h => ?_
  refine (ih.loopPart _ h).andThen fun htest h => ?_
  refine (h.expect _).andThen fun _ h => ?_
  refine (ih.loopPart _ h).andThen fun hafter h => ?_
  refine (h.expect _).andThen fun _ h => ?_
  refine (ih.block h).andThen fun hbody h => .done ?_ (h.skipOne _)
  simp only [Stmt.strip, hinit, htest, hafter, hbody]

theorem loopInit_succ :
    (Parser.loopInit (n + 1) s).Alike Stmt.stripPart (Parser.loopInit (n + 1) t) := by
  rw [Parser.loopInit, Parser.loopInit, h.kind]
  split
  · exact .done rfl h
  · exact (ih.letBinding h).map fun hst => by simp only [Stmt.stripPart, hst]
  · exact (ih.expression _ h).map fun he => by simp only [Stmt.stripPart, Stmt.strip, he]

theorem loopPart_succ (close : TokenKind) :
    (Parser.loopPart (n + 1) close s).Alike Expr.stripPart (Parser.loopPart (n + 1) close t) := by
  rw [Parser.loopPart, Parser.loopPart, h.kind]
  split
  · exact .done rfl h
  · exact (ih.expression _ h).map fun he => by simp only [Expr.stripPart, he]

theorem block_succ : (Parser.block (n + 1) s).Alike Block.strip (Parser.block (n + 1) t) := by
  rw [Parser.block, Parser.block]
  refine ((h.expect _).within _ _).andThen fun _ h => ?_
  refine (ih.statements _ h).andThen fun hss h => ?_
  exact ((h.expect _).within _ _).map fun _ => by simp only [Block.strip, hss]

theorem statements_succ (scope : Scope) :
    (Parser.statements (n + 1) scope s).Alike Stmt.stripAll
      (Parser.statements (n + 1) scope t) := by
  rw [Parser.statements, Parser.statements, h.stops]
  split
  · exact .done rfl h
  have hst := ih.statement h
  generalize Parser.statement n s = o, Parser.statement n t = p at hst
  cases hst with
  | done hst hs =>
    exact (ih.statements scope hs).map fun hss => by simp only [Stmt.stripAll, hst, hss]
  | failed hs =>
    dsimp only
    rw [h.cursor.position]
    exact ih.statements scope ((hs.report _ _).recover scope _)
  | outOfFuel => exact .outOfFuel

end Step

end ReadsAlike

/-- From states that are alike, all productions do the same up to spans. -/
theorem readsAlike (n : Nat) : ReadsAlike n := by
  induction n with
  | zero => exact ReadsAlike.zero
  | succ n ih =>
    exact {
      expression := fun min {_ _} h => ih.expression_succ h min
      operators := fun min {_ _ _ _} he h => ih.operators_succ h min he
      extension := fun x {_ _ _ _} he h => ih.extension_succ h x he
      operand := ih.operand_succ
      unary := fun op {_ _} h => ih.unary_succ h op
      grouping := ih.grouping_succ
      conditional := ih.conditional_succ
      function := ih.function_succ
      arrayLiteral := ih.arrayLiteral_succ
      hashLiteral := ih.hashLiteral_succ
      expressions := fun close {_ _} h => ih.expressions_succ h close
      expressionsFrom := fun close {_ _} h => ih.expressionsFrom_succ h close
      entries := ih.entries_succ
      statement := ih.statement_succ
      letBinding := ih.letBinding_succ
      returnStatement := ih.returnStatement_succ
      forLoop := ih.forLoop_succ
      loopInit := ih.loopInit_succ
      loopPart := fun close {_ _} h => ih.loopPart_succ h close
      block := ih.block_succ
      statements := fun scope {_ _} h => ih.statements_succ h scope }

end Parser

namespace Program

open MonkeyLang.Parser

/-- Tokens of the same kinds are read into the same program up to spans, and there are errors in both
lists or in none, if that is so of the errors reported before. -/
theorem parse_alike {ts us : List Token} {ds es : List ParseError}
    (h : ts.map (·.kind) = us.map (·.kind)) (hreported : ds = [] ↔ es = []) :
    (parse ts ds).program.strip = (parse us es).program.strip ∧
      (parse ts ds).hasErrors = (parse us es).hasErrors := by
  obtain ⟨ss, s, hs, hts⟩ := exists_parse_eq ts ds
  obtain ⟨ss', s', hs', hus⟩ := exists_parse_eq us es
  have hsame : enough ts = enough us := by
    rw [enough, enough, ← List.length_map, h, List.length_map]
  have hstart : State.Alike ⟨.ofTokens ts, ds⟩ ⟨.ofTokens us, es⟩ := ⟨⟨rfl, h⟩, hreported⟩
  have halike := (readsAlike (enough ts)).statements .program hstart
  rw [hs, hsame, hs'] at halike
  cases halike with
  | done hstrip hstate =>
    rw [hts, hus]
    refine ⟨hstrip, ?_⟩
    rw [Parsed.hasErrors, Parsed.hasErrors, (List.mergeSort_perm _ _).isEmpty_eq,
      (List.mergeSort_perm _ _).isEmpty_eq, Bool.eq_iff_iff]
    simp only [Bool.not_eq_true', List.isEmpty_eq_false_iff, ne_eq, hstate.errors]

end Program

end MonkeyLang
