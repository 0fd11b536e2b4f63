import MonkeyLang.Proofs.Parsing.Kinds

/-!
# Derivations with spans

How the nodes of a program are written as tokens, where the tokens are at their places in the source.
`Written` says for each node which words and smaller nodes it consists of, in order. A node is derived
from the tokens that spell these and that its span covers: from the start of the first to the end of
the last. Parentheses belong to the expression in them, whose span they widen.

In the statements of a program or block, tokens may be skipped that belong to no statement, if the
source has errors.

What a node consists of then stands in its tokens one after the other. So the spans of a tree are
nested, and those beside each other are apart.

## Main definitions

* `Node`, `Node.children` : the nodes of a tree and what is directly inside of them.
* `Derives`, `Spells`, `Statements` : what is derived from tokens.

## Main statements

* `Derives.spread`, `Statements.spread` : where the parts of a node, and statements, are.
* `Spread.pairwise` : the spans of nodes that stand beside each other.
-/

namespace MonkeyLang.Derivation

/-! ### Nodes -/

/-- The nodes of a tree. A function literal is a node by itself, inside the expression that it is. -/
inductive Node where
  /-- An expression. -/
  | expr (e : Expr)
  /-- A statement. -/
  | stmt (s : Stmt)
  /-- A block. -/
  | block (b : Block)
  /-- A function literal, without parentheses around it. -/
  | literal (params : List String) (body : Block) (bare : Span)

namespace Node

/-- The span of the node. -/
def span : Node → Span
  | .expr e => e.span
  | .stmt s => s.span
  | .block b => b.span
  | .literal _ _ bare => bare

/-- The nodes directly inside the node, in source order. -/
def children : Node → List Node
  | .expr (.array items _) => items.map .expr
  | .expr (.hash entries _) => entries.flatMap fun e => [.expr e.1, .expr e.2]
  | .expr (.unary _ e _) => [.expr e]
  | .expr (.binary _ left right _) => [.expr left, .expr right]
  | .expr (.cond test thenBlock none _) => [.expr test, .block thenBlock]
  | .expr (.cond test thenBlock (some b) _) => [.expr test, .block thenBlock, .block b]
  | .expr (.function params body bare _) => [.literal params body bare]
  | .expr (.call callee args _) => .expr callee :: args.map .expr
  | .expr (.index base place _) => [.expr base, .expr place]
  | .expr (.assign target value _) => [.expr target, .expr value]
  | .expr _ => []
  | .stmt (.letBind _ value _) | .stmt (.ret value _) | .stmt (.expr value _) => [.expr value]
  | .stmt (.forLoop init test after body _) =>
    (init.map .stmt).toList ++ (test.map .expr).toList ++ (after.map .expr).toList ++ [.block body]
  | .block b => b.statements.map .stmt
  | .literal _ body _ => [.block body]

theorem children_withSpan (e : Expr) (span : Span) :
    (Node.expr (e.withSpan span)).children = (Node.expr e).children := by
  cases e with
  | cond test thenBlock elseBlock => cases elseBlock <;> rfl
  | _ => rfl

end Node

/-! ### What nodes consist of -/

/-- What a node consists of: words, nodes, and the statements of a block. -/
inductive Item where
  /-- A word of the kind `k`. -/
  | token (k : TokenKind)
  /-- A node. -/
  | node (n : Node)
  /-- The statements of a block, with what ends them. -/
  | statements (ss : List Stmt)

/-- The nodes of an item. -/
def Item.nodes : Item → List Node
  | .token _ => []
  | .node n => [n]
  | .statements ss => ss.map .stmt

/-- The groups, with commas between them. -/
def listed (groups : List (List Item)) : List Item := [Item.token .comma].intercalate groups

/-- The parameters of a function. -/
def names (xs : List String) : List Item := listed (xs.map fun x => [.token (.ident x)])

/-- Arguments of a call, or the items of an array literal. -/
def exprs (es : List Expr) : List Item := listed (es.map fun e => [.node (.expr e)])

/-- The entries of a hash literal. -/
def pairs (es : List (Expr × Expr)) : List Item :=
  listed (es.map fun e => [.node (.expr e.1), .token .colon, .node (.expr e.2)])

/-- A statement that may be missing. -/
def stmt? (s : Option Stmt) : List Item := (s.map fun s => .node (.stmt s)).toList

/-- An expression that may be missing. -/
def expr? (e : Option Expr) : List Item := (e.map fun e => .node (.expr e)).toList

/-- `Written n is`: the node `n` is written as the items `is`. -/
inductive Written : Node → List Item → Prop where
  /-- An integer literal. -/
  | int {v : Int64} {span : Span} : Written (.expr (.int v span)) [.token (.int v)]
  /-- A string literal. -/
  | str {text : String} {span : Span} : Written (.expr (.str text span)) [.token (.str text)]
  /-- An identifier. -/
  | ident {x : String} {span : Span} : Written (.expr (.ident x span)) [.token (.ident x)]
  /-- `true`. -/
  | true {span : Span} : Written (.expr (.bool true span)) [.token .trueKw]
  /-- `false`. -/
  | false {span : Span} : Written (.expr (.bool false span)) [.token .falseKw]
  /-- `!a` or `-a`. -/
  | unary {op : UnaryOp} {e : Expr} {span : Span} :
      Written (.expr (.unary op e span)) [.token op.token, .node (.expr e)]
  /-- `a + b` and the like. -/
  | binary {op : BinaryOp} {k : TokenKind} {left right : Expr} {span : Span}
      (hk : Extension.ofToken? k = some (.binary op)) :
      Written (.expr (.binary op left right span))
        [.node (.expr left), .token k, .node (.expr right)]
  /-- `t = v`. -/
  | assign {target value : Expr} {span : Span} :
      Written (.expr (.assign target value span))
        [.node (.expr target), .token .assign, .node (.expr value)]
  /-- `f(a, b)`. -/
  | call {callee : Expr} {args : List Expr} {span : Span} :
      Written (.expr (.call callee args span))
        (.node (.expr callee) :: .token .lparen :: (exprs args ++ [.token .rparen]))
  /-- `b[i]`. -/
  | index {base place : Expr} {span : Span} :
      Written (.expr (.index base place span))
        [.node (.expr base), .token .lbracket, .node (.expr place), .token .rbracket]
  /-- `[a, b]`. -/
  | array {es : List Expr} {span : Span} :
      Written (.expr (.array es span)) (.token .lbracket :: (exprs es ++ [.token .rbracket]))
  /-- `{k: v, l: w}`. -/
  | hash {es : List (Expr × Expr)} {span : Span} :
      Written (.expr (.hash es span)) (.token .lbrace :: (pairs es ++ [.token .rbrace]))
  /-- `{k: v, l: w,}`. -/
  | hashComma {es : List (Expr × Expr)} {span : Span} (hes : es ≠ []) :
      Written (.expr (.hash es span))
        (.token .lbrace :: (pairs es ++ [.token .comma, .token .rbrace]))
  /-- `if (c) { … }`. -/
  | cond {test : Expr} {thenBlock : Block} {span : Span} :
      Written (.expr (.cond test thenBlock none span))
        [.token .ifKw, .token .lparen, .node (.expr test), .token .rparen, .node (.block thenBlock)]
  /-- `if (c) { … } else { … }`. -/
  | condElse {test : Expr} {thenBlock b : Block} {span : Span} :
      Written (.expr (.cond test thenBlock (some b) span))
        [.token .ifKw, .token .lparen, .node (.expr test), .token .rparen, .node (.block thenBlock),
          .token .elseKw, .node (.block b)]
  /-- A function literal as an expression. -/
  | function {params : List String} {body : Block} {bare span : Span} :
      Written (.expr (.function params body bare span)) [.node (.literal params body bare)]
  /-- `fn(x, y) { … }`. -/
  | literal {params : List String} {body : Block} {bare : Span} :
      Written (.literal params body bare)
        (.token .fnKw :: .token .lparen :: (names params ++ [.token .rparen, .node (.block body)]))
  /-- `{ … }`. -/
  | block {ss : List Stmt} {span : Span} :
      Written (.block ⟨ss, span⟩) [.token .lbrace, .statements ss, .token .rbrace]
  /-- `let x = v`. The semicolon is no part of it. -/
  | letBind {x : String} {value : Expr} {span : Span} :
      Written (.stmt (.letBind x value span))
        [.token .letKw, .token (.ident x), .token .assign, .node (.expr value)]
  /-- `return v`. -/
  | ret {value : Expr} {span : Span} :
      Written (.stmt (.ret value span)) [.token .returnKw, .node (.expr value)]
  /-- `return v;`, with its semicolon. -/
  | retClosed {value : Expr} {span : Span} :
      Written (.stmt (.ret value span))
        [.token .returnKw, .node (.expr value), .token .semicolon]
  /-- An expression. The semicolon is no part of the statement. -/
  | expr {value : Expr} {span : Span} :
      Written (.stmt (.expr value span)) [.node (.expr value)]
  /-- `for (i; c; a) { … }`. -/
  | forLoop {init : Option Stmt} {test after : Option Expr} {body : Block} {span : Span} :
      Written (.stmt (.forLoop init test after body span))
        (.token .forKw :: .token .lparen :: (stmt? init ++ .token .semicolon ::
          (expr? test ++ .token .semicolon :: (expr? after ++ [.token .rparen, .node (.block body)]))))

theorem listed_cons_cons (g h : List Item) (gs : List (List Item)) :
    listed (g :: h :: gs) = g ++ .token .comma :: listed (h :: gs) := by
  simp [listed, List.intercalate_cons_cons]

theorem flatMap_nodes_listed (groups : List (List Item)) :
    (listed groups).flatMap Item.nodes = groups.flatMap fun g => g.flatMap Item.nodes := by
  induction groups with
  | nil => rfl
  | cons g gs ih =>
    cases gs with
    | nil => simp [listed]
    | cons h gs =>
      rw [listed_cons_cons, List.flatMap_append, List.flatMap_cons, ih]
      simp [Item.nodes]

/-- The nodes that a node is written with are its children. -/
theorem Written.flatMap_nodes {n : Node} {is : List Item} (h : Written n is) :
    is.flatMap Item.nodes = n.children := by
  cases h with
  | call | array | hash | hashComma | literal =>
    simp [Item.nodes, Node.children, exprs, pairs, names, flatMap_nodes_listed,
      List.flatMap_map, ← List.map_eq_flatMap]
  | @forLoop init test after =>
    cases init <;> cases test <;> cases after <;> rfl
  | _ => simp [Item.nodes, Node.children, Block.statements]

/-! ### Where tokens are -/

/-- The tokens stand one after the other. -/
structure Laid (ts : List Token) : Prop where
  forward : ∀ t ∈ ts, t.span.start ≤ t.span.stop
  apart : ts.Pairwise fun t u => t.span.stop ≤ u.span.start

/-- The span from the start of the first of the tokens to the end of the last one. -/
def cover (ts : List Token) : Span :=
  ⟨(ts.headD .endOfInput).span.start, (ts.getLastD .endOfInput).span.stop⟩

theorem cover_start_append {ts : List Token} (hts : ts ≠ []) (us : List Token) :
    (cover (ts ++ us)).start = (cover ts).start := by
  cases ts with
  | nil => exact absurd rfl hts
  | cons => rfl

theorem cover_stop_append (ts : List Token) {us : List Token} (hus : us ≠ []) :
    (cover (ts ++ us)).stop = (cover us).stop := by
  simp [cover, List.getLastD_eq_getLast?, List.getLast?_append, List.getLast?_eq_some_getLast hus]

theorem exists_cover_start {ts : List Token} (hts : ts ≠ []) :
    ∃ t ∈ ts, (cover ts).start = t.span.start := by
  cases ts with
  | nil => exact absurd rfl hts
  | cons t ts => exact ⟨t, List.mem_cons_self, rfl⟩

theorem exists_cover_stop {ts : List Token} (hts : ts ≠ []) :
    ∃ t ∈ ts, (cover ts).stop = t.span.stop :=
  ⟨ts.getLast hts, List.getLast_mem hts, by
    simp [cover, List.getLastD_eq_getLast?, List.getLast?_eq_some_getLast hts]⟩

namespace Laid

variable {ts us ms : List Token} {t : Token}

theorem sublist (h : Laid us) (hts : ts.Sublist us) : Laid ts :=
  ⟨fun t ht => h.forward t (hts.subset ht), h.apart.sublist hts⟩

/-- The span of laid tokens begins with their first one. -/
theorem start_le (h : Laid ts) (ht : t ∈ ts) : (cover ts).start ≤ t.span.start := by
  induction ts with
  | nil => cases ht
  | cons u us =>
    obtain rfl | ht := List.mem_cons.mp ht
    · exact Nat.le_refl _
    · exact Nat.le_trans (h.forward u List.mem_cons_self) (List.rel_of_pairwise_cons h.apart ht)

/-- The span of laid tokens ends with their last one. -/
theorem le_stop (h : Laid ts) (ht : t ∈ ts) : t.span.stop ≤ (cover ts).stop := by
  induction ts with
  | nil => cases ht
  | cons u us ih =>
    have htail : Laid us := h.sublist (List.sublist_cons_self u us)
    by_cases hus : us = []
    · subst hus
      obtain rfl := List.mem_singleton.mp ht
      exact Nat.le_refl _
    · rw [← List.singleton_append, cover_stop_append [u] hus]
      obtain rfl | ht := List.mem_cons.mp ht
      · obtain ⟨v, hv, hstop⟩ := exists_cover_stop hus
        exact Nat.le_trans (List.rel_of_pairwise_cons h.apart hv)
          (Nat.le_trans (htail.forward v hv) (Nat.le_of_eq hstop.symm))
      · exact ih htail ht

/-- The span of some of the tokens is inside that of all. -/
theorem cover_inside {js ks : List Token} (h : Laid (js ++ ts ++ ks)) (hts : ts ≠ []) :
    (cover (js ++ ts ++ ks)).start ≤ (cover ts).start ∧
      (cover ts).stop ≤ (cover (js ++ ts ++ ks)).stop := by
  obtain ⟨t, ht, hstart⟩ := exists_cover_start hts
  obtain ⟨u, hu, hstop⟩ := exists_cover_stop hts
  rw [hstart, hstop]
  exact ⟨h.start_le (by simp [ht]), h.le_stop (by simp [hu])⟩

/-- The spans of the first and of the last tokens merge to the span of all. -/
theorem merge_cover (h : Laid ms) (hts : ts ≠ []) (hus : us ≠ []) (js : List Token)
    (hms : ms = ts ++ js ++ us) : (cover ts).merge (cover us) = cover ms := by
  have hfirst : (cover ms).start = (cover ts).start := by
    rw [hms, List.append_assoc, cover_start_append hts]
  have hlast : (cover ms).stop = (cover us).stop := by
    rw [hms, cover_stop_append _ hus]
  obtain ⟨t, ht, hstart⟩ := exists_cover_start hus
  obtain ⟨u, hu, hstop⟩ := exists_cover_stop hts
  have hle := h.start_le (t := t) (by simp [hms, ht])
  have hge := h.le_stop (t := u) (by simp [hms, hu])
  rw [Span.merge, Nat.min_eq_left (by omega), Nat.max_eq_right (by omega), ← hfirst, ← hlast]

/-- The span from the first token to the last one. -/
theorem merge_ends {u : Token} (h : Laid ms) (hfirst : ms = t :: ts) (hlast : ms = us ++ [u]) :
    t.span.merge u.span = cover ms := by
  have hstart : (cover ms).start = t.span.start := by
    rw [hfirst]
    rfl
  have hstop : (cover ms).stop = u.span.stop := by
    rw [hlast, cover_stop_append us (List.cons_ne_nil u [])]
    rfl
  have hle := h.start_le (t := u) (by simp [hlast])
  have hge := h.le_stop (t := t) (by simp [hfirst])
  rw [Span.merge, Nat.min_eq_left (by omega), Nat.max_eq_right (by omega), ← hstart, ← hstop]

/-- Tokens before others are apart from them. -/
theorem stop_le_start (h : Laid (ts ++ us)) (hts : ts ≠ []) (hus : us ≠ []) :
    (cover ts).stop ≤ (cover us).start := by
  obtain ⟨t, ht, hstop⟩ := exists_cover_stop hts
  obtain ⟨u, hu, hstart⟩ := exists_cover_start hus
  rw [hstop, hstart]
  exact (List.pairwise_append.mp h.apart).2.2 t ht u hu

end Laid

/-! ### Derivations -/

/-- The statement is a `return`, which ends with its semicolon. -/
def IsReturn : Stmt → Prop
  | .ret _ _ => True
  | _ => False

/-- If the tokens `us` begin with a semicolon, then the tokens `ts` before them end with one. So a
semicolon right behind a statement has been read together with it. -/
def Ended (ts us : List Token) : Prop :=
  ∀ u ∈ us.head?, u.kind = .semicolon → ∃ t ∈ ts.getLast?, t.kind = .semicolon

mutual

/-- The node is derived from the tokens, and its span covers them. Tokens may have been skipped only
if there are errors. -/
inductive Derives (errors : Prop) : List Token → Node → Prop where
  /-- The tokens spell what the node is written as. -/
  | whole {ts : List Token} {n : Node} {is : List Item} :
      Written n is → Spells errors ts is → n.span = cover ts → Derives errors ts n
  /-- Parentheses around an expression belong to it. -/
  | group {t u : Token} {ts : List Token} {e : Expr} :
      t.kind = .lparen → Derives errors ts (.expr e) → u.kind = .rparen →
      Derives errors (t :: (ts ++ [u])) (.expr (e.withSpan (cover (t :: (ts ++ [u])))))

/-- The tokens are written as the items, one after the other. -/
inductive Spells (errors : Prop) : List Token → List Item → Prop where
  /-- No tokens. -/
  | nil : Spells errors [] []
  /-- A word. -/
  | token {t : Token} {k : TokenKind} {ts : List Token} {is : List Item} :
      t.kind = k → Spells errors ts is → Spells errors (t :: ts) (.token k :: is)
  /-- A node. -/
  | node {ts us : List Token} {n : Node} {is : List Item} :
      Derives errors ts n → Spells errors us is → Spells errors (ts ++ us) (.node n :: is)
  /-- The statements of a block. -/
  | statements {ts us : List Token} {ss : List Stmt} {is : List Item} :
      Statements errors ts ss → Spells errors us is →
      Spells errors (ts ++ us) (.statements ss :: is)

/-- The tokens are statements, one after the other. -/
inductive Statements (errors : Prop) : List Token → List Stmt → Prop where
  /-- No statements. -/
  | nil : Statements errors [] []
  /-- A statement and a semicolon that is no part of it. -/
  | closed {t : Token} {ts us : List Token} {s : Stmt} {ss : List Stmt} :
      Derives errors ts (.stmt s) → ¬ IsReturn s → t.kind = .semicolon →
      Statements errors us ss → Statements errors (ts ++ t :: us) (s :: ss)
  /-- A statement behind which there is no semicolon, apart from one that is part of it. -/
  | bare {ts us : List Token} {s : Stmt} {ss : List Stmt} :
      Derives errors ts (.stmt s) → Ended ts us → Statements errors us ss →
      Statements errors (ts ++ us) (s :: ss)
  /-- Tokens that have been skipped because of an error. -/
  | skipped {ts us : List Token} {ss : List Stmt} :
      errors → ts ≠ [] → Statements errors us ss → Statements errors (ts ++ us) ss

end

variable {errors : Prop}

theorem Spells.append {ts us : List Token} {is js : List Item} (h : Spells errors ts is)
    (h' : Spells errors us js) : Spells errors (ts ++ us) (is ++ js) := by
  match h with
  | .nil => exact h'
  | .token hk h => exact .token hk (h.append h')
  | .node hd h =>
    rw [List.append_assoc]
    exact .node hd (h.append h')
  | .statements hs h =>
    rw [List.append_assoc]
    exact .statements hs (h.append h')

theorem Spells.word {t : Token} {k : TokenKind} (hk : t.kind = k) :
    Spells errors [t] [.token k] :=
  .token hk .nil

theorem Spells.single {ts : List Token} {n : Node} (hd : Derives errors ts n) :
    Spells errors ts [.node n] := by
  have h : Spells errors (ts ++ []) [.node n] := .node hd .nil
  rwa [List.append_nil] at h

/-- A first group and others, behind a comma. -/
theorem Spells.listed_cons {ts us : List Token} {u : Token} {g is : List Item}
    {gs : List (List Item)} (hg : Spells errors ts g) (hu : u.kind = .comma) (hgs : gs ≠ [])
    (h : Spells errors us (listed gs ++ is)) :
    Spells errors (ts ++ u :: us) (listed (g :: gs) ++ is) := by
  obtain ⟨g', gs, rfl⟩ := List.exists_cons_of_ne_nil hgs
  rw [listed_cons_cons, List.append_assoc]
  exact hg.append (.token hu h)

/-- The span of a node covers the tokens from which it is derived. -/
theorem Derives.span_eq {ts : List Token} {n : Node} (h : Derives errors ts n) :
    n.span = cover ts := by
  cases h with
  | whole _ _ hspan => exact hspan
  | group => exact Expr.span_withSpan _ _

/-- A node begins with a word or another node. -/
theorem Written.begins {n : Node} {is : List Item} (h : Written n is) :
    ∃ i js, is = i :: js ∧ ∀ ss, i ≠ .statements ss := by
  cases h <;> exact ⟨_, _, rfl, nofun⟩

mutual

/-- No node is derived from no tokens. -/
theorem Derives.ne_nil {ts : List Token} {n : Node} (h : Derives errors ts n) : ts ≠ [] := by
  match h with
  | .group .. => simp
  | .whole hw hs _ => exact hs.ne_nil hw.begins

theorem Spells.ne_nil {ts : List Token} {is : List Item} (h : Spells errors ts is)
    (his : ∃ i js, is = i :: js ∧ ∀ ss, i ≠ .statements ss) : ts ≠ [] := by
  match h with
  | .nil => simp at his
  | .token .. => simp
  | .node hd _ => simp [hd.ne_nil]
  | .statements .. => simp at his

end

namespace Derives

variable {ts us ms : List Token} {m n : Node}

/-- The span from a token to a node that ends the tokens. -/
theorem merge_token (h : Derives errors ts n) (hms : Laid ms) (t : Token) (js : List Token)
    (heq : ms = t :: (js ++ ts)) : t.span.merge n.span = cover ms := by
  rw [h.span_eq]
  exact hms.merge_cover (List.cons_ne_nil t []) h.ne_nil js heq

/-- The span from a node that begins the tokens to a token. -/
theorem merge_to (h : Derives errors ts n) (hms : Laid ms) (js : List Token) (t : Token)
    (heq : ms = ts ++ (js ++ [t])) : n.span.merge t.span = cover ms := by
  rw [h.span_eq]
  exact hms.merge_cover h.ne_nil (List.cons_ne_nil t []) js (heq.trans (by simp))

/-- The span from a node that begins the tokens to one that ends them. -/
theorem merge_node (h : Derives errors ts m) (h' : Derives errors us n) (hms : Laid ms)
    (js : List Token) (heq : ms = ts ++ (js ++ us)) : m.span.merge n.span = cover ms := by
  rw [h.span_eq, h'.span_eq]
  exact hms.merge_cover h.ne_nil h'.ne_nil js (heq.trans (by simp))

end Derives

/-! ### Nodes beside each other -/

/-- The nodes are derived from some of the tokens each, one after the other. -/
inductive Spread (errors : Prop) : List Token → List Node → Prop where
  /-- No nodes. -/
  | nil (ts : List Token) : Spread errors ts []
  /-- A node, behind some tokens, and the others behind it. -/
  | cons {js ts us : List Token} {n : Node} {ns : List Node} :
      Derives errors ts n → Spread errors us ns → Spread errors (js ++ ts ++ us) (n :: ns)

namespace Spread

variable {ts us : List Token} {n : Node} {ns ms : List Node}

theorem before (h : Spread errors ts ns) (js : List Token) : Spread errors (js ++ ts) ns := by
  cases h with
  | nil => exact .nil _
  | cons hd h =>
    rw [← List.append_assoc, ← List.append_assoc]
    exact .cons hd h

theorem front (hd : Derives errors ts n) (h : Spread errors us ns) :
    Spread errors (ts ++ us) (n :: ns) := by
  exact @Spread.cons errors [] ts us n ns hd h

theorem append (h : Spread errors ts ns) (h' : Spread errors us ms) :
    Spread errors (ts ++ us) (ns ++ ms) := by
  induction h with
  | nil ts => exact h'.before ts
  | cons hd _ ih =>
    rw [List.append_assoc]
    exact .cons hd ih

theorem after (h : Spread errors ts ns) (us : List Token) : Spread errors (ts ++ us) ns := by
  simpa using h.append (.nil us)

theorem exists_of_mem (h : Spread errors ts ns) (hn : n ∈ ns) :
    ∃ js us ks, ts = js ++ us ++ ks ∧ Derives errors us n := by
  induction h with
  | nil => cases hn
  | @cons js ts us m ns hd _ ih =>
    obtain rfl | hn := List.mem_cons.mp hn
    · exact ⟨js, ts, us, rfl, hd⟩
    · obtain ⟨js', us', ks', rfl, hd'⟩ := ih hn
      exact ⟨js ++ ts ++ js', us', ks', by simp, hd'⟩

/-- The spans of the nodes are in order and apart. -/
theorem pairwise (h : Spread errors ts ns) (hts : Laid ts) :
    ns.Pairwise fun m n => m.span.stop ≤ n.span.start := by
  induction h with
  | nil => exact .nil
  | @cons js ts us m ns hd h ih =>
    refine .cons (fun n hn => ?_) (ih (hts.sublist (List.sublist_append_right _ us)))
    obtain ⟨js', us', ks', rfl, hd'⟩ := h.exists_of_mem hn
    rw [hd.span_eq, hd'.span_eq]
    refine (hts.sublist ?_).stop_le_start hd.ne_nil hd'.ne_nil
    rw [List.append_assoc js]
    refine .trans ?_ (List.sublist_append_right js _)
    refine (List.Sublist.refl ts).append ?_
    rw [List.append_assoc]
    exact (List.sublist_append_left us' ks').trans (List.sublist_append_right js' _)

end Spread

/-- Statements are one after the other. -/
theorem Statements.spread {ts : List Token} {ss : List Stmt} (h : Statements errors ts ss) :
    Spread errors ts (ss.map .stmt) := by
  match h with
  | .nil => exact .nil []
  | .closed hd _ _ h => exact .front hd (h.spread.before [_])
  | .bare hd _ h => exact .front hd h.spread
  | .skipped _ _ h => exact h.spread.before _

/-- So are the nodes that tokens spell. -/
theorem Spells.spread {ts : List Token} {is : List Item} (h : Spells errors ts is) :
    Spread errors ts (is.flatMap Item.nodes) := by
  match h with
  | .nil => exact .nil []
  | .token _ h => exact h.spread.before [_]
  | .node hd h => exact .front hd h.spread
  | .statements hs h => exact hs.spread.append h.spread

/-- The nodes directly inside a node stand in its tokens, one after the other. -/
theorem Derives.spread {ts : List Token} {n : Node} (h : Derives errors ts n) :
    Spread errors ts n.children := by
  match h with
  | .whole hw hs _ =>
    rw [← hw.flatMap_nodes]
    exact hs.spread
  | .group _ hd _ =>
    rw [Node.children_withSpan]
    exact (hd.spread.after [_]).before [_]

end MonkeyLang.Derivation
