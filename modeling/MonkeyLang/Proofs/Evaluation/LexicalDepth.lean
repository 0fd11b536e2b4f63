import MonkeyLang.Proofs.Evaluation.Guarded
import MonkeyLang.Proofs.Evaluation.Parts
import MonkeyLang.Proofs.Evaluation.Sessions

/-!
# The depth of frames is lexical

The frame of a call stands inside the frame in which the function was made, not inside that of the
caller. So how many frames stand around the frame at hand depends on the place in the source only:
it is the number of function literals around what is evaluated. No recursion makes it larger.

What is evaluated at a moment of a session is a part of a program, or of the body of a function. In
the first case no function literal is around it. In the second case there is one more than around
the literal that has made the function, at an earlier moment and perhaps in an earlier program.

## Main definitions

* `Task.expressions` : the expressions in what is evaluated, with the number of function literals
  around each.
* `Moment.Successive` : programs that are evaluated one after the other.
* `Moment.Lies` : how many function literals are around what is evaluated at a moment.

## Main statements

* `Moment.depth_lexical` : that is how many frames the frame at hand has more than the one at the
  start.
-/

namespace MonkeyLang

/-! ### Expressions and the function literals around them -/

mutual

/-- The expressions in an expression around which `n` function literals stand, itself included, each
with the number of function literals around it. -/
def Expr.expressions (n : Nat) : Expr → List (Nat × Expr)
  | .int value span => [(n, .int value span)]
  | .bool value span => [(n, .bool value span)]
  | .str text span => [(n, .str text span)]
  | .ident x span => [(n, .ident x span)]
  | .array items span => (n, .array items span) :: Expr.expressionsAll n items
  | .hash entries span => (n, .hash entries span) :: Expr.expressionsEntries n entries
  | .unary op operand span => (n, .unary op operand span) :: operand.expressions n
  | .binary op left right span =>
    (n, .binary op left right span) :: (left.expressions n ++ right.expressions n)
  | .cond test thenBlock elseBlock span =>
    (n, .cond test thenBlock elseBlock span) ::
      (test.expressions n ++ (thenBlock.expressions n ++ Block.expressionsPart n elseBlock))
  | .function params body bare span =>
    (n, .function params body bare span) :: body.expressions (n + 1)
  | .call callee args span =>
    (n, .call callee args span) :: (callee.expressions n ++ Expr.expressionsAll n args)
  | .index base place span =>
    (n, .index base place span) :: (base.expressions n ++ place.expressions n)
  | .assign target value span =>
    (n, .assign target value span) :: (target.expressions n ++ value.expressions n)

/-- The expressions in several ones. -/
def Expr.expressionsAll (n : Nat) : List Expr → List (Nat × Expr)
  | [] => []
  | e :: es => e.expressions n ++ Expr.expressionsAll n es

/-- The expressions in the entries of a hash literal. -/
def Expr.expressionsEntries (n : Nat) : List (Expr × Expr) → List (Nat × Expr)
  | [] => []
  | (key, value) :: es =>
    key.expressions n ++ (value.expressions n ++ Expr.expressionsEntries n es)

/-- The expressions in a part of a loop's header. -/
def Expr.expressionsPart (n : Nat) : Option Expr → List (Nat × Expr)
  | none => []
  | some e => e.expressions n

/-- The expressions in a statement. -/
def Stmt.expressions (n : Nat) : Stmt → List (Nat × Expr)
  | .letBind _ value _ | .ret value _ | .expr value _ => value.expressions n
  | .forLoop init test after body _ =>
    Stmt.expressionsPart n init ++ (Expr.expressionsPart n test ++
      (Expr.expressionsPart n after ++ body.expressions n))

/-- The expressions in the first part of a loop's header. -/
def Stmt.expressionsPart (n : Nat) : Option Stmt → List (Nat × Expr)
  | none => []
  | some s => s.expressions n

/-- The expressions in statements. -/
def Stmt.expressionsAll (n : Nat) : List Stmt → List (Nat × Expr)
  | [] => []
  | s :: ss => s.expressions n ++ Stmt.expressionsAll n ss

/-- The expressions in a block. -/
def Block.expressions (n : Nat) : Block → List (Nat × Expr)
  | ⟨statements, _⟩ => Stmt.expressionsAll n statements

/-- The expressions in the second block of an `if` expression. -/
def Block.expressionsPart (n : Nat) : Option Block → List (Nat × Expr)
  | none => []
  | some b => b.expressions n

end

/-- The expressions in what is evaluated, each with the number of function literals around it, if
`n` of them stand around it all. A call is no part of the program where it is made. -/
def Task.expressions (n : Nat) : Task → List (Nat × Expr)
  | .expr e => e.expressions n
  | .exprs es => Expr.expressionsAll n es
  | .entries es _ => Expr.expressionsEntries n es
  | .part e => Expr.expressionsPart n e
  | .assign target value => target.expressions n ++ value.expressions n
  | .stmt s => s.expressions n
  | .stmts ss _ => Stmt.expressionsAll n ss
  | .loop test after body _ =>
    Expr.expressionsPart n test ++ (Expr.expressionsPart n after ++ body.expressions n)
  | .apply _ _ => []

/-- How many function literals stand inside each other, at most. -/
def deepestNesting (es : List (Nat × Expr)) : Nat :=
  (es.map fun
    | (n, .function _ _ _ _) => n + 1
    | _ => 0).foldr max 0

theorem lt_deepestNesting {es : List (Nat × Expr)} {n : Nat} {params : List String} {body : Block}
    {bare span : Span} (h : (n, .function params body bare span) ∈ es) : n < deepestNesting es := by
  induction es with
  | nil => cases h
  | cons e es ih =>
    rw [deepestNesting, List.map_cons, List.foldr_cons]
    rcases List.mem_cons.1 h with rfl | h
    · exact Nat.lt_of_lt_of_le (Nat.lt_succ_self n) (Nat.le_max_left _ _)
    · exact Nat.lt_of_lt_of_le (ih h) (Nat.le_max_right _ _)

/-- The expression itself is one of them. -/
theorem Expr.mem_expressions (n : Nat) (e : Expr) : (n, e) ∈ e.expressions n := by
  cases e <;> simp [Expr.expressions]

theorem Block.expressions_eq (n : Nat) (b : Block) :
    b.expressions n = Stmt.expressionsAll n b.statements := by
  cases b
  rfl

/-- The expressions in a part of a task are in the task. -/
theorem Task.PartOf.expressions_subset {p t : Task} (h : p.PartOf t) (n : Nat) :
    p.expressions n ⊆ t.expressions n := by
  intro e he
  cases h with
  | _ =>
    simp_all [Task.expressions, Expr.expressions, Expr.expressionsAll, Expr.expressionsEntries,
      Expr.expressionsPart, Stmt.expressions, Stmt.expressionsPart, Stmt.expressionsAll,
      Block.expressionsPart, Block.expressions_eq]

/-- What is begun outside of bodies is a task of the plan. -/
theorem Plan.Within.of_begins {α : Type} {rec : (t : Task) → Machine → Outcome t.Result}
    {F : Task → Prop} {p : Plan α} {t : Task} {m : Machine} (hp : p.Within F)
    (h : p.Begins rec 0 t m) : F t := by
  generalize hj : 0 = j at h
  induction h with
  | after => exact hp.1
  | later _ _ ih => exact ih (hp.2 _ _) hj
  | body => cases hj
  | left _ _ ih => exact ih (hp _ _) hj

namespace Moment

/-! ### Sessions -/

/-- The moments at which programs begin that are evaluated one after the other in the frame `root`,
each with options of its own: the first one over the store `s`, and each of the others over the
store that the one before it has left. -/
inductive Successive (root : FrameId) : Store → List (Options × Moment) → Prop where
  /-- The last program, which may never end. -/
  | last {o : Options} {fuel : Nat} {p : Program} {m : Machine} (hframe : m.frame = root) :
    Successive root m.store [(o, ⟨fuel, .stmts p none, m⟩)]
  /-- A program that ends, and others after it. -/
  | cons {o : Options} {fuel : Nat} {p : Program} {m m' : Machine} {ending : Ending}
      {as : List (Options × Moment)} (hframe : m.frame = root)
      (heval : Program.eval o fuel p m = some (ending, m')) (rest : Successive root m'.store as) :
    Successive root m.store ((o, ⟨fuel, .stmts p none, m⟩) :: as)

/-- The expressions in the programs of a session. -/
def expressions (as : List (Options × Moment)) : List (Nat × Expr) :=
  as.flatMap fun a => a.2.task.expressions 0

/-- The function literal that is evaluated at the moment makes the function `c` of the store `s`. -/
def Makes (a : Moment) (c : ClosureId) (s : Store) : Prop :=
  ∃ params body bare span m, a.task = .expr (.function params body bare span) ∧
    a.machine.newFunction params body = .done (.function c) m ∧ m.store.Extends s

/-- What is evaluated with the options `o` at the moment lies inside `n` function literals of the
programs that begin at the moments `as`. -/
inductive Lies (as : List (Options × Moment)) : Options → Nat → Moment → Prop where
  /-- A program lies in none. -/
  | program {o : Options} {a : Moment} (ha : (o, a) ∈ as) : Lies as o 0 a
  /-- What is evaluated as a part of something lies where that lies. -/
  | part {o : Options} {n : Nat} {a b : Moment} (ha : Lies as o n a) (hb : a.Begins o 0 b) :
    Lies as o n b
  /-- The body of a function lies inside the function literal that has made the function, perhaps in
  a program that had other options. -/
  | body {o o' : Options} {n k : Nat} {a b e : Moment} {c : ClosureId} {args : List Value}
      (ha : Lies as o n a) (call : a.task = .apply (.function c) args) (hb : a.Begins o 1 b)
      (he : Lies as o' k e) (made : e.Makes c a.machine.store) : Lies as o (k + 1) b

theorem Makes.mono {a : Moment} {c : ClosureId} {s s' : Store} (h : a.Makes c s)
    (hs : s.Extends s') : a.Makes c s' := by
  obtain ⟨params, body, bare, span, m, htask, hnew, hm⟩ := h
  exact ⟨params, body, bare, span, m, htask, hnew, hm.trans hs⟩

end Moment

/-! ### The invariant -/

section

variable {o : Options} {s : Store} {root : FrameId} {as : List (Options × Moment)}

/-- What is evaluated lies inside `n` function literals of the session. -/
structure Moment.Fits (as : List (Options × Moment)) (o : Options) (n : Nat) (a : Moment) :
    Prop where
  lies : Moment.Lies as o n a
  expressions : a.task.expressions n ⊆ Moment.expressions as

/-- The function `c` has been made by a literal inside `k` others, in a frame that has `k` frames
more around it than `root` in `s`. -/
def Store.Born (s : Store) (root : FrameId) (as : List (Options × Moment)) (s' : Store)
    (c : ClosureId) (k : Nat) : Prop :=
  (∃ (o : Options) (e : Moment), e.Fits as o k ∧ e.Makes c s') ∧
    (s'.closure c).frame < s'.frames.size ∧ s'.depth (s'.closure c).frame = s.depth root + k

/-- The frame at hand has `n` frames more around it than `root` in `s`; what has been made since
then is as deep as its place in the source. -/
structure Machine.Lexical (s : Store) (root : FrameId) (as : List (Options × Moment)) (n : Nat)
    (m : Machine) : Prop where
  frame_lt : m.frame < m.store.frames.size
  depth : m.store.depth m.frame = s.depth root + n
  closures : ∀ c, s.closures.size ≤ c → c < m.store.closures.size →
    ∃ k, s.Born root as m.store c k
  frames : ∀ f, s.frames.size ≤ f → f < m.store.frames.size →
    m.store.depth f ≤ s.depth root + deepestNesting (Moment.expressions as)

theorem Store.Born.mono {s₁ s₂ : Store} {c : ClosureId} {k : Nat} (h : s.Born root as s₁ c k)
    (hs : s₁.Extends s₂) (hc : c < s₁.closures.size) : s.Born root as s₂ c k := by
  obtain ⟨⟨o', e, he, hmade⟩, hlt, hdepth⟩ := h
  refine ⟨⟨o', e, he, hmade.mono hs⟩, ?_⟩
  rw [hs.closure c hc]
  exact ⟨Nat.lt_of_lt_of_le hlt hs.frames, (hs.depth_eq hlt).trans hdepth⟩

/-- What a function literal makes is the function that it says, in the frame at hand. -/
theorem Moment.Makes.closure_eq {e : Moment} {c : ClosureId} {s₁ : Store} (h : e.Makes c s₁) :
    ∃ params body bare span, e.task = .expr (.function params body bare span) ∧
      c < s₁.closures.size ∧ e.machine.store.Extends s₁ ∧
      s₁.closure c = ⟨params, body, e.machine.frame⟩ := by
  obtain ⟨params, body, bare, span, m, htask, hnew, hm⟩ := h
  cases hnew
  have hc : e.machine.store.closures.size <
      (e.machine.store.addClosure ⟨params, body, e.machine.frame⟩).2.closures.size := by
    simp [Store.addClosure]
  refine ⟨params, body, bare, span, htask, Nat.lt_of_lt_of_le hc hm.closures,
    (Store.Extends.addClosure _ _).trans hm, ?_⟩
  rw [hm.closure _ hc]
  simp [Store.closure]

namespace Machine.Lexical

variable {n k : Nat} {m m' : Machine}

/-- The function that a literal makes in a frame of the right depth. -/
theorem born {e : Moment} {c : ClosureId} {s₁ : Store} (he : e.Fits as o k)
    (h : e.machine.Lexical s root as k) (hmade : e.Makes c s₁) : s.Born root as s₁ c k := by
  refine ⟨⟨o, e, he, hmade⟩, ?_⟩
  obtain ⟨params, body, bare, span, -, -, hext, hclosure⟩ := hmade.closure_eq
  rw [hclosure]
  exact ⟨Nat.lt_of_lt_of_le h.frame_lt hext.frames, (hext.depth_eq h.frame_lt).trans h.depth⟩

/-- Without new frames and functions all stays as it is. -/
theorem of_extends (h : m.Lexical s root as n) (hext : m.store.Extends m'.store)
    (hframe : m'.frame = m.frame) (hframes : m'.store.frames.size = m.store.frames.size)
    (hclosures : m'.store.closures.size = m.store.closures.size) : m'.Lexical s root as n where
  frame_lt := by
    rw [hframe, hframes]
    exact h.frame_lt
  depth := by
    rw [hframe, hext.depth_eq h.frame_lt]
    exact h.depth
  closures c hc hlt := by
    rw [hclosures] at hlt
    obtain ⟨k, hk⟩ := h.closures c hc hlt
    exact ⟨k, hk.mono hext hlt⟩
  frames f hf hlt := by
    rw [hframes] at hlt
    rw [hext.depth_eq hlt]
    exact h.frames f hf hlt

theorem stable (o : Options) (s : Store) (root : FrameId) (as : List (Options × Moment)) (n : Nat) :
    Stable o (Lexical s root as n) where
  bind m x v h := h.of_extends ((kept_extends o).bind m x v) rfl (by simp [bind, Store.bind]) rfl
  assign m x v h := by
    refine h.of_extends ((kept_extends o).assign m x v) ?_ ?_ ?_
    all_goals
      unfold Machine.assign
      split
    · rfl
    · split <;> rfl
    · simp [bind, Store.bind]
    · split <;> simp [Store.bind]
    · rfl
    · split <;> rfl
  put m slot p h := by
    refine h.of_extends ((kept_extends o).put m slot p) rfl ?_ ?_ <;> cases slot <;> rfl
  newArray m items h := h.of_extends ((kept_extends o).newArray m items) rfl rfl rfl
  newHash m d h := h.of_extends ((kept_extends o).newHash m d) rfl rfl rfl
  print m line h := h.of_extends (.refl _) rfl rfl rfl

/-- A function literal makes a function of the depth at hand. -/
theorem newFunction {fuel : Nat} {params : List String} {body : Block} {bare span : Span}
    (hfits : Moment.Fits as o n ⟨fuel, .expr (.function params body bare span), m⟩)
    (h : m.Lexical s root as n) :
    Lexical s root as n { m with store := (m.store.addClosure ⟨params, body, m.frame⟩).2 } where
  frame_lt := h.frame_lt
  depth := h.depth
  closures c hc hlt := by
    have hext : m.store.Extends (m.store.addClosure ⟨params, body, m.frame⟩).2 := .addClosure _ _
    by_cases hold : c < m.store.closures.size
    · obtain ⟨k, hk⟩ := h.closures c hc hold
      exact ⟨k, hk.mono hext hold⟩
    · obtain rfl : c = m.store.closures.size := by
        simp [Store.addClosure] at hlt
        omega
      exact ⟨n, born hfits h ⟨params, body, bare, span, _, rfl, rfl, .refl _⟩⟩
  frames := h.frames

/-- The body of a function lies inside one more literal than that which has made the function. -/
theorem fits_body {a b : Moment} {c : ClosureId} {args : List Value} (ha : a.Fits as o n)
    (call : a.task = .apply (.function c) args) (hb : a.Begins o 1 b)
    (htask : b.task = (a.machine.store.closure c).task)
    (hborn : s.Born root as a.machine.store c k) : b.Fits as o (k + 1) := by
  obtain ⟨⟨o', e, he, hmade⟩, -⟩ := hborn
  refine ⟨.body ha.lies call hb he.lies hmade, ?_⟩
  obtain ⟨params, body, bare, span, hliteral, -, -, hclosure⟩ := hmade.closure_eq
  have hes := he.expressions
  rw [hliteral, Task.expressions, Expr.expressions, List.cons_subset, Block.expressions_eq] at hes
  rw [htask, hclosure]
  exact hes.2

/-- The frame of a call stands inside the frame in which the function was made. -/
theorem enter {c : ClosureId} (h : m.Lexical s root as n)
    (hborn : s.Born root as m.store c k) (args : List Value) :
    (m.enter (m.store.closure c) args).Lexical s root as (k + 1) := by
  obtain ⟨⟨o', e, he, hmade⟩, hlt, hdepth⟩ := hborn
  have hext : m.store.Extends (m.enter (m.store.closure c) args).store := .addFrame m.store _
  have hsize : (m.enter (m.store.closure c) args).store.frames.size = m.store.frames.size + 1 := by
    simp [Machine.enter, Store.addFrame]
  have hnew : (m.enter (m.store.closure c) args).store.depth m.store.frames.size =
      s.depth root + (k + 1) := by
    rw [← Nat.add_assoc, ← hdepth]
    simp [Machine.enter, Store.addFrame, Store.depth, Store.chain, Store.frame]
  have hk : k < deepestNesting (Moment.expressions as) := by
    obtain ⟨params, body, bare, span, hliteral, -⟩ := hmade.closure_eq
    have hes := he.expressions
    rw [hliteral] at hes
    exact lt_deepestNesting (hes (Expr.mem_expressions k _))
  refine ⟨?_, hnew, fun d hd hdlt => ?_, fun f hf hflt => ?_⟩
  · rw [hsize]
    exact Nat.lt_succ_self _
  · obtain ⟨j, hj⟩ := h.closures d hd hdlt
    exact ⟨j, hj.mono hext hdlt⟩
  · by_cases hold : f < m.store.frames.size
    · rw [hext.depth_eq hold]
      exact h.frames f hf hold
    · obtain rfl : f = m.store.frames.size := by omega
      rw [hnew]
      omega

/-- When the body is left, the frame of the caller is at hand again. -/
theorem leave (h : m.Lexical s root as n) (hext : m.store.Extends m'.store)
    (h' : m'.Lexical s root as k) : (m'.leave m.frame).Lexical s root as n where
  frame_lt := Nat.lt_of_lt_of_le h.frame_lt hext.frames
  depth := (hext.depth_eq h.frame_lt).trans h.depth
  closures := h'.closures
  frames := h'.frames

end Machine.Lexical

/-- Depths are lexical inside the region of `root`, if no function could be reached from there. -/
theorem guard_lexical (o : Options) (s : Store) (root : FrameId) (as : List (Options × Moment)) :
    Guard o (s.regionFrom root) (Moment.Fits as o) (Machine.Lexical s root as) where
  stable := Machine.Lexical.stable o s root as
  within n a b ha hb := by
    refine ⟨.part ha.lies hb, ?_⟩
    cases hb with
    | @step _ _ t _ m _ hb =>
      have hparts : (t.plan o m).Within (·.expressions n ⊆ Moment.expressions as) :=
        Task.plan_within fun p hp => List.Subset.trans (hp.expressions_subset n) ha.expressions
      exact hparts.of_begins hb
  function n _ _ _ _ _ _ hfits h := h.newFunction hfits
  call n _ c args m hfits h hcall := by
    obtain ⟨k, hborn⟩ := h.closures c hcall.known.1 hcall.known.2
    exact ⟨k + 1, Machine.Lexical.fits_body hfits rfl
      (Moment.begins_body hcall.arity hcall.allowed) rfl hborn, h.enter hborn args,
      fun m' hext h' => h.leave hext h'⟩

/-! ### Sessions -/

namespace Moment

/-- Every program of a session begins in the frame `root`, with no function literal around it. -/
theorem Successive.guarded {s₁ : Store} {bs : List (Options × Moment)} (h : Successive root s₁ bs)
    (hbs : ∀ b ∈ bs, b ∈ as)
    (hroot : ∀ m : Machine, m.store = s₁ → m.frame = root →
      m.Guarded (s.regionFrom root) (Machine.Lexical s root as 0)) :
    ∀ b ∈ bs, b.2.Guarded (s.regionFrom root) (Fits as b.1) (Machine.Lexical s root as) 0 := by
  have begun {o : Options} {fuel : Nat} {p : Program} {m : Machine}
      (hmem : (o, ⟨fuel, .stmts p none, m⟩) ∈ as)
      (hm : m.Guarded (s.regionFrom root) (Machine.Lexical s root as 0)) :
      Moment.Guarded (s.regionFrom root) (Fits as o) (Machine.Lexical s root as) 0
        ⟨fuel, .stmts p none, m⟩ :=
    ⟨⟨.program hmem, fun e he => List.mem_flatMap.2 ⟨_, hmem, he⟩⟩, hm, nofun⟩
  induction h with
  | @last o fuel p m hframe =>
    intro b hb
    obtain rfl := List.mem_singleton.1 hb
    exact begun (hbs _ hb) (hroot m rfl hframe)
  | @cons o fuel p m m' ending bs hframe heval _ ih =>
    have hfirst := begun (hbs _ List.mem_cons_self) (hroot m rfl hframe)
    have hleft : m'.Guarded (s.regionFrom root) (Machine.Lexical s root as 0) :=
      Program.leaves_of_eval ((guard_lexical o s root as).brings fuel hfirst).leaves heval
    have hframe' : m'.frame = root := (Program.samePlace_of_eval heval).1.trans hframe
    intro b hb
    rcases List.mem_cons.1 hb with rfl | hb
    · exact hfirst
    · refine ih (fun b hb => hbs b (List.mem_cons_of_mem _ hb)) (fun m₂ hstore hroot₂ => ?_) b hb
      -- The next program begins over the store and in the frame that this one has left.
      have hsame : m₂.frame = m'.frame := hroot₂.trans hframe'.symm
      refine ⟨hstore ▸ hleft.tame, hsame ▸ hleft.home, hleft.holds.of_extends ?_ hsame ?_ ?_⟩
      · exact hstore ▸ .refl _
      · rw [hstore]
      · rw [hstore]

/-- At the moment `b` of a session that has begun over the store `s`, depths are as the places in
the source say, where `n` function literals are around what is evaluated. -/
structure DepthIsLexical (s : Store) (root : FrameId) (as : List (Options × Moment)) (n : Nat)
    (b : Moment) : Prop where
  /-- The frame at hand is `n` frames deeper than `root` was. -/
  frame : b.machine.store.depth b.machine.frame = s.depth root + n
  /-- An expression that is evaluated stands inside `n` function literals of a program. -/
  expression : ∀ e, b.task = .expr e → (n, e) ∈ expressions as
  /-- Whatever function has been made has been made by a function literal of the session. -/
  made : ∀ c, s.closures.size ≤ c → c < b.machine.store.closures.size →
    ∃ o k e, Lies as o k e ∧ e.Makes c b.machine.store
  /-- If the literal lies inside `k` others, the function stands in a frame that is `k` frames
  deeper. -/
  captured : ∀ o c k e, Lies as o k e → e.Makes c b.machine.store →
    b.machine.store.depth (b.machine.store.closure c).frame = s.depth root + k
  /-- No frame that has been made is deeper than function literals stand inside each other. -/
  frames : ∀ f, s.frames.size ≤ f → f < b.machine.store.frames.size →
    b.machine.store.depth f ≤ s.depth root + deepestNesting (expressions as)

/-- In a session of programs that begins in an environment from which no function can be reached,
whatever is evaluated lies inside some number of function literals, and it is this number that says
how deep the frame at hand is, whatever calls have led there. -/
theorem depth_lexical (hroot : root < s.frames.size) (hnone : ∀ c, ¬ s.Reachable root (.function c))
    (hs : Successive root s as) :
    (∀ o a, (o, a) ∈ as → ∀ k b, a.Reaches o k b → ∃ n, Lies as o n b) ∧
      ∀ o n b, Lies as o n b → DepthIsLexical s root as n b := by
  have hbegun := hs.guarded (s := s) (fun b hb => hb) fun m hstore hframe => by
    subst hstore hframe
    exact ⟨Store.tame_from hnone, .inl rfl, hroot, rfl,
      fun c hc hlt => absurd hlt (Nat.not_lt_of_le hc),
      fun f hf hlt => absurd hlt (Nat.not_lt_of_le hf)⟩
  have hguarded {o : Options} {n : Nat} {b : Moment} (hb : Lies as o n b) :
      b.Guarded (s.regionFrom root) (Fits as o) (Machine.Lexical s root as) n := by
    induction hb with
    | program ha => exact hbegun _ ha
    | @part o _ _ _ _ hb ih =>
      rcases (guard_lexical o s root as).begins ih hb with ⟨-, h⟩ | ⟨_, _, _, _, h, -⟩
      · exact h
      · cases h
    | @body o _ _ _ _ _ _ _ _ _ call hb _ made ih ihe =>
      rcases (guard_lexical o s root as).begins ih hb with ⟨h, -⟩ | ⟨_, _, _, _, -, rfl, rfl, hcall⟩
      · cases h
      · cases call
        have hborn := ihe.machine.holds.born ihe.fits made
        exact ⟨Machine.Lexical.fits_body ih.fits rfl hb rfl hborn,
          ih.machine.enter hcall (ih.machine.holds.enter hborn _), nofun⟩
  refine ⟨fun o a ha k b hr => ?_, fun o n b hb => ?_⟩
  · obtain ⟨n, hb⟩ := (guard_lexical o s root as).reaches (hbegun _ ha) hr
    exact ⟨n, hb.fits.lies⟩
  · have h := hguarded hb
    exact {
      frame := h.machine.holds.depth
      expression := fun e he => h.fits.expressions (by
        rw [he]
        exact Expr.mem_expressions n e)
      made := fun c hc hlt => by
        obtain ⟨k, ⟨o', e, he, hmade⟩, -⟩ := h.machine.holds.closures c hc hlt
        exact ⟨o', k, e, he.lies, hmade⟩
      captured := fun o' c k e he hmade =>
        ((hguarded he).machine.holds.born (hguarded he).fits hmade).2.2
      frames := h.machine.holds.frames }

/-- The program `let add = fn(x) { fn(y) { x + y } };`. -/
def definesAdd : Program :=
  let sum : Expr := .binary .add (.ident "x" .nowhere) (.ident "y" .nowhere) .nowhere
  let inner : Expr := .function ["y"] ⟨[.expr sum .nowhere], .nowhere⟩ .nowhere .nowhere
  [.letBind "add" (.function ["x"] ⟨[.expr inner .nowhere], .nowhere⟩ .nowhere .nowhere) .nowhere]

/-- The program `add(1)(2)`. -/
def usesAdd : Program :=
  let addsOne : Expr := .call (.ident "add" .nowhere) [.int 1 .nowhere] .nowhere
  [.expr (.call addsOne [.int 2 .nowhere] .nowhere) .nowhere]

/-- A session in which the second program calls the functions of the first one, with other
options. -/
def adding : List (Options × Moment) :=
  let left := (Program.eval {} 20 definesAdd .initial).elim .initial (·.2)
  [({}, ⟨20, .stmts definesAdd none, .initial⟩),
    ({ assign := .enclosing }, ⟨20, .stmts usesAdd none, left⟩)]

/-- Nothing can be reached at the start of it, and depths are lexical in it. -/
theorem depth_lexical_of_adding :
    0 < Machine.initial.store.frames.size ∧
    (∀ c, ¬ Machine.initial.store.Reachable 0 (.function c)) ∧
    Successive 0 Machine.initial.store adding ∧
    (∀ o a, (o, a) ∈ adding → ∀ k b, a.Reaches o k b → ∃ n, Lies adding o n b) ∧
      ∀ o n b, Lies adding o n b → DepthIsLexical Machine.initial.store 0 adding n b := by
  have hnothing (v : Value) : ¬ Machine.initial.store.Reachable 0 v := by
    intro h
    induction h with
    | bound hg h =>
      obtain rfl := List.mem_singleton.1 hg
      cases h
    | item | entry | captured => assumption
  have hsession : Successive 0 Machine.initial.store adding := .cons rfl rfl (.last rfl)
  exact ⟨by decide, fun c => hnothing _, hsession,
    depth_lexical (by decide) (fun c => hnothing _) hsession⟩

end Moment

end

end MonkeyLang
