import MonkeyLang.Proofs.Evaluation.Following
import MonkeyLang.Proofs.Parsing.Strip

/-!
# Evaluation without spans

Evaluation looks at no span. Taking the spans out of what is evaluated, and out of the bodies of the
functions in the store, takes them out of the machine that is left and changes nothing else: neither
values nor frames, and no text.

The induction is on the number of steps. `EvaluatesStripped o n` collects what every evaluator does in
`n` steps, and there is one lemma for the step of each evaluator.

## Main statements

* `Program.eval_strip` : the evaluation of a program without its spans.
-/

namespace MonkeyLang

variable {α β : Type}

/-! ### Stores that look alike -/

/-- The second store holds the same arrays and hashes as the first one, and functions with the same
parameters. Nothing else of a store is shown or indexed. -/
structure Store.LooksLike (s s' : Store) : Prop where
  arrays : s'.arrays = s.arrays
  hashes : s'.hashes = s.hashes
  params : ∀ c, (s'.closure c).params = (s.closure c).params

namespace Store.LooksLike

variable {s s' : Store} (h : s.LooksLike s')
include h

theorem array (a : ArrayId) : s'.array a = s.array a := by rw [Store.array, h.arrays, Store.array]

theorem hash (a : HashId) : s'.hash a = s.hash a := by rw [Store.hash, h.hashes, Store.hash]

theorem renderIn (levels : Nat) (opened : List Value) (v : Value) :
    s'.renderIn levels opened v = s.renderIn levels opened v := by
  induction levels generalizing opened v with
  | zero =>
    cases v with
    | function c => rw [Store.renderIn, Store.renderIn, h.params]
    | _ => rfl
  | succ levels ih =>
    have hih (opened : List Value) : s'.renderIn levels opened = s.renderIn levels opened :=
      funext (ih opened)
    cases v with
    | array a => rw [Store.renderIn, Store.renderIn, hih, h.array]
    | hash a => rw [Store.renderIn, Store.renderIn, hih, h.hash]
    | function c => rw [Store.renderIn, Store.renderIn, h.params]
    | _ => rfl

theorem render (v : Value) : s'.render v = s.render v := by
  rw [Store.render, Store.render, h.renderIn, levels, levels, h.arrays, h.hashes]

theorem locate (base place : Value) : s'.locate base place = s.locate base place := by
  cases base with
  | array a =>
    cases place with
    | int i => rw [Store.locate, Store.locate, itemAt?, itemAt?, h.array]
    | _ => rfl
  | _ => rfl

theorem get? (slot : Slot) : s'.get? slot = s.get? slot := by
  cases slot with
  | item a i => rw [Store.get?, Store.get?, h.array]
  | entry a k => rw [Store.get?, Store.get?, h.hash]

theorem read (base place : Value) : s'.read base place = s.read base place := by
  rw [Store.read, Store.read, h.locate]
  cases s.locate base place with
  | error => rfl
  | ok slot => simp only [h.get?, h.render]

end Store.LooksLike

/-! ### Machines without spans -/

/-- The function without the spans of its body. -/
def Closure.strip (c : Closure) : Closure := { c with body := c.body.strip }

/-- The store without the spans of the bodies of its functions. -/
def Store.strip (s : Store) : Store := { s with closures := s.closures.map Closure.strip }

/-- The machine without the spans in its store. -/
def Machine.strip (m : Machine) : Machine := { m with store := m.store.strip }

namespace Machine

@[simp] theorem store_strip (m : Machine) : m.strip.store = m.store.strip := rfl

@[simp] theorem frame_strip (m : Machine) : m.strip.frame = m.frame := rfl

@[simp] theorem depth_strip (m : Machine) : m.strip.depth = m.depth := rfl

@[simp] theorem lookup_strip (m : Machine) (x : String) : m.strip.lookup x = m.lookup x := rfl

end Machine

@[simp] theorem Closure.params_strip (c : Closure) : c.strip.params = c.params := rfl

@[simp] theorem Closure.body_strip (c : Closure) : c.strip.body = c.body.strip := rfl

@[simp] theorem Block.statements_strip (b : Block) :
    b.strip.statements = Stmt.stripAll b.statements := by
  cases b
  rfl

namespace Store

theorem closure_strip (s : Store) (c : ClosureId) : s.strip.closure c = (s.closure c).strip := by
  simp only [closure, strip, Array.getD_eq_getD_getElem?, Array.getElem?_map]
  cases s.closures[c]? <;> rfl

theorem addClosure_strip (s : Store) (c : Closure) :
    s.strip.addClosure c.strip = ((s.addClosure c).1, (s.addClosure c).2.strip) := by
  simp only [addClosure, strip, Array.size_map, Array.map_push]

theorem looksLike_strip (s : Store) : s.LooksLike s.strip :=
  ⟨rfl, rfl, fun c => by rw [closure_strip, Closure.params_strip]⟩

end Store

namespace Machine

theorem assign_strip (m : Machine) (mode : AssignMode) (x : String) (v : Value) :
    m.strip.assign mode x v = (m.assign mode x v).strip := by
  cases mode with
  | localFrame => rfl
  | enclosing =>
    have howner : m.store.strip.owner? m.frame x = m.store.owner? m.frame x := rfl
    simp only [assign, store_strip, frame_strip, howner]
    cases m.store.owner? m.frame x <;> rfl

theorem put_strip (m : Machine) (slot : Slot) (p : Pair) :
    m.strip.put slot p = (m.put slot p).strip := by
  cases slot <;> rfl

theorem newFunction_strip (m : Machine) (params : List String) (body : Block) :
    (m.newFunction params body).mapMachine strip = m.strip.newFunction params body.strip := by
  have h := m.store.addClosure_strip ⟨params, body, m.frame⟩
  simp only [newFunction, Closure.strip, store_strip, frame_strip] at h ⊢
  rw [h]
  rfl

theorem enter_strip (m : Machine) (c : Closure) (args : List Value) :
    (m.enter c args).strip = m.strip.enter c.strip args := rfl

/-- Built-in functions see nothing of the bodies of functions. -/
theorem call_strip (m : Machine) (b : Builtin) (args : List Value) :
    (b.call args m).mapMachine strip = b.call args m.strip := by
  refine Outcome.mapMachine_call strip (fun _ => rfl) (fun _ => rfl) (fun m v => ?_) b args
  rw [store_strip, m.store.looksLike_strip.render]
  rfl

end Machine

/-! ### Evaluators -/

namespace Outcome

variable {r r' : Outcome α}

/-- What follows an evaluation goes on in the machine without spans. -/
theorem strip_andThen {next next' : α → Machine → Outcome β} (h : r.mapMachine Machine.strip = r')
    (hn : ∀ a m, (next a m).mapMachine Machine.strip = next' a m.strip) :
    (r.andThen next).mapMachine Machine.strip = r'.andThen next' := by
  rw [mapMachine_andThen Machine.strip hn, h]

theorem strip_map (f : α → β) (h : r.mapMachine Machine.strip = r') :
    (r.map f).mapMachine Machine.strip = r'.map f :=
  strip_andThen h fun _ _ => rfl

end Outcome

/-- What every evaluator does in `n` steps without spans. -/
structure EvaluatesStripped (o : Options) (n : Nat) : Prop where
  expr : ∀ e m, (Expr.eval o n e m).mapMachine Machine.strip = Expr.eval o n e.strip m.strip
  exprs : ∀ es m,
    (Expr.evalAll o n es m).mapMachine Machine.strip = Expr.evalAll o n (Expr.stripAll es) m.strip
  entries : ∀ es d m, (Expr.evalEntries o n es d m).mapMachine Machine.strip =
    Expr.evalEntries o n (Expr.stripEntries es) d m.strip
  part : ∀ e m,
    (Expr.evalPart o n e m).mapMachine Machine.strip = Expr.evalPart o n (Expr.stripPart e) m.strip
  assign : ∀ target value m, (Expr.evalAssign o n target value m).mapMachine Machine.strip =
    Expr.evalAssign o n target.strip value.strip m.strip
  stmt : ∀ s m, (Stmt.eval o n s m).mapMachine Machine.strip = Stmt.eval o n s.strip m.strip
  stmts : ∀ ss last m, (Stmt.evalAll o n ss last m).mapMachine Machine.strip =
    Stmt.evalAll o n (Stmt.stripAll ss) last m.strip
  loop : ∀ test after body last m,
    (Stmt.evalLoop o n test after body last m).mapMachine Machine.strip =
      Stmt.evalLoop o n (Expr.stripPart test) (Expr.stripPart after) body.strip last m.strip
  apply : ∀ f args m,
    (Value.apply o n f args m).mapMachine Machine.strip = Value.apply o n f args m.strip

namespace EvaluatesStripped

variable {o : Options} {n : Nat}

section Step

variable (ih : EvaluatesStripped o n) (m : Machine)
include ih

theorem expr_succ (e : Expr) :
    (Expr.eval o (n + 1) e m).mapMachine Machine.strip =
      Expr.eval o (n + 1) e.strip m.strip := by
  cases e with
  | int | bool | str => rfl
  | ident x =>
    simp only [Expr.strip, Expr.eval, Machine.lookup_strip]
    split
    · rfl
    · split <;> rfl
  | array items =>
    simp only [Expr.strip, Expr.eval]
    exact Outcome.strip_andThen (ih.exprs items m) fun _ _ => rfl
  | hash entries =>
    simp only [Expr.strip, Expr.eval]
    exact Outcome.strip_andThen (ih.entries entries _ m) fun _ _ => rfl
  | unary op operand =>
    simp only [Expr.strip, Expr.eval]
    exact Outcome.strip_andThen (ih.expr operand m) fun _ _ => Outcome.mapMachine_ofExcept ..
  | binary op left right =>
    simp only [Expr.strip, Expr.eval]
    exact Outcome.strip_andThen (ih.expr left m) fun _ m =>
      Outcome.strip_andThen (ih.expr right m) fun _ _ => Outcome.mapMachine_ofExcept ..
  | cond test thenBlock elseBlock =>
    simp only [Expr.strip, Expr.eval, Block.statements_strip]
    refine Outcome.strip_andThen (ih.expr test m) fun v m => ?_
    split
    · exact Outcome.strip_map _ (ih.stmts _ _ m)
    · cases elseBlock with
      | none => rfl
      | some b =>
        simp only [Block.stripPart, Block.statements_strip]
        exact Outcome.strip_map _ (ih.stmts _ _ m)
  | function params body =>
    simp only [Expr.strip, Expr.eval]
    exact m.newFunction_strip params body
  | call callee args =>
    simp only [Expr.strip, Expr.eval]
    exact Outcome.strip_andThen (ih.expr callee m) fun f m =>
      Outcome.strip_andThen (ih.exprs args m) fun vs m => ih.apply f vs m
  | index base place =>
    simp only [Expr.strip, Expr.eval]
    refine Outcome.strip_andThen (ih.expr base m) fun v m =>
      Outcome.strip_andThen (ih.expr place m) fun w m => ?_
    rw [Outcome.mapMachine_ofExcept, Machine.store_strip, m.store.looksLike_strip.read]
  | assign target value =>
    simp only [Expr.strip, Expr.eval]
    exact ih.assign target value m

theorem exprs_succ (es : List Expr) :
    (Expr.evalAll o (n + 1) es m).mapMachine Machine.strip =
      Expr.evalAll o (n + 1) (Expr.stripAll es) m.strip := by
  cases es with
  | nil => rfl
  | cons e es =>
    simp only [Expr.stripAll, Expr.evalAll]
    exact Outcome.strip_andThen (ih.expr e m) fun _ m => Outcome.strip_map _ (ih.exprs es m)

theorem entries_succ (es : List (Expr × Expr)) (d : Dict Key Pair) :
    (Expr.evalEntries o (n + 1) es d m).mapMachine Machine.strip =
      Expr.evalEntries o (n + 1) (Expr.stripEntries es) d m.strip := by
  cases es with
  | nil => rfl
  | cons entry es =>
    simp only [Expr.stripEntries, Expr.evalEntries]
    refine Outcome.strip_andThen (ih.expr entry.1 m) fun v m => ?_
    split
    · rfl
    · exact Outcome.strip_andThen (ih.expr entry.2 m) fun w m => ih.entries es _ m

theorem part_succ (e : Option Expr) :
    (Expr.evalPart o (n + 1) e m).mapMachine Machine.strip =
      Expr.evalPart o (n + 1) (Expr.stripPart e) m.strip := by
  cases e with
  | none => rfl
  | some e =>
    simp only [Expr.stripPart, Expr.evalPart]
    exact Outcome.strip_map _ (ih.expr e m)

theorem assign_succ (target value : Expr) :
    (Expr.evalAssign o (n + 1) target value m).mapMachine Machine.strip =
      Expr.evalAssign o (n + 1) target.strip value.strip m.strip := by
  cases target with
  | ident x =>
    simp only [Expr.strip, Expr.evalAssign]
    rw [Machine.lookup_strip]
    split
    · refine Outcome.strip_andThen (ih.expr value m) fun v m => ?_
      rw [Machine.assign_strip]
      rfl
    · rfl
  | index base place =>
    simp only [Expr.strip, Expr.evalAssign]
    refine Outcome.strip_andThen (ih.expr base m) fun v m =>
      Outcome.strip_andThen (ih.expr place m) fun w m => ?_
    rw [Machine.store_strip, m.store.looksLike_strip.locate]
    split
    · rfl
    · refine Outcome.strip_andThen (ih.expr value m) fun u m => ?_
      rw [Machine.put_strip]
      rfl
  | _ => rfl

theorem stmt_succ (s : Stmt) :
    (Stmt.eval o (n + 1) s m).mapMachine Machine.strip =
      Stmt.eval o (n + 1) s.strip m.strip := by
  cases s with
  | letBind x value | ret value =>
    simp only [Stmt.strip, Stmt.eval]
    exact Outcome.strip_andThen (ih.expr value m) fun _ _ => rfl
  | expr value =>
    simp only [Stmt.strip, Stmt.eval]
    exact Outcome.strip_map _ (ih.expr value m)
  | forLoop init test after body =>
    cases init with
    | none =>
      simp only [Stmt.strip, Stmt.stripPart, Stmt.eval]
      exact ih.loop test after body none m
    | some init =>
      simp only [Stmt.strip, Stmt.stripPart, Stmt.eval]
      exact Outcome.strip_andThen (ih.stmt init m) fun _ m => ih.loop test after body none m

theorem stmts_succ (ss : List Stmt) (last : Option Value) :
    (Stmt.evalAll o (n + 1) ss last m).mapMachine Machine.strip =
      Stmt.evalAll o (n + 1) (Stmt.stripAll ss) last m.strip := by
  cases ss with
  | nil => rfl
  | cons s ss =>
    simp only [Stmt.stripAll, Stmt.evalAll]
    exact Outcome.strip_andThen (ih.stmt s m) fun v m => ih.stmts ss v m

theorem loop_succ (test after : Option Expr) (body : Block) (last : Option Value) :
    (Stmt.evalLoop o (n + 1) test after body last m).mapMachine Machine.strip =
      Stmt.evalLoop o (n + 1) (Expr.stripPart test) (Expr.stripPart after) body.strip last
        m.strip := by
  simp only [Stmt.evalLoop, Block.statements_strip]
  refine Outcome.strip_andThen (ih.part test m) fun v m => ?_
  split
  · exact Outcome.strip_andThen (ih.stmts _ _ m) fun last m =>
      Outcome.strip_andThen (ih.part after m) fun _ m => ih.loop test after body last m
  · rfl

theorem apply_succ (f : Value) (args : List Value) :
    (Value.apply o (n + 1) f args m).mapMachine Machine.strip =
      Value.apply o (n + 1) f args m.strip := by
  cases f with
  | function c =>
    simp only [Value.apply, Machine.store_strip, Machine.depth_strip, Store.closure_strip,
      Closure.params_strip]
    generalize m.store.closure c = c
    split
    · rfl
    · cases o.forbids m.depth with
      | some limit => rfl
      | none =>
        dsimp only
        rw [← m.enter_strip, Closure.body_strip, Block.statements_strip, ← ih.stmts]
        cases Stmt.evalAll o n c.body.statements none (m.enter c args) with
        | signal s => cases s <;> rfl
        | done | outOfFuel => rfl
  | builtin b => exact m.call_strip b args
  | _ => rfl

end Step

/-- Taking out the spans goes with every evaluator. -/
theorem all (o : Options) (n : Nat) : EvaluatesStripped o n := by
  induction n with
  | zero => constructor <;> intros <;> rfl
  | succ n ih =>
    exact {
      expr := fun e m => ih.expr_succ m e
      exprs := fun es m => ih.exprs_succ m es
      entries := fun es d m => ih.entries_succ m es d
      part := fun e m => ih.part_succ m e
      assign := fun target value m => ih.assign_succ m target value
      stmt := fun s m => ih.stmt_succ m s
      stmts := fun ss last m => ih.stmts_succ m ss last
      loop := fun test after body last m => ih.loop_succ m test after body last
      apply := fun f args m => ih.apply_succ m f args }

end EvaluatesStripped

/-- A program without its spans ends as the program does, and leaves what the program leaves without
the spans. -/
theorem Program.eval_strip (o : Options) (fuel : Nat) (p : Program) (m : Machine) :
    Program.eval o fuel p.strip m.strip =
      (Program.eval o fuel p m).map fun (ending, m') => (ending, m'.strip) := by
  exact eval_of_mapMachine ((EvaluatesStripped.all o fuel).stmts p none m)

end MonkeyLang
