import MonkeyLang.Proofs.Evaluation.CallDepth
import MonkeyLang.Proofs.Evaluation.Fuel
import MonkeyLang.Proofs.Evaluation.Parts
import MonkeyLang.Proofs.Evaluation.Rendering

/-!
# Evaluation that ends

A program can go on forever in two ways: by the rounds of a loop, and by functions that call each
other. With a limit on calls and without loops it can do neither. A call needs one of the calls that
are left, and everything else that is begun is smaller than what begins it. The bodies of functions
come from the store, so their size is bounded by nothing in the program; it is the number of calls
left that goes down there, and that comes first in the measure.

No loop gets into the store, because the functions that are made are function literals of what is
evaluated.

## Main definitions

* `Stmt.hasLoop` : whether there is a loop anywhere in a statement.

## Main statements

* `Task.halts` : an evaluation without loops ends, if there is a limit on calls.
* `Program.halts_of_limit` : a program without loops ends in every machine, and so does what it prints.
-/

namespace MonkeyLang

/-! ### Programs without loops -/

mutual

/-- Whether there is a loop in the expression, be it in a function literal. -/
def Expr.hasLoop : Expr → Bool
  | .int _ _ | .bool _ _ | .str _ _ | .ident _ _ => false
  | .array items _ => Expr.hasLoopAll items
  | .hash entries _ => Expr.hasLoopEntries entries
  | .unary _ operand _ => operand.hasLoop
  | .binary _ left right _ => left.hasLoop || right.hasLoop
  | .cond test thenBlock elseBlock _ =>
    test.hasLoop || thenBlock.hasLoop || Block.hasLoopPart elseBlock
  | .function _ body _ _ => body.hasLoop
  | .call callee args _ => callee.hasLoop || Expr.hasLoopAll args
  | .index base place _ => base.hasLoop || place.hasLoop
  | .assign target value _ => target.hasLoop || value.hasLoop

/-- Whether there is a loop in one of the expressions. -/
def Expr.hasLoopAll : List Expr → Bool
  | [] => false
  | e :: es => e.hasLoop || Expr.hasLoopAll es

/-- Whether there is a loop in one of the entries of a hash literal. -/
def Expr.hasLoopEntries : List (Expr × Expr) → Bool
  | [] => false
  | (key, value) :: es => key.hasLoop || value.hasLoop || Expr.hasLoopEntries es

/-- Whether the statement is a loop or there is one in it. -/
def Stmt.hasLoop : Stmt → Bool
  | .letBind _ value _ | .ret value _ | .expr value _ => value.hasLoop
  | .forLoop .. => true

/-- Whether there is a loop among or in the statements. -/
def Stmt.hasLoopAll : List Stmt → Bool
  | [] => false
  | s :: ss => s.hasLoop || Stmt.hasLoopAll ss

/-- Whether there is a loop in the block. -/
def Block.hasLoop : Block → Bool
  | ⟨statements, _⟩ => Stmt.hasLoopAll statements

/-- Whether there is a loop in the second block of an `if` expression. -/
def Block.hasLoopPart : Option Block → Bool
  | none => false
  | some b => b.hasLoop

end

/-- Whether there is a loop anywhere in the program. -/
def Program.hasLoop (p : Program) : Bool := Stmt.hasLoopAll p

theorem Block.hasLoop_eq (b : Block) : b.hasLoop = Stmt.hasLoopAll b.statements := by
  cases b
  rfl

theorem Block.sizeOf_statements_lt (b : Block) : sizeOf b.statements < sizeOf b := by
  cases b
  simp [Block.statements]
  omega

namespace Task

/-- There is no loop in what is evaluated. A call is no part of the program where it is made. -/
def LoopFree : Task → Prop
  | .expr e => e.hasLoop = false
  | .exprs es => Expr.hasLoopAll es = false
  | .entries es _ => Expr.hasLoopEntries es = false
  | .part e => ∀ x ∈ e, x.hasLoop = false
  | .assign target value => target.hasLoop = false ∧ value.hasLoop = false
  | .stmt s => s.hasLoop = false
  | .stmts ss _ => Stmt.hasLoopAll ss = false
  | .loop _ _ _ _ => False
  | .apply _ _ => True

/-- The size of the syntax that is evaluated. -/
noncomputable def size : Task → Nat
  | .expr e => sizeOf e
  | .exprs es => sizeOf es
  | .entries es _ => sizeOf es
  | .part e => sizeOf e
  | .assign target value => sizeOf target + sizeOf value
  | .stmt s => sizeOf s
  | .stmts ss _ => sizeOf ss
  | .loop _ _ _ _ | .apply _ _ => 0

/-- A part of what has no loop has none, and it is smaller. -/
theorem PartOf.descends {p t : Task} (h : p.PartOf t) (ht : t.LoopFree) :
    p.LoopFree ∧ p.size < t.size := by
  cases h with
  | @thenBlock test b =>
    have hsize := b.sizeOf_statements_lt
    simp_all [LoopFree, size, Expr.hasLoop, Block.hasLoop_eq]
    omega
  | @elseBlock test _ b =>
    have hsize := b.sizeOf_statements_lt
    simp_all [LoopFree, size, Expr.hasLoop, Block.hasLoopPart, Block.hasLoop_eq]
    omega
  | @assigned target value =>
    refine ⟨ht.2, Nat.lt_add_of_pos_left ?_⟩
    cases target <;> simp +arith
  | init | rounds | test | body | after | again => simp [LoopFree, Stmt.hasLoop] at ht
  | header => simp_all [LoopFree, size]
  | _ =>
    constructor
    · simp_all [LoopFree, Expr.hasLoop, Expr.hasLoopAll, Expr.hasLoopEntries, Stmt.hasLoop,
        Stmt.hasLoopAll]
    · simp +arith [size]

end Task

/-! ### Evaluation that ends -/

/-- There is enough fuel for the evaluation of the task. -/
def Task.Halts (o : Options) (t : Task) (m : Machine) : Prop := ∃ n, t.eval o n m ≠ .outOfFuel

theorem Outcome.leaveTo_ne_outOfFuel_iff {r : Outcome (Option Value)} {caller : FrameId} :
    r.leaveTo caller ≠ .outOfFuel ↔ r ≠ .outOfFuel := by
  cases r with
  | signal s m => cases s <;> simp [leaveTo]
  | done | outOfFuel => simp [leaveTo]

/-- If what comes first ends with some amount of fuel and what follows it with another, then both end
with the larger of the two. -/
theorem Outcome.exists_andThen_ne_outOfFuel {α β : Type} {f : Nat → Outcome α}
    {next : Nat → α → Machine → Outcome β}
    (hf : ∀ n k, n ≤ k → f n ≠ .outOfFuel → f k = f n)
    (hnext : ∀ n k a m, n ≤ k → next n a m ≠ .outOfFuel → next k a m = next n a m) {n : Nat}
    (hn : f n ≠ .outOfFuel) (h : ∀ a m, f n = .done a m → ∃ k, next k a m ≠ .outOfFuel) :
    ∃ k, (f k).andThen (next k) ≠ .outOfFuel := by
  cases hr : f n with
  | outOfFuel => exact absurd hr hn
  | signal s m =>
    refine ⟨n, ?_⟩
    rw [hr]
    simp
  | done a m =>
    obtain ⟨k, hk⟩ := h a m hr
    refine ⟨max n k, ?_⟩
    rw [hf n _ (Nat.le_max_left n k) hn, hr, andThen_done]
    rwa [hnext k _ a m (Nat.le_max_right n k) hk]

/-- There is enough fuel for a plan if there is for all that it begins. -/
theorem Plan.exists_run_ne_outOfFuel {α : Type} {o : Options} {I : Machine → Prop} {F : Task → Prop}
    (leaves : ∀ n t m, F t → I m → (t.eval o n m).Leaves I)
    (leavesBody : ∀ n c args m, I m → m.Enters o c args →
      ((c.task.eval o n (m.enter c args)).leaveTo m.frame).Leaves I)
    (halts : ∀ t m, F t → I m → t.Halts o m)
    (haltsBody : ∀ c args m, I m → m.Enters o c args → c.task.Halts o (m.enter c args))
    {p : Plan α} {m : Machine} (hI : p.Keeps o I) (hF : p.MadeOf F m) :
    ∃ n, (p.run fun t m => t.eval o n m) ≠ .outOfFuel := by
  induction p generalizing m with
  | finish r =>
    refine ⟨0, ?_⟩
    rintro rfl
    exact hF
  | after t m₁ next ih =>
    obtain ⟨-, ht, hnext⟩ := hF
    obtain ⟨n, hn⟩ := halts t m₁ ht hI.1
    have hleft := leaves n t m₁ ht hI.1
    refine Outcome.exists_andThen_ne_outOfFuel (fun n k hk h => Task.eval_mono hk h)
      (fun n k a m hk h => run_mono (fun t m h => Task.eval_mono hk h) _ h) hn fun a m₂ hr => ?_
    have hr : t.eval o n m₁ = .done a m₂ := hr
    rw [hr] at hleft
    exact ih a m₂ (hI.2 a m₂ hleft) (hnext a m₂)
  | body c args m₁ next ih =>
    obtain ⟨n, hn⟩ := haltsBody c args m₁ hI.1.1 hI.1.2
    have hleft := leavesBody n c args m₁ hI.1.1 hI.1.2
    refine Outcome.exists_andThen_ne_outOfFuel (fun n k hk h => ?_)
      (fun n k v m hk h => run_mono (fun t m h => Task.eval_mono hk h) _ h)
      (Outcome.leaveTo_ne_outOfFuel_iff.mpr hn) fun v m₂ hr => ?_
    · dsimp only
      rw [Task.eval_mono hk (Outcome.leaveTo_ne_outOfFuel_iff.mp h)]
    · have hr : (c.task.eval o n (m₁.enter c args)).leaveTo m₁.frame = .done v m₂ := hr
      rw [hr] at hleft
      exact ih v m₂ (hI.2 v m₂ hleft) (hF.2 v m₂)

/-- The functions in the store have no loops. -/
def Store.LoopFree (s : Store) : Prop := ∀ c, (s.closure c).body.hasLoop = false

/-- So many calls are under way, and the functions in the store have no loops. -/
def Machine.LoopFree (depth : Nat) (m : Machine) : Prop := m.depth = depth ∧ m.store.LoopFree

/-- Without loops in what is evaluated, none gets into the store. -/
theorem Machine.LoopFree.invariant (o : Options) :
    Invariant o (fun _ : Nat => Task.LoopFree) Machine.LoopFree where
  within _ _ _ h := Task.plan_within fun _ hp => (hp.descends h).1
  stable d := {
    bind := fun m x v h => h
    assign := fun m x v h => by
      unfold Machine.assign
      split
      · exact h
      · split <;> exact h
    put := fun m slot p h => by cases slot <;> exact h
    newArray := fun m items h => h
    newHash := fun m d h => h
    print := fun m line h => h }
  function d params body bare span m ht h :=
    ⟨h.1, Store.forall_closure_addClosure (P := fun c => c.body.hasLoop = false) h.2 ht⟩
  call d c args m h henter := by
    obtain ⟨id, rfl⟩ := henter.defined
    refine ⟨d + 1, ?_, ⟨congrArg (· + 1) h.1, h.2⟩, fun m' h' => ⟨?_, h'.2⟩⟩
    · have hbody := h.2 id
      rwa [Block.hasLoop_eq] at hbody
    · show m'.depth - 1 = d
      rw [h'.1, Nat.add_sub_cancel]

namespace Task

variable {o : Options} {d k limit : Nat} {t : Task} {m : Machine}

/-- If the bodies end that are entered when `d` calls are under way, all ends that has no loops and is
begun then: its parts are smaller. -/
theorem halts_of_bodies (hbody : ∀ (c : Closure) args (m : Machine), m.LoopFree d →
      m.Enters o c args → c.task.Halts o (m.enter c args))
    (ht : t.LoopFree) (hm : m.LoopFree d) : t.Halts o m := by
  have hI := Machine.LoopFree.invariant o
  induction hn : t.size using Nat.strongRecOn generalizing t m with
  | ind n ih =>
    have hparts : (t.plan o m).MadeOf (fun p => p.LoopFree ∧ p.size < n) m :=
      t.plan_madeOf.mono fun p hp => hn ▸ hp.descends ht
    obtain ⟨j, hj⟩ := Plan.exists_run_ne_outOfFuel (fun j p m hp hm => hI.leaves j hp.1 hm)
      (fun j c args m => hI.leaves_body j) (fun p m hp hm => ih p.size hp.2 hp.1 hm rfl) hbody
      (hI.planKeeps ht hm) hparts
    refine ⟨j + 1, ?_⟩
    rwa [eval_succ]

/-- With a limit on calls, of which `k` are left, all ends that has no loops. -/
theorem halts (hlimit : o.maxDepth = some limit) (hk : d + k = limit) (ht : t.LoopFree)
    (hm : m.LoopFree d) : t.Halts o m := by
  induction k generalizing d t m with
  | zero =>
    refine halts_of_bodies (fun c args m hm henter => ?_) ht hm
    have hallowed := henter.allowed
    simp [Options.forbids, hlimit, hm.1, ← hk] at hallowed
  | succ k ih =>
    refine halts_of_bodies (fun c args m hm henter => ?_) ht hm
    obtain ⟨id, rfl⟩ := henter.defined
    refine ih (d := d + 1) (by omega) ?_ ⟨congrArg (· + 1) hm.1, hm.2⟩
    have hfree := hm.2 id
    rwa [Block.hasLoop_eq] at hfree

end Task

/-! ### Programs -/

namespace Program

/-- With a limit on calls, only loops can go on forever. If there is no loop in the program nor in the
functions of the store, and no more calls are under way than the limit allows, then the program ends,
whatever functions call each other or themselves: from some number of steps on, all bounds give the
same ending and the same machine. What is printed on the way ends, too: the text of a value does not
depend on the bound on its levels. -/
theorem halts_of_limit {o : Options} {limit : Nat} {p : Program} {m : Machine}
    (hlimit : o.maxDepth = some limit) (hp : p.hasLoop = false)
    (hstore : ∀ c ∈ m.store.closures, c.body.hasLoop = false) (hm : m.depth ≤ limit) :
    (∃ n ending m', ∀ k, n ≤ k → p.eval o k m = some (ending, m')) ∧
      ∀ (s : Store) v n, s.levels ≤ n → s.renderIn n [] v = s.render v := by
  refine ⟨?_, fun s v n => s.renderIn_eq_render v⟩
  have hfree : m.store.LoopFree := by
    intro c
    rw [Store.closure, Array.getD_eq_getD_getElem?]
    cases hc : m.store.closures[c]? with
    | none => rfl
    | some closure => exact hstore closure (Array.mem_of_getElem? hc)
  obtain ⟨n, hn⟩ := Task.halts (t := .stmts p none) hlimit (Nat.add_sub_cancel' hm) hp ⟨rfl, hfree⟩
  have hends (k : Nat) (hk : n ≤ k) : p.eval o k m = p.eval o n m := by
    rw [eval, eval, Stmt.evalAll_mono hk hn]
  obtain ⟨⟨ending, m'⟩, hr⟩ : ∃ r, p.eval o n m = some r := by
    rw [eval]
    cases hr : Stmt.evalAll o n p none m with
    | done v m' => exact ⟨_, rfl⟩
    | signal s m' => exact ⟨_, rfl⟩
    | outOfFuel => exact absurd hr hn
  exact ⟨n, ending, m', fun k hk => (hends k hk).trans hr⟩

/-- The program `f()` ends where `f` is a function that calls itself through an array,
`fn() { [f][0]() }`. -/
theorem halts_of_limit_calling_itself :
    let f : Expr := .ident "f" .nowhere
    let itself : Expr := .index (.array [f] .nowhere) (.int 0 .nowhere) .nowhere
    let c : Closure := ⟨[], ⟨[.expr (.call itself [] .nowhere) .nowhere], .nowhere⟩, 0⟩
    let frame : Frame := { bindings := ⟨[("f", .function 0)]⟩ }
    let m : Machine := { Machine.initial with store := { frames := #[frame], closures := #[c] } }
    (∀ c ∈ m.store.closures, c.body.hasLoop = false) ∧
      (∃ n ending m', ∀ k, n ≤ k →
        Program.eval { maxDepth := some 3 } k [.expr (.call f [] .nowhere) .nowhere] m =
          some (ending, m')) ∧
      ∀ (s : Store) v n, s.levels ≤ n → s.renderIn n [] v = s.render v := by
  intro f itself c frame m
  have hstore : ∀ c ∈ m.store.closures, c.body.hasLoop = false := by
    intro c hc
    rw [List.mem_singleton.mp (Array.mem_toList_iff.mpr hc)]
    rfl
  exact ⟨hstore, halts_of_limit rfl rfl hstore (Nat.zero_le 3)⟩

end Program

end MonkeyLang
