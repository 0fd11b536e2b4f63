import MonkeyLang.Script
import MonkeyLang.Proofs.Evaluation.FrameGrowth
import MonkeyLang.Proofs.Evaluation.Parts

/-!
# The two modes of assignment

An assignment to a name writes to the frame at hand or to the frame that says what the name means. The
two are the same where the frame at hand binds the name itself. That is so at the top level, which has
no frames around it, and in the body of a function whose assignments keep to its own parameters: the
frame of the body binds them from the start, and frames never lose a binding (`FramesGrow`).

## Main definitions

* `Program.assignsOwn` : whether the function literals of a program assign to their own parameters
  only.

## Main statements

* `Script.run_assign_mode` : the mode of assignment does not matter to such a program.
-/

namespace MonkeyLang

/-! ### Assignments of a program -/

mutual

/-- Whether the assignments to names in the expression are to names of `own`, if it gives any, and
those in a function literal to parameters of the innermost one around them. -/
def Expr.assignsOnly (own : Option (List String)) : Expr → Bool
  | .int _ _ | .bool _ _ | .str _ _ | .ident _ _ => true
  | .array items _ => Expr.assignsOnlyAll own items
  | .hash entries _ => Expr.assignsOnlyEntries own entries
  | .unary _ operand _ => operand.assignsOnly own
  | .binary _ left right _ => left.assignsOnly own && right.assignsOnly own
  | .cond test thenBlock elseBlock _ =>
    test.assignsOnly own && thenBlock.assignsOnly own && Block.assignsOnlyPart own elseBlock
  | .function params body _ _ => body.assignsOnly (some params)
  | .call callee args _ => callee.assignsOnly own && Expr.assignsOnlyAll own args
  | .index base place _ => base.assignsOnly own && place.assignsOnly own
  | .assign (.ident x _) value _ => own.all (·.contains x) && value.assignsOnly own
  | .assign target value _ => target.assignsOnly own && value.assignsOnly own

/-- Whether the expressions assign to names of `own` only. -/
def Expr.assignsOnlyAll (own : Option (List String)) : List Expr → Bool
  | [] => true
  | e :: es => e.assignsOnly own && Expr.assignsOnlyAll own es

/-- Whether the entries of a hash literal assign to names of `own` only. -/
def Expr.assignsOnlyEntries (own : Option (List String)) : List (Expr × Expr) → Bool
  | [] => true
  | (key, value) :: es =>
    key.assignsOnly own && value.assignsOnly own && Expr.assignsOnlyEntries own es

/-- Whether a part of a loop's header assigns to names of `own` only. -/
def Expr.assignsOnlyPart (own : Option (List String)) : Option Expr → Bool
  | none => true
  | some e => e.assignsOnly own

/-- Whether the statement assigns to names of `own` only. -/
def Stmt.assignsOnly (own : Option (List String)) : Stmt → Bool
  | .letBind _ value _ | .ret value _ | .expr value _ => value.assignsOnly own
  | .forLoop init test after body _ =>
    Stmt.assignsOnlyPart own init && Expr.assignsOnlyPart own test &&
      Expr.assignsOnlyPart own after && body.assignsOnly own

/-- Whether the first part of a loop's header assigns to names of `own` only. -/
def Stmt.assignsOnlyPart (own : Option (List String)) : Option Stmt → Bool
  | none => true
  | some s => s.assignsOnly own

/-- Whether the statements assign to names of `own` only. -/
def Stmt.assignsOnlyAll (own : Option (List String)) : List Stmt → Bool
  | [] => true
  | s :: ss => s.assignsOnly own && Stmt.assignsOnlyAll own ss

/-- Whether the block assigns to names of `own` only. -/
def Block.assignsOnly (own : Option (List String)) : Block → Bool
  | ⟨statements, _⟩ => Stmt.assignsOnlyAll own statements

/-- Whether the second block of an `if` expression assigns to names of `own` only. -/
def Block.assignsOnlyPart (own : Option (List String)) : Option Block → Bool
  | none => true
  | some b => b.assignsOnly own

end

/-- Whether every assignment to a name inside a function literal of the program is to a parameter of
the innermost literal around it. Outside of function literals all names may be assigned to. -/
def Program.assignsOwn (p : Program) : Bool := Stmt.assignsOnlyAll none p

variable {own : Option (List String)}

/-- Blocks assign what their statements assign. -/
theorem Block.assignsOnly_eq (b : Block) :
    b.assignsOnly own = Stmt.assignsOnlyAll own b.statements := by
  cases b
  rfl

/-- The task assigns to names of `own` only. A call is no part of the program where it is made. -/
def Task.AssignsOnly (own : Option (List String)) : Task → Prop
  | .expr e => e.assignsOnly own
  | .exprs es => Expr.assignsOnlyAll own es
  | .entries es _ => Expr.assignsOnlyEntries own es
  | .part e => Expr.assignsOnlyPart own e
  | .assign target value => (Expr.assign target value .nowhere).assignsOnly own
  | .stmt s => s.assignsOnly own
  | .stmts ss _ => Stmt.assignsOnlyAll own ss
  | .loop test after body _ =>
    Expr.assignsOnlyPart own test ∧ Expr.assignsOnlyPart own after ∧ body.assignsOnly own
  | .apply _ _ => True

/-- A part of a task assigns no more than the task. -/
theorem Task.PartOf.assignsOnly {p t : Task} (h : p.PartOf t) (ht : t.AssignsOnly own) :
    p.AssignsOnly own := by
  cases h with
  | @assignment target => cases target <;> exact ht
  | @assigned target => cases target <;> simp_all [AssignsOnly, Expr.assignsOnly]
  | otherEntries =>
    simp only [AssignsOnly, Expr.assignsOnlyEntries, Bool.and_eq_true] at ht
    exact ht.2
  | _ =>
    simp_all [AssignsOnly, Expr.assignsOnly, Expr.assignsOnlyAll, Expr.assignsOnlyEntries,
      Expr.assignsOnlyPart, Stmt.assignsOnly, Stmt.assignsOnlyPart, Stmt.assignsOnlyAll,
      Block.assignsOnlyPart, Block.assignsOnly_eq]

/-! ### The invariant -/

/-- An activation of the program text at the top level or of the body of a function, begun in the
machine `start`. A name that may be assigned to in it, if it means anything, is bound by its own
frame. -/
structure Activation where
  /-- The parameters; none at the top level. -/
  own : Option (List String)
  /-- The machine in which the body was entered or the program begun. -/
  start : Machine
  frame_lt : start.frame < start.store.frames.size
  outermost : own = none → (start.store.frame start.frame).outer = []
  params : ∀ ps, own = some ps → ∀ x ∈ ps, start.Binds x

/-- The bodies of the functions in the store assign to parameters only. -/
def Store.AssignsOwn (s : Store) : Prop :=
  ∀ c, (s.closure c).body.assignsOnly (some (s.closure c).params)

namespace Activation

/-- The machine can be one of the activation: its frames have grown since the start. -/
def Holds (a : Activation) (m : Machine) : Prop := FramesGrow a.start m ∧ m.store.AssignsOwn

/-- The activation of a body that is entered. -/
def ofEnter (m : Machine) (c : Closure) (args : List Value)
    (arity : c.params.length = args.length) : Activation where
  own := some c.params
  start := m.enter c args
  frame_lt := by simp [Machine.enter, Store.addFrame]
  outermost := nofun
  params ps h x hx := Machine.binds_enter arity (Option.some.inj h ▸ hx)

/-- Tasks are evaluated in an activation of the program text that they are from. -/
theorem invariant (o : Options) :
    Invariant o (fun a : Activation => Task.AssignsOnly a.own) Activation.Holds where
  within _ _ _ h := Task.plan_within fun _ hp => hp.assignsOnly h
  stable a := {
    bind := fun m x v h => ⟨h.1.trans ((kept_framesGrow o).bind m x v), h.2⟩
    assign := fun m x v h => by
      refine ⟨h.1.trans ((kept_framesGrow o).assign m x v), ?_⟩
      unfold Machine.assign
      split
      · exact h.2
      · split <;> exact h.2
    put := fun m slot p h => by
      refine ⟨h.1.trans ((kept_framesGrow o).put m slot p), ?_⟩
      cases slot <;> exact h.2
    newArray := fun m items h => ⟨h.1.trans ((kept_framesGrow o).newArray m items), h.2⟩
    newHash := fun m d h => ⟨h.1.trans ((kept_framesGrow o).newHash m d), h.2⟩
    print := fun m line h => ⟨h.1.trans ((kept_framesGrow o).print m line), h.2⟩ }
  function a params body bare span m ht h := by
    refine ⟨h.1.trans ((kept_framesGrow o).newFunction m _),
      Store.forall_closure_addClosure (P := fun c => c.body.assignsOnly (some c.params)) h.2 ?_⟩
    rwa [Task.AssignsOnly, Expr.assignsOnly] at ht
  call a c args m h henter := by
    obtain ⟨id, rfl⟩ := henter.defined
    refine ⟨ofEnter m _ args henter.arity, ?_, ⟨.of_eq rfl rfl, h.2⟩, fun m' h' => ?_⟩
    · have hbody := h.2 id
      rwa [Block.assignsOnly_eq] at hbody
    · exact ⟨h.1.trans h'.1.of_enter, h'.2⟩

variable {a : Activation} {m : Machine} {x : String}

/-- A name that may be assigned to and that means something is bound by the frame at hand. -/
theorem Holds.binds (h : a.Holds m) (hx : a.own.all (·.contains x))
    (hlookup : (m.lookup x).isSome) : m.Binds x := by
  cases hown : a.own with
  | none =>
    refine Machine.binds_of_lookup ?_ hlookup
    rw [h.1.frame, h.1.outer _ a.frame_lt, a.outermost hown]
  | some ps =>
    rw [hown] at hx
    exact h.1.binds a.frame_lt (a.params ps hown x (by simpa using hx))

end Activation

/-! ### The two modes -/

/-- In an activation both modes plan the same. -/
theorem Activation.Holds.agree {a : Activation} {m : Machine} {t : Task} (h : a.Holds m)
    (ht : t.AssignsOnly a.own) (o : Options) (n : Nat) (mode₁ mode₂ : AssignMode) :
    Plan.Agree (fun t m => t.eval { o with assign := mode₁ } n m)
      (t.plan { o with assign := mode₁ } m) (t.plan { o with assign := mode₂ } m) := by
  cases t with
  | assign target value =>
    cases target with
    | ident x =>
      simp only [Task.AssignsOnly, Expr.assignsOnly, Bool.and_eq_true] at ht
      rw [Task.plan, Task.plan, Expr.assignPlan, Expr.assignPlan]
      split
      next hlookup =>
        refine .after fun v m' ends => ?_
        -- The name is still bound when the value is there.
        have hgrow : (Task.eval _ n (.expr value) m).Leaves (FramesGrow m) :=
          (kept_framesGrow { o with assign := mode₁ }).invariant.leaves n trivial (.of_eq rfl rfl)
        rw [ends] at hgrow
        have hbinds := FramesGrow.binds hgrow (h.1.frame ▸ Nat.lt_of_lt_of_le a.frame_lt h.1.size)
          (h.binds ht.1 hlookup)
        rw [hbinds.assign_eq, hbinds.assign_eq]
        exact .refl _
      next => exact .refl _
    | _ => exact .refl _
  | _ => exact .of_eq (Task.plan_congr _ m (by simp) fun _ _ _ _ => rfl)

namespace Program

/-- The activation of a program before anything has been evaluated. -/
def topLevel : Activation where
  own := none
  start := .initial
  frame_lt := Nat.zero_lt_one
  outermost _ := rfl
  params := nofun

/-- The mode of assignment does not matter to a program whose functions assign to their own parameters
only. -/
theorem eval_assign_mode {p : Program} (hp : p.assignsOwn) (o : Options) (fuel : Nat)
    (mode₁ mode₂ : AssignMode) :
    eval { o with assign := mode₁ } fuel p .initial =
      eval { o with assign := mode₂ } fuel p .initial := by
  have hagree : Moment.Agree { o with assign := mode₁ } { o with assign := mode₂ }
      ⟨fuel, .stmts p none, .initial⟩ := by
    intro k n t m hr
    have hstart : topLevel.Holds .initial := ⟨.of_eq rfl rfl, fun _ => rfl⟩
    have hfits : Task.AssignsOnly topLevel.own (.stmts p none) := hp
    obtain ⟨a, ht, hm⟩ := (Activation.invariant _).reaches hfits hstart hr
    exact hm.agree ht o n mode₁ mode₂
  exact hagree.eval_eq

end Program

namespace Script

/-- A source whose functions assign to their own parameters only runs in the same way in both modes of
assignment. It ends in the one if it ends in the other, after as many steps, with the same status and
the same output of all kinds. -/
theorem run_assign_mode {source : String} (h : (Program.ofSource source).program.assignsOwn)
    (o : Options) (fuel : Nat) (path : String) :
    run { o with assign := .localFrame } fuel path source =
      run { o with assign := .enclosing } fuel path source := by
  rw [run, run, Program.eval_assign_mode h o fuel .localFrame .enclosing]

/-- A function that assigns to its parameter, where the same name means something else outside. -/
def counting : String := "let n = 3; let next = fn(n) { n = n + 1; n }; n = next(next(n)); print(n)"

/-- Both modes print the same number. -/
theorem run_counting_assign_mode :
    (Program.ofSource counting).program.assignsOwn ∧
    run {} 30 "count.monkey" counting = some ⟨.completed, "5\n", "", ""⟩ ∧
    run { ({} : Options) with assign := .localFrame } 30 "count.monkey" counting =
      run { ({} : Options) with assign := .enclosing } 30 "count.monkey" counting :=
  ⟨by decide +kernel, by decide +kernel, run_assign_mode (by decide +kernel) {} 30 "count.monkey"⟩

-- A function that assigns to a variable that it has captured tells the modes apart.
example :
    (run { assign := .localFrame } 30 "" "let n = 0; fn() { n = 1 }(); print(n)").map (·.printed) =
      some "0\n" ∧
    (run { assign := .enclosing } 30 "" "let n = 0; fn() { n = 1 }(); print(n)").map (·.printed) =
      some "1\n" := by
  decide +kernel

end Script

end MonkeyLang
