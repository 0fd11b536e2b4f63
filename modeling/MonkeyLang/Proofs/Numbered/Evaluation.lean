import MonkeyLang.Proofs.Evaluation.Plan
import MonkeyLang.Proofs.Numbered.Machine

/-!
# The evaluation of numbered programs

A numbered program is evaluated with the table that has numbered it, or with one that has grown from
it. The table is asked for the texts of string literals, of names that mean nothing, and of the
parameters of new functions; everything else goes by numbers. A built-in function is known by the
number that its name has in every table.

The evaluation is given by plans, as `Task.plan` gives it for programs with names. The plans of a
program and of the numbered program go together, step by step, as long as the table holds all names
that come up, and so do the evaluations.

## Main definitions

* `Numbered.Task.plan`, `Numbered.eval` : the evaluation of numbered programs.
* `Plan.Numbers` : a plan and the plan of the numbered program.

## Main statements

* `Task.eval_numbers` : the evaluation of a numbered task.
-/

namespace MonkeyLang

variable {α β : Type}

namespace Numbered

/-- The built-in function whose name has the number `x`. -/
def builtin? (x : Nat) : Option Builtin :=
  Builtin.all.find? fun b => NameTable.initial.number b.name == x

/-- What can be evaluated, with the type of its result. -/
inductive Task : Type → Type where
  /-- An expression. -/
  | expr (e : Expr) : Task Value
  /-- Expressions, from left to right. -/
  | exprs (es : List Expr) : Task (List Value)
  /-- Entries of a hash literal, which are added to the dictionary `d`. -/
  | entries (es : List (Expr × Expr)) (d : Dict Key Pair) : Task (Dict Key Pair)
  /-- A part of a loop's header, if it is there. -/
  | part (e : Option Expr) : Task (Option Value)
  /-- An assignment. -/
  | assign (target value : Expr) : Task Value
  /-- A statement. -/
  | stmt (s : Stmt) : Task (Option Value)
  /-- Statements, one after the other. -/
  | stmts (ss : List Stmt) (last : Option Value) : Task (Option Value)
  /-- The rounds of a loop that are still to come. -/
  | loop (test after : Option Expr) (body : List Stmt) (last : Option Value) : Task (Option Value)
  /-- The call of `f` with arguments. -/
  | apply (f : Value) (args : List Value) : Task Value

/-- What is to be done, up to a result of type `α`. -/
inductive Plan (α : Type) : Type 1 where
  /-- Ends with an outcome. -/
  | finish (outcome : Outcome α)
  /-- Evaluates a task and goes on with its result. -/
  | after {β : Type} (task : Task β) (m : Machine) (next : β → Machine → Plan α)
  /-- Evaluates the body of the function `c`, leaves it and goes on with the value of the call. -/
  | body (c : ClosureId) (args : List Value) (m : Machine) (next : Value → Machine → Plan α)

/-- The outcome of a call, given that of the body. -/
def Outcome.leaveTo (caller : FrameId) : Outcome (Option Value) → Outcome Value
  | .done v m => .done (v.getD .null) (m.leave caller)
  | .signal (.returned v) m => .done v (m.leave caller)
  | .signal s m => .signal s (m.leave caller)
  | .outOfFuel => .outOfFuel

/-- Carries out a plan, where `rec` evaluates tasks. -/
def Plan.run (rec : {β : Type} → Task β → Machine → Outcome β) : Plan α → Outcome α
  | .finish r => r
  | .after task m next => (rec task m).andThen fun a m => (next a m).run rec
  | .body c args m next =>
    ((rec (.stmts (m.code c).body none) (m.enter c args)).leaveTo m.base.frame).andThen
      fun v m => (next v m).run rec

section

variable (o : Options) (t : NameTable)

/-- The plan of an expression. -/
def Expr.plan : Expr → Machine → Plan Value
  | .int value, m => .finish (.done (.int value) m)
  | .bool value, m => .finish (.done (.bool value) m)
  | .str text, m => .finish (.done (.str (t.lookup text)) m)
  | .ident x, m =>
    match m.lookup x with
    | some v => .finish (.done v m)
    | none =>
      match builtin? x with
      | some b => .finish (.done (.builtin b) m)
      | none => .finish (.fail (.identifierNotFound (t.lookup x)) m)
  | .array items, m =>
    .after (.exprs items) m fun vs m => .finish (m.onBase (m.base.newArray vs.toArray))
  | .hash entries, m =>
    .after (.entries entries .empty) m fun d m => .finish (m.onBase (m.base.newHash d))
  | .unary op e, m =>
    .after (.expr e) m fun v m => .finish (m.onBase (.ofExcept (v.unary op) m.base))
  | .binary op left right, m =>
    .after (.expr left) m fun v m =>
    .after (.expr right) m fun w m => .finish (m.onBase (.ofExcept (Value.binary op v w) m.base))
  | .cond test thenBlock elseBlock, m =>
    .after (.expr test) m fun v m =>
      if v.isTruthy then
        .after (.stmts thenBlock none) m fun v m => .finish (.done (v.getD .null) m)
      else
        match elseBlock with
        | some b => .after (.stmts b none) m fun v m => .finish (.done (v.getD .null) m)
        | none => .finish (.done .null m)
  | .function params body, m => .finish (m.newFunction t params body)
  | .call callee args, m =>
    .after (.expr callee) m fun f m =>
    .after (.exprs args) m fun vs m =>
    .after (.apply f vs) m fun v m => .finish (.done v m)
  | .index base place, m =>
    .after (.expr base) m fun v m =>
    .after (.expr place) m fun w m =>
      .finish (m.onBase (.ofExcept (m.base.store.read v w) m.base))
  | .assign target value, m => .after (.assign target value) m fun v m => .finish (.done v m)

/-- The plan of an assignment. -/
def Expr.assignPlan : Expr → Expr → Machine → Plan Value
  | .ident x, value, m =>
    if (m.lookup x).isSome then
      .after (.expr value) m fun v m => .finish (.done .null (m.assign o.assign x v))
    else .finish (.fail (.identifierNotFound (t.lookup x)) m)
  | .index base place, value, m =>
    .after (.expr base) m fun v m =>
    .after (.expr place) m fun w m =>
      match m.base.store.locate v w with
      | .error e => .finish (.fail e m)
      | .ok slot => .after (.expr value) m fun u m => .finish (.done .null (m.put slot ⟨w, u⟩))
  | _, _, m => .finish (.fail .invalidAssignmentTarget m)

/-- The plan of a statement. -/
def Stmt.plan : Stmt → Machine → Plan (Option Value)
  | .letBind x value, m => .after (.expr value) m fun v m => .finish (.done none (m.bind x v))
  | .ret value, m => .after (.expr value) m fun v m => .finish (.signal (.returned v) m)
  | .expr value, m => .after (.expr value) m fun v m => .finish (.done (some v) m)
  | .forLoop none test after body, m =>
    .after (.loop test after body none) m fun v m => .finish (.done v m)
  | .forLoop (some init) test after body, m =>
    .after (.stmt init) m fun _ m =>
    .after (.loop test after body none) m fun v m => .finish (.done v m)

/-- The plan of a call. -/
def callPlan : Value → List Value → Machine → Plan Value
  | .function c, args, m =>
    if (m.code c).params.length ≠ args.length then
      .finish (.fail (.wrongArgumentCount args.length (m.code c).params.length) m)
    else
      match o.forbids m.base.depth with
      | some limit => .finish (.fail (.recursionLimit limit) m)
      | none => .body c args m fun v m => .finish (.done v m)
  | .builtin b, args, m => .finish (m.onBase (b.call args m.base))
  | v, _, m => .finish (.fail (.notCallable v.kind) m)

/-- The plan of a task. -/
def Task.plan : Task α → Machine → Plan α
  | .expr e, m => e.plan t m
  | .exprs [], m => .finish (.done [] m)
  | .exprs (e :: es), m =>
    .after (.expr e) m fun v m => .after (.exprs es) m fun vs m => .finish (.done (v :: vs) m)
  | .entries [] d, m => .finish (.done d m)
  | .entries ((key, value) :: es) d, m =>
    .after (.expr key) m fun v m =>
      match v.key? with
      | none => .finish (.fail (.unhashable v.kind) m)
      | some k =>
        .after (.expr value) m fun w m =>
        .after (.entries es (d.insert k ⟨v, w⟩)) m fun d m => .finish (.done d m)
  | .part none, m => .finish (.done none m)
  | .part (some e), m => .after (.expr e) m fun v m => .finish (.done (some v) m)
  | .assign target value, m => target.assignPlan o t value m
  | .stmt s, m => s.plan m
  | .stmts [] last, m => .finish (.done last m)
  | .stmts (s :: ss) _, m =>
    .after (.stmt s) m fun v m => .after (.stmts ss v) m fun v m => .finish (.done v m)
  | .loop test after body last, m =>
    .after (.part test) m fun v m =>
      if (v.map Value.isTruthy).getD true then
        .after (.stmts body none) m fun last m =>
        .after (.part after) m fun _ m =>
        .after (.loop test after body last) m fun v m => .finish (.done v m)
      else .finish (.done last m)
  | .apply f args, m => callPlan o f args m

/-- The evaluation of a task in the given number of steps. -/
def eval : Nat → {α : Type} → Task α → Machine → Outcome α
  | 0, _, _, _ => .outOfFuel
  | n + 1, _, task, m => (task.plan o t m).run fun task m => eval n task m

end

end Numbered

/-! ### Numbered tasks -/

namespace Task

/-- The task with the numbers of its texts. -/
def numbered (num : String → Nat) : (task : Task) → Numbered.Task task.Result
  | .expr e => .expr (e.numbered num)
  | .exprs es => .exprs (Expr.numberedAll num es)
  | .entries es d => .entries (Expr.numberedEntries num es) d
  | .part e => .part (Expr.numberedPart num e)
  | .assign target value => .assign (target.numbered num) (value.numbered num)
  | .stmt s => .stmt (s.numbered num)
  | .stmts ss last => .stmts (Stmt.numberedAll num ss) last
  | .loop test after body last =>
    .loop (Expr.numberedPart num test) (Expr.numberedPart num after) (body.numbered num) last
  | .apply f args => .apply f args

/-- The texts in a task. -/
def names : Task → List String
  | .expr e => e.names
  | .exprs es => Expr.namesAll es
  | .entries es _ => Expr.namesEntries es
  | .part e => Expr.namesPart e
  | .assign target value => target.names ++ value.names
  | .stmt s => s.names
  | .stmts ss _ => Stmt.namesAll ss
  | .loop test after body _ => Expr.namesPart test ++ (Expr.namesPart after ++ body.names)
  | .apply _ _ => []

end Task

/-! ### Plans that go together -/

section

variable (t : NameTable)

/-- The second outcome is the first one in the machine with numbers, and that machine holds no names
but those of the table. -/
def Outcome.Numbers (r : Outcome α) (r' : Numbered.Outcome α) : Prop :=
  r.Leaves (Machine.NamesIn t) ∧ r.numbered t.number = r'

/-- The second plan is the first one for a numbered program. -/
inductive Plan.Numbers : Plan α → Numbered.Plan α → Prop where
  /-- Both end in the same way. -/
  | finish {r : Outcome α} {r' : Numbered.Outcome α} (h : r.Numbers t r') :
    Numbers (.finish r) (.finish r')
  /-- Both begin the same task. -/
  | after {task : Task} {m : Machine} {next : task.Result → Machine → Plan α}
      {next' : task.Result → Numbered.Machine → Numbered.Plan α}
      (htask : ∀ x ∈ task.names, x ∈ t.names) (hm : m.NamesIn t)
      (h : ∀ a m, m.NamesIn t → Numbers (next a m) (next' a (m.numbered t.number))) :
    Numbers (.after task m next) (.after (task.numbered t.number) (m.numbered t.number) next')
  /-- Both enter the same function. -/
  | body {c : ClosureId} {args : List Value} {m : Machine} {next : Value → Machine → Plan α}
      {next' : Value → Numbered.Machine → Numbered.Plan α} (hm : m.NamesIn t)
      (h : ∀ v m, m.NamesIn t → Numbers (next v m) (next' v (m.numbered t.number))) :
    Numbers (.body (m.store.closure c) args m next) (.body c args (m.numbered t.number) next')

end

variable {t : NameTable}

namespace Outcome.Numbers

variable {r : Outcome α} {r' : Numbered.Outcome α}

/-- What changes neither bindings nor functions goes on in the machine without names. -/
theorem onBase {m : Machine} (hm : m.NamesIn t) (h : r.Leaves m.SameNames) :
    r.Numbers t ((m.numbered t.number).onBase (r.mapMachine Machine.nameless)) :=
  ⟨h.mono fun _ h => h.namesIn hm, (Machine.onBase_numbered h).symm⟩

theorem ofExcept {m : Machine} (hm : m.NamesIn t) (r : Except RuntimeError α) :
    (Outcome.ofExcept r m).Numbers t
      ((m.numbered t.number).onBase (.ofExcept r (m.numbered t.number).base)) := by
  have h := onBase hm (.ofExcept (r := r) (Machine.keptByBuiltins_sameNames.refl m))
  rw [mapMachine_ofExcept] at h
  exact h

theorem andThen {next : α → Machine → Outcome β} {next' : α → Numbered.Machine → Numbered.Outcome β}
    (h : r.Numbers t r')
    (hnext : ∀ a m, m.NamesIn t → (next a m).Numbers t (next' a (m.numbered t.number))) :
    (r.andThen next).Numbers t (r'.andThen next') := by
  obtain ⟨hnames, rfl⟩ := h
  cases r with
  | done a m => exact hnext a m hnames
  | signal s m => exact ⟨hnames, rfl⟩
  | outOfFuel => exact ⟨trivial, rfl⟩

theorem leaveTo {r : Outcome (Option Value)} {r' : Numbered.Outcome (Option Value)}
    (h : r.Numbers t r') (caller : FrameId) : (r.leaveTo caller).Numbers t (r'.leaveTo caller) := by
  obtain ⟨hnames, rfl⟩ := h
  cases r with
  | signal s m => cases s <;> exact ⟨hnames, rfl⟩
  | done v m => exact ⟨hnames, rfl⟩
  | outOfFuel => exact ⟨trivial, rfl⟩

end Outcome.Numbers

/-- A built-in function is known by the number of its name. -/
theorem builtin?_number (ht : NameTable.initial.Grows t) {x : String} (hx : x ∈ t.names) :
    Numbered.builtin? (t.number x) = Builtin.ofName? x := by
  have hname (b : Builtin) : b.name ∈ NameTable.initial.names := by cases b <;> decide +kernel
  have hsame (b : Builtin) : (NameTable.initial.number b.name == t.number x) = (b.name == x) := by
    rw [Bool.eq_iff_iff, beq_iff_eq, beq_iff_eq, ← ht.number _ (hname b),
      NameTable.number_inj (ht.mem _ (hname b)) hx]
  simp only [Numbered.builtin?, Builtin.ofName?, hsame]

namespace Plan.Numbers

theorem run {rec : (task : Task) → Machine → Outcome task.Result}
    {rec' : {β : Type} → Numbered.Task β → Numbered.Machine → Numbered.Outcome β}
    (hrec : ∀ task m, (∀ x ∈ task.names, x ∈ t.names) → m.NamesIn t →
      (rec task m).Numbers t (rec' (task.numbered t.number) (m.numbered t.number)))
    {p : Plan α} {p' : Numbered.Plan α} (h : p.Numbers t p') :
    (p.run rec).Numbers t (p'.run rec') := by
  induction h with
  | finish h => exact h
  | after htask hm _ ih => exact (hrec _ _ htask hm).andThen ih
  | @body c args m next next' hm _ ih =>
    have hbody := (List.forall_mem_append.1 (hm.closure c)).2
    have h := hrec (m.store.closure c).task (m.enter (m.store.closure c) args)
      (by rwa [Closure.task, Task.names, Block.namesAll_statements]) (hm.enter c args)
    rw [Closure.task, Task.numbered, Block.numberedAll_statements, ← Machine.enter_numbered hm] at h
    rw [Numbered.Plan.run, Machine.code_numbered]
    exact (h.leaveTo m.frame).andThen ih

variable (ht : NameTable.initial.Grows t) {m : Machine} (hm : m.NamesIn t)
include hm

/-- Both end at once, with the machine as it is. -/
theorem done (a : α) : Numbers t (.finish (.done a m)) (.finish (.done a (m.numbered t.number))) :=
  .finish ⟨hm, rfl⟩

theorem fail (e : RuntimeError) :
    Numbers t (.finish (.fail e m) : Plan α) (.finish (.fail e (m.numbered t.number))) :=
  .finish ⟨hm, rfl⟩

/-- Both begin the statements of a block. -/
theorem block {b : Block} {next : Option Value → Machine → Plan α}
    {next' : Option Value → Numbered.Machine → Numbered.Plan α} (hb : ∀ x ∈ b.names, x ∈ t.names)
    (h : ∀ v m, m.NamesIn t → Numbers t (next v m) (next' v (m.numbered t.number))) :
    Numbers t (.after (.stmts b.statements none) m next)
      (.after (.stmts (b.numbered t.number) none) (m.numbered t.number) next') := by
  rw [← Block.numberedAll_statements]
  rw [← Block.namesAll_statements] at hb
  exact .after hb hm h

include ht in
theorem exprPlan (e : Expr) (he : ∀ x ∈ e.names, x ∈ t.names) :
    Numbers t (e.plan m) ((e.numbered t.number).plan t (m.numbered t.number)) := by
  cases e with
  | int | bool => exact done hm _
  | str x =>
    have hx : x ∈ t.names := he x List.mem_cons_self
    rw [Expr.numbered, Numbered.Expr.plan, NameTable.lookup_number hx]
    exact done hm _
  | ident x =>
    have hx : x ∈ t.names := he x List.mem_cons_self
    rw [Expr.plan, Expr.numbered, Numbered.Expr.plan, Machine.lookup_numbered hm hx,
      builtin?_number ht hx, NameTable.lookup_number hx]
    cases m.lookup x with
    | some v => exact done hm v
    | none =>
      cases Builtin.ofName? x with
      | some b => exact done hm _
      | none => exact fail hm _
  | array items => exact .after he hm fun vs m hm => .finish (.onBase hm ⟨rfl, rfl⟩)
  | hash entries => exact .after he hm fun d m hm => .finish (.onBase hm ⟨rfl, rfl⟩)
  | unary op e => exact .after he hm fun v m hm => .finish (.ofExcept hm _)
  | binary op left right =>
    obtain ⟨hl, hr⟩ := List.forall_mem_append.1 he
    exact .after hl hm fun v m hm => .after hr hm fun w m hm => .finish (.ofExcept hm _)
  | cond test thenBlock elseBlock =>
    obtain ⟨htest, hblocks⟩ := List.forall_mem_append.1 he
    obtain ⟨hthen, helse⟩ := List.forall_mem_append.1 hblocks
    refine .after htest hm fun v m hm => ?_
    split
    · exact block hm hthen fun v m hm => done hm _
    · cases elseBlock with
      | none => exact done hm _
      | some b => exact block hm helse fun v m hm => done hm _
  | function params body =>
    obtain ⟨hp, hb⟩ := List.forall_mem_append.1 he
    exact .finish ⟨hm.newFunction hp hb, (Machine.newFunction_numbered body hp).symm⟩
  | call callee args =>
    obtain ⟨hc, ha⟩ := List.forall_mem_append.1 he
    exact .after hc hm fun f m hm => .after ha hm fun vs m hm =>
      .after (List.forall_mem_nil _) hm fun v m hm => done hm v
  | index base place =>
    obtain ⟨hb, hp⟩ := List.forall_mem_append.1 he
    refine .after hb hm fun v m hm => .after hp hm fun w m hm => .finish ?_
    rw [show (m.numbered t.number).base.store.read v w = m.store.read v w from
      m.store.looksLike_nameless.read v w]
    exact .ofExcept hm _
  | assign target value =>
    exact .after he hm fun v m hm => done hm v

theorem assignPlan (o : Options) (target value : Expr)
    (h : ∀ x ∈ target.names ++ value.names, x ∈ t.names) :
    Numbers t (Expr.assignPlan o target value m)
      ((target.numbered t.number).assignPlan o t (value.numbered t.number)
        (m.numbered t.number)) := by
  obtain ⟨htarget, hvalue⟩ := List.forall_mem_append.1 h
  cases target with
  | ident x =>
    have hx : x ∈ t.names := htarget x List.mem_cons_self
    rw [Expr.assignPlan, Expr.numbered, Numbered.Expr.assignPlan, Machine.lookup_numbered hm hx,
      NameTable.lookup_number hx]
    split
    · exact .after hvalue hm fun v m hm =>
        .finish ⟨hm.assign hx o.assign v, congrArg _ (Machine.assign_numbered hm hx ..).symm⟩
    · exact fail hm _
  | index base place =>
    obtain ⟨hbase, hplace⟩ := List.forall_mem_append.1 htarget
    refine .after hbase hm fun v m hm => .after hplace hm fun w m hm => ?_
    rw [show (m.numbered t.number).base.store.locate v w = m.store.locate v w from
      m.store.looksLike_nameless.locate v w]
    cases m.store.locate v w with
    | error e => exact fail hm e
    | ok slot =>
      refine .after hvalue hm fun u m hm => .finish ?_
      cases slot <;> exact ⟨hm, rfl⟩
  | _ => exact fail hm _

theorem stmtPlan (s : Stmt) (hs : ∀ x ∈ s.names, x ∈ t.names) :
    Numbers t (s.plan m) ((s.numbered t.number).plan (m.numbered t.number)) := by
  cases s with
  | letBind x value =>
    obtain ⟨hx, hvalue⟩ := List.forall_mem_cons.1 hs
    exact .after hvalue hm fun v m hm =>
      .finish ⟨hm.bindIn hx m.frame v, congrArg _ (Machine.bind_numbered hm hx v).symm⟩
  | ret value => exact .after hs hm fun v m hm => .finish ⟨hm, rfl⟩
  | expr value => exact .after hs hm fun v m hm => done hm _
  | forLoop init test after body =>
    obtain ⟨hinit, hloop⟩ := List.forall_mem_append.1 hs
    cases init with
    | none => exact .after hloop hm fun v m hm => done hm _
    | some init =>
      exact .after hinit hm fun _ m hm => .after hloop hm fun v m hm => done hm _

theorem callPlan (o : Options) (f : Value) (args : List Value) :
    Numbers t (f.plan o args m) (Numbered.callPlan o f args (m.numbered t.number)) := by
  cases f with
  | function c =>
    simp only [Value.plan, Numbered.callPlan, Machine.code_numbered, Closure.numbered,
      List.length_map]
    split
    · exact fail hm _
    · rw [show (m.numbered t.number).base.depth = m.depth from rfl]
      cases o.forbids m.depth with
      | some limit => exact fail hm _
      | none => exact .body hm fun v m hm => done hm v
  | builtin b =>
    have h := Outcome.Numbers.onBase hm (Machine.keptByBuiltins_sameNames.call_leaves b args m)
    rw [Machine.call_nameless] at h
    exact .finish h
  | _ => exact fail hm _

include ht in
/-- The plan of a task and that of the numbered task go together. -/
theorem plan (o : Options) (task : Task) (h : ∀ x ∈ task.names, x ∈ t.names) :
    Numbers t (task.plan o m) ((task.numbered t.number).plan o t (m.numbered t.number)) := by
  cases task with
  | expr e => exact exprPlan ht hm e h
  | exprs es =>
    cases es with
    | nil => exact done hm _
    | cons e es =>
      obtain ⟨he, hes⟩ := List.forall_mem_append.1 h
      exact .after he hm fun v m hm => .after hes hm fun vs m hm => done hm _
  | entries es d =>
    cases es with
    | nil => exact done hm d
    | cons entry es =>
      obtain ⟨hkey, hrest⟩ := List.forall_mem_append.1 h
      obtain ⟨hvalue, hes⟩ := List.forall_mem_append.1 hrest
      refine .after hkey hm fun v m hm => ?_
      cases v.key? with
      | none => exact fail hm _
      | some k => exact .after hvalue hm fun w m hm => .after hes hm fun d m hm => done hm d
  | part e =>
    cases e with
    | none => exact done hm _
    | some e => exact .after h hm fun v m hm => done hm _
  | assign target value => exact assignPlan hm o target value h
  | stmt s => exact stmtPlan hm s h
  | stmts ss last =>
    cases ss with
    | nil => exact done hm last
    | cons s ss =>
      obtain ⟨hs, hss⟩ := List.forall_mem_append.1 h
      exact .after hs hm fun v m hm => .after hss hm fun v m hm => done hm v
  | loop test after body last =>
    obtain ⟨htest, hrest⟩ := List.forall_mem_append.1 h
    obtain ⟨hafter, hbody⟩ := List.forall_mem_append.1 hrest
    refine .after htest hm fun v m hm => ?_
    split
    · exact block hm hbody fun last m hm => .after hafter hm fun _ m hm =>
        .after h hm fun v m hm => done hm v
    · exact done hm last
  | apply f args => exact callPlan hm o f args

end Plan.Numbers

/-- The evaluation of a numbered task is that of the task, with numbers for names. -/
theorem Task.eval_numbers (ht : NameTable.initial.Grows t) (o : Options) (n : Nat) (task : Task)
    {m : Machine} (htask : ∀ x ∈ task.names, x ∈ t.names) (hm : m.NamesIn t) :
    (task.eval o n m).Numbers t
      (Numbered.eval o t n (task.numbered t.number) (m.numbered t.number)) := by
  induction n generalizing task m with
  | zero =>
    rw [eval_zero]
    exact ⟨trivial, rfl⟩
  | succ n ih =>
    rw [eval_succ]
    exact (Plan.Numbers.plan ht hm o task htask).run fun task m htask hm => ih task htask hm

end MonkeyLang
