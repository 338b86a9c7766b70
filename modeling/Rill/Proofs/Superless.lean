import Rill.Proofs.Bindings
import Rill.Proofs.Carried
import Rill.Proofs.Tame
import Rill.Proofs.Visit

/-!
# Code without super calls

A `super` call runs a parent's method in the frame of the method that makes it. No other call runs
in a frame that is already there. Code that does not mention `super` is followed here: heaps that
hold no other code (`Heap.Superless`) keep it that way, and what all their operations keep, every
job keeps that runs such code (`Isolating.ofDepth`). Statements may be restricted to some of the
frames.
-/

set_option autoImplicit false

namespace Rill

/-! ## Code -/

mutual

/-- No expression that the evaluation of a tree may come to mentions `super`, inside functions and
classes neither. -/
inductive Expr.Superless : Expr → Prop where
  | intro {expr : Expr} (own : expr.isSuper = false) (call : expr.isSuperCall = false)
      (needs : ∀ part ∈ expr.needs, part.Superless)
      (functions : ∀ fn ∈ expr.functions, fn.Superless) : expr.Superless

inductive Function.Superless : Function → Prop where
  | intro {fn : Function} (exprs : ∀ part ∈ fn.exprs, part.Superless)
      (stmts : ∀ part ∈ fn.stmts, part.Superless) : fn.Superless

inductive Stmt.Superless : Stmt → Prop where
  | intro {stmt : Stmt} (exprs : ∀ part ∈ stmt.exprs, part.Superless)
      (stmts : ∀ part ∈ stmt.stmts, part.Superless)
      (functions : ∀ fn ∈ stmt.functions, fn.Superless)
      (defaults : ∀ decl ∈ stmt.classes, ∀ value ∈ decl.defaults, value.Superless)
      (methods : ∀ decl ∈ stmt.classes, ∀ fn ∈ decl.methods, fn.Superless) : stmt.Superless

end

def Program.Superless (program : Program) : Prop := ∀ stmt ∈ program.body, stmt.Superless

def SuperlessModules (loader : Option Loader) : Prop :=
  ∀ find, loader = some find → ∀ dir path found, find dir path = .ok found →
    ∀ program, Program.parse found.source found.dir = .ok program → program.Superless

/-- What a job runs does not mention `super`, and if it is a statement that declares names it runs in
one of some frames. -/
def Job.Superless {α : Type} (scope : FrameId → Prop) : Job α → Prop
  | .eval expr _ => expr.Superless
  | .exec stmt env => stmt.Superless ∧ (stmt.declares = true → scope env)
  | .call _ _ _ => True

def Visit.Superless {α : Type} : Visit α → Prop
  | .run program => program.Superless
  | .source text => ∀ dir program, Program.parse text dir = .ok program → program.Superless
  | _ => True

/-! ## Heaps -/

/-- The functions, default values and native functions of a heap are without `super`. -/
structure Heap.Superless (heap : Heap) : Prop where
  closure : ∀ (id : Nat) (closure : Closure), heap.closures[id]? = some closure →
    closure.fn.Superless
  method : ∀ (id : Nat) (blueprint : Blueprint), heap.blueprints[id]? = some blueprint →
    ∀ entry ∈ blueprint.methods.entries, entry.2.fn.Superless
  field : ∀ (id : Nat) (blueprint : Blueprint), heap.blueprints[id]? = some blueprint →
    ∀ entry ∈ blueprint.fields.entries, ∀ expr, entry.2 = some expr → expr.Superless
  native : ∀ (id : Nat) (native : Native), heap.natives[id]? = some native →
    native.super? = none

namespace Permits

/-- Code without `super` may run, and statements in some frames. -/
def superless (scope : FrameId → Prop) : Permits :=
  ⟨Function.Superless, Expr.Superless, True, scope, scope, scope, True⟩

variable {scope : FrameId → Prop}

theorem superless_scope {env : FrameId} (held : scope env) : (superless scope).Scope env :=
  ⟨held, held⟩

theorem superless_fresh {env : FrameId} (held : scope env) : (superless scope).Fresh env :=
  ⟨superless_scope held, held⟩

/-- Statements without `super` declare only classes without. -/
theorem superless_class (scope : FrameId → Prop) {stmt : Stmt} (superless : stmt.Superless) :
    ∀ decl ∈ stmt.classes, (Permits.superless scope).Class decl := by
  cases superless with
  | intro exprs stmts functions defaults methods =>
      intro decl member
      refine ⟨fun field place expr given => ?_, methods decl member⟩
      exact defaults decl member expr (List.mem_filterMap.mpr ⟨field, place, given⟩)

theorem superless_native {native : Rill.Native}
    (parent : (superless scope).Default native.super?) : native.super? = none := by
  cases given : native.super? with
  | none => rfl
  | some expr =>
      have superless : expr.Superless := parent expr given
      cases native with
      | superCall name env pos =>
          cases given
          cases superless with
          | intro own => cases own
      | _ => cases given

end Permits

namespace Heap.Superless

variable {scope : FrameId → Prop} {heap : Heap}

theorem holds (superless : heap.Superless) : heap.Holds (.superless scope) :=
  ⟨superless.closure, superless.method, superless.field, fun _ _ _ _ => trivial⟩

theorem setMethod (superless : heap.Superless) (env : FrameId) (method : Option MethodRef) :
    (Store.setMethod env method heap).2.Superless :=
  ⟨superless.closure, superless.method, superless.field, superless.native⟩

theorem newNative {native : Native} (plain : native.super? = none) (superless : heap.Superless) :
    (Store.newNative native heap).2.Superless := by
  refine ⟨superless.closure, superless.method, superless.field, fun id found read => ?_⟩
  simp only [Store.newNative, Array.getElem?_push] at read
  split at read
  · cases Option.some.inj read
    exact plain
  · exact superless.native id found read

end Heap.Superless

/-- An ordinary operation that may put only code without `super` into a heap does. -/
theorem Store.Ordinary.superless {scope : FrameId → Prop} {α : Type} {x : Store α}
    (ordinary : Store.Ordinary (.superless scope) x) :
    ∀ heap : Heap, heap.Superless → (x heap).2.Superless := by
  induction ordinary with
  | bind first second ihFirst ihSecond =>
      intro heap before
      have between := ihFirst heap before
      exact Store.bind_leaves (P := Heap.Superless) between fun a => ihSecond a _ between
  | newNative native held parent =>
      exact fun heap before => before.newNative (Permits.superless_native parent)
  | newClosure closure held =>
      intro heap before
      have holds := (Store.Ordinary.newClosure closure held).holds heap before.holds
      exact ⟨holds.closure, holds.method, holds.field, before.native⟩
  | newBlueprint decl parent env held =>
      intro heap before
      have holds := Store.newBlueprint_holds decl parent env held heap before.holds
      exact ⟨holds.closure, holds.method, holds.field, before.native⟩
  | write op =>
      intro heap before
      rcases op.heap_eq heap with same | ⟨env, name, variable_, -, bound⟩
      · rw [same]
        exact before
      · rw [bound]
        exact ⟨before.closure, before.method, before.field, before.native⟩
  | _ => exact fun heap before => ⟨before.closure, before.method, before.field, before.native⟩

/-- A session starts without `super` unless its host brings some. -/
theorem Setup.heap_superless (setup : Setup)
    (plain : ∀ native ∈ setup.natives, native.super? = none) : setup.heap.Superless := by
  have install (natives : List Native) (plain : ∀ native ∈ natives, native.super? = none)
      (env : FrameId) (heap : Heap) (before : heap.Superless) :
      (Store.install env natives heap).2.Superless := by
    induction natives generalizing heap with
    | nil => exact before
    | cons native rest ih =>
        simp only [List.mem_cons, forall_eq_or_imp] at plain
        have made := before.newNative plain.1
        have held : (Permits.superless fun _ => True).overwrites env := trivial
        exact ih plain.2 _ ((Store.Ordinary.define held native.label _).superless _ made)
  refine install setup.natives plain _ _ ⟨?_, ?_, ?_, ?_⟩
  all_goals
    intro id cell found
    simp [Heap.empty] at found

/-! ## What executions without super calls keep -/

/-- Executions that keep a property of heaps that hold no `super`. Where the first one ends, the
second one ends in the same way. -/
abbrev SuperlessKeeps (P : Heap → Prop) : Relation :=
  Carries (fun state => state.heap.Superless ∧ P state.heap)
    fun _ next => next.heap.Superless ∧ P next.heap

/-- A property that every operation keeps, where names are bound in some frames only, whatever they
stood for. New frames are among those. -/
structure Isolating (scope : FrameId → Prop) (P : Heap → Prop) : Prop
    extends Heap.Lasting (.superless scope) P where
  fresh : ∀ heap : Heap, P heap → scope heap.frames.size

namespace Isolating

variable {scope : FrameId → Prop} {P : Heap → Prop} (isolating : Isolating scope P)
include isolating

theorem carried : Carried (.superless scope) (fun state => state.heap.Superless ∧ P state.heap)
    fun _ next => next.heap.Superless ∧ P next.heap where
  refl before := before
  trans _ second := second
  next kept := kept
  holds before := before.1.holds
  fresh before := Permits.superless_fresh (isolating.fresh _ before.2)
  store ordinary _ before :=
    ⟨ordinary.superless _ before.1, isolating.ordinary ordinary _ before.2⟩
  setMethod env method _ before :=
    ⟨before.1.setMethod env method, isolating.setMethod env method before.2⟩
  limiter _ _ before := before
  output _ _ before := before

omit isolating in
theorem loading (key : String) {x y : Exec Value} (inner : SuperlessKeeps P Value x y) :
    SuperlessKeeps P Value (Exec.loading key x) (Exec.loading key y) :=
  fun state before _ left => Carried.within before
    (fun next => { next with loading := next.loading.tail }) (Exec.loading_eq key x state)
    (Exec.loading_eq key y state) (fun _ kept => kept) inner left

theorem thorough : Thorough (.superless scope) (SuperlessKeeps P) :=
  isolating.carried.thorough fun found env body =>
    isolating.carried.catching.openModule (isolating.carried.read _)
      (fun _ => isolating.carried.read _) loading
      (fun _ _ => Carried.own fun state next before left => by cases left; exact before)
      found env body

end Isolating

/-! ## Engines -/

/-- Two engines perform the jobs that run code without `super` in related ways. -/
structure SuperlessRelated (scope : FrameId → Prop) (R : Relation) (first second : Engine) :
    Prop where
  jobs {α : Type} (job : Job α) (superless : job.Superless scope) :
    R α (first.perform job) (second.perform job)
  passes : first.passes ≤ second.passes
  loaders : first.loader = second.loader

namespace SuperlessRelated

variable {scope : FrameId → Prop} {R : Relation} {first second : Engine}
variable (related : SuperlessRelated scope R first second)
include related

theorem evals {expr : Expr} (superless : expr.Superless) : EvalRelated R first second expr :=
  fun env => related.jobs (.eval expr env) superless

theorem execs {stmt : Stmt} (superless : stmt.Superless) :
    ExecRelated (.superless scope) R first second stmt :=
  fun env held => related.jobs (.exec stmt env) ⟨superless, held⟩

theorem calls : CallRelated R first second :=
  fun callee args pos => related.jobs (.call callee args pos) trivial

end SuperlessRelated

namespace Isolating

variable {scope : FrameId → Prop} {P : Heap → Prop} (isolating : Isolating scope P)
variable {first second : Engine} (related : SuperlessRelated scope (SuperlessKeeps P) first second)
include isolating related

theorem invokes : InvokeRelated (.superless scope) (SuperlessKeeps P) first second := by
  intro fn superless env held args pos
  cases superless with
  | intro exprs stmts =>
      exact isolating.thorough.invoke fn held args pos
        (fun part member => related.evals (exprs part member))
        fun part member => related.execs (stmts part member)

theorem evalStep {expr : Expr} (superless : expr.Superless) (env : FrameId) :
    SuperlessKeeps P Value (first.evalStep expr env) (second.evalStep expr env) := by
  cases superless with
  | intro own call needs functions =>
      refine isolating.carried.catching.locate _ (isolating.carried.catching.evalForm expr env
        (fun part member => related.evals (needs part member)) functions
        (fun _ => related.calls) (fun parent => ?_) (fun parent => ?_) isolating.thorough.passes)
      · exact absurd (call.symm.trans parent) nofun
      · exact absurd (own.symm.trans parent) nofun

theorem execStep (modules : SuperlessModules first.loader) {stmt : Stmt}
    (superless : stmt.Superless) {env : FrameId}
    (held : stmt.declares = true → scope env) :
    SuperlessKeeps P Signal (first.execStep stmt env) (second.execStep stmt env) := by
  have classes := Permits.superless_class scope superless
  have imports := isolating.thorough.importRelated related.loaders
    fun find given dir path found resolved program parsed part member =>
      related.execs (modules find given dir path found resolved program parsed part member)
  cases superless with
  | intro exprs stmts functions defaults methods =>
      have evals (part : Expr) (member : part ∈ stmt.exprs) := related.evals (exprs part member)
      have execs (part : Stmt) (member : part ∈ stmt.stmts) := related.execs (stmts part member)
      exact isolating.carried.catching.locate _ (isolating.carried.catching.execForm stmt held
        trivial evals execs functions classes
        (isolating.thorough.loopRelated related.passes stmt env evals execs) imports)

theorem callNative {native : Native} (plain : native.super? = none) (args : List Value) :
    SuperlessKeeps P Value (first.callNative native args) (second.callNative native args) := by
  refine isolating.carried.catching.callNative native args trivial related.calls ?_ fun fn _ =>
    isolating.carried.act trivial related.calls (fn.body args)
  rintro name env pos rfl
  cases plain

theorem callStep (callee : Value) (args : List Value) (pos : Position) :
    SuperlessKeeps P Value (first.callValue callee args pos)
      (second.callValue callee args pos) := by
  cases callee with
  | native id =>
      refine Carried.lookUp (·.heap.natives[id]?) fun state before => ?_
      cases found : state.heap.natives[id]? with
      | none => exact isolating.carried.catching.pure _
      | some native =>
          have plain := before.1.native id native found
          exact isolating.carried.catching.locate pos (isolating.carried.called native.label pos
            (isolating.callNative related plain args))
  | _ =>
      exact isolating.carried.catching.callValue isolating.carried.methods (isolating.invokes related)
        (fun expr superless => related.evals superless) _ args pos fun id native same => by
          cases same

theorem step (modules : SuperlessModules first.loader) {α : Type} (job : Job α)
    (superless : job.Superless scope) :
    SuperlessKeeps P α (first.step job) (second.step job) := by
  cases job with
  | eval expr env => exact isolating.evalStep related superless env
  | exec stmt env => exact isolating.execStep related modules superless.1 superless.2
  | call callee args pos => exact isolating.callStep related callee args pos

theorem visit (held : scope globals) {α : Type} (visit : Visit α) (superless : visit.Superless) :
    SuperlessKeeps P α (first.visit visit) (second.visit visit) := by
  have run (program : Program) (superless : program.Superless) :=
    isolating.carried.catching.runProgram (isolating.carried.changeLimiter _) program held held fun part member =>
      related.execs (superless part member)
  cases visit with
  | run program => exact run program superless
  | source text =>
      refine isolating.carried.catching.lookUp (fun heap => heap.dir globals) fun heap _ => ?_
      cases parsed : Program.parse text (heap.dir globals) with
      | error error => exact isolating.carried.catching.pure _
      | ok program =>
          exact isolating.carried.bind (run program (superless _ program parsed)) fun value =>
            isolating.carried.catching.pure (Except.ok value)
  | main => exact isolating.carried.catching.runMain related.calls
  | callGlobal name args pos =>
      exact isolating.carried.catching.lookUp (fun heap => (heap.get? globals name).getD .nil)
        fun heap _ => related.calls _ args pos
  | callValue callee args pos => exact related.calls callee args pos

omit related in
/-- What operations keep, every job keeps that runs code without `super`. -/
theorem ofDepth {loader : Option Loader} (modules : SuperlessModules loader) (depth : Nat) :
    SuperlessRelated scope (SuperlessKeeps P) (Engine.ofDepth loader depth)
      (Engine.ofDepth loader depth) := by
  induction depth with
  | zero => exact ⟨fun _ _ _ _ _ left => (by cases left), Nat.le_refl _, rfl⟩
  | succ depth ih =>
      refine ⟨fun job superless => ?_, Nat.le_refl _, rfl⟩
      rw [Engine.perform_succ]
      have modules : SuperlessModules (Engine.ofDepth loader depth).loader := by
        rw [Engine.ofDepth_loader]
        exact modules
      exact isolating.step ih modules job superless

end Isolating

end Rill
