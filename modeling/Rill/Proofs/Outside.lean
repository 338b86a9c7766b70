import Rill.Proofs.Barring
import Rill.Proofs.Bindings
import Rill.Proofs.Carried

/-!
# Code that runs outside a frame

Statements declare names in the frames that they run in, and calls bind parameters in frames that
are new, apart from `super` calls, which may run in an old one. So unless a `super` call runs in a
frame, code that does not begin there leaves alone what every operation outside that frame leaves
alone (`Heap.Lasting.shunning`).
-/

set_option autoImplicit false

namespace Rill

/-- Any code may have any effect, but it declares and binds no name in one frame and gives it to no
instance and no directory. -/
def Permits.outside (home : FrameId) : Permits :=
  { anyCode True with
    frame := fun env => env ≠ home
    overwrites := fun env => env ≠ home
    moves := fun env => env ≠ home }

theorem Heap.holds_outside (home : FrameId) (heap : Heap) : heap.Holds (.outside home) :=
  ⟨fun _ _ _ => trivial, fun _ _ _ _ _ => trivial, fun _ _ _ _ _ _ _ => trivial,
    fun _ _ _ _ => trivial⟩

def Job.Outside {α : Type} (home : FrameId) : Job α → Prop
  | .exec stmt env => stmt.declares = true → env ≠ home
  | _ => True

/-- Two engines perform the jobs that declare no name in a frame in related ways. -/
structure OutsideRelated (home : FrameId) (R : Relation) (first second : Engine) : Prop where
  jobs {α : Type} (job : Job α) (outside : job.Outside home) :
    R α (first.perform job) (second.perform job)
  passes : first.passes ≤ second.passes
  loaders : first.loader = second.loader

namespace OutsideRelated

variable {home : FrameId} {R : Relation} {first second : Engine}
variable (related : OutsideRelated home R first second)
include related

theorem evals (expr : Expr) : EvalRelated R first second expr :=
  fun env => related.jobs (.eval expr env) trivial

theorem execs (stmt : Stmt) : ExecRelated (.outside home) R first second stmt :=
  fun env held => related.jobs (.exec stmt env) held

theorem calls : CallRelated R first second :=
  fun callee args pos => related.jobs (.call callee args pos) trivial

end OutsideRelated

abbrev KeepsHeap (P : Heap → Prop) : Relation :=
  Carries (fun state => P state.heap) fun _ next => P next.heap

namespace Heap.Lasting

variable {home : FrameId} {P : Heap → Prop} (lasting : Lasting (.outside home) P)
variable (old : ∀ heap : Heap, P heap → home < heap.frames.size)
include lasting old

theorem carried : Carried (.outside home) (fun state => P state.heap) fun _ next => P next.heap where
  refl before := before
  trans _ second := second
  next kept := kept
  holds _ := Heap.holds_outside home _
  fresh before :=
    have new := Nat.ne_of_gt (old _ before)
    ⟨⟨new, new⟩, new⟩
  store ordinary _ before := lasting.ordinary ordinary _ before
  setMethod env method _ before := lasting.setMethod env method before
  limiter _ _ before := before
  output _ _ before := before

omit lasting old in
theorem loading (key : String) {x y : Exec Value} (inner : KeepsHeap P Value x y) :
    KeepsHeap P Value (Exec.loading key x) (Exec.loading key y) :=
  fun state before _ left => Carried.within before
    (fun next => { next with loading := next.loading.tail }) (Exec.loading_eq key x state)
    (Exec.loading_eq key y state) (fun _ kept => kept) inner left

theorem thorough : Thorough (.outside home) (KeepsHeap P) :=
  (lasting.carried old).thorough fun found env body =>
    (lasting.carried old).catching.openModule ((lasting.carried old).read _)
      (fun _ => (lasting.carried old).read _) loading
      (fun _ _ => Carried.own fun state next before left => by cases left; exact before)
      found env body

variable {first second : Engine} (related : OutsideRelated home (KeepsHeap P) first second)
include related

theorem invokes : InvokeRelated (.outside home) (KeepsHeap P) first second :=
  fun fn _ _ held args pos => (lasting.thorough old).invoke fn held args pos
    (fun part _ => related.evals part) fun part _ => related.execs part

theorem evalStep {expr : Expr} (plain : expr.isSuperCall = false) (env : FrameId) :
    KeepsHeap P Value (first.evalStep expr env) (second.evalStep expr env) :=
  (lasting.carried old).catching.locate _ ((lasting.carried old).catching.evalForm expr env
    (fun part _ => related.evals part) (fun _ _ => trivial) (fun _ => related.calls)
    (fun super => absurd (plain.symm.trans super) nofun) (fun _ => trivial)
    (lasting.thorough old).passes)

theorem execStep (stmt : Stmt) {env : FrameId} (held : stmt.declares = true → env ≠ home) :
    KeepsHeap P Signal (first.execStep stmt env) (second.execStep stmt env) :=
  (lasting.carried old).catching.locate _ ((lasting.carried old).catching.execForm stmt held trivial
    (fun part _ => related.evals part) (fun part _ => related.execs part) (fun _ _ => trivial)
    (fun _ _ => ⟨fun _ _ _ _ => trivial, fun _ _ => trivial⟩)
    ((lasting.thorough old).loopRelated related.passes stmt env
      (fun part _ => related.evals part) fun part _ => related.execs part)
    ((lasting.thorough old).importRelated related.loaders
      fun _ _ _ _ _ _ _ _ part _ => related.execs part))

end Heap.Lasting

/-- The evaluator without the `super` calls that run in one frame. -/
def Engine.shunning (home : FrameId) : Option Loader → Nat → Engine := barred (Heap.enters home)

namespace Heap.Lasting

variable {home : FrameId} {P : Heap → Prop} (lasting : Lasting (.outside home) P)
variable (old : ∀ heap : Heap, P heap → home < heap.frames.size)
variable {engine ordinary : Engine} (related : OutsideRelated home (KeepsHeap P) engine engine)
include lasting old related

theorem barring (target : Option String) (args : List Value) (env : FrameId) (pos : Position) :
    KeepsHeap P Value (Engine.barring (Heap.enters home) engine ordinary target args env pos)
      (Engine.barring (Heap.enters home) engine ordinary target args env pos) := by
  refine Carried.own fun state next before left => ?_
  rw [Engine.barring_eq] at left
  split at left
  · cases left
  · next other =>
      rw [Engine.callSuper_eq] at left
      cases resolved : state.heap.superMethod target env with
      | error problem =>
          rw [resolved] at left
          cases left
          exact before
      | ok found =>
          obtain ⟨frame, called, method⟩ := found
          have elsewhere : frame ≠ home := fun here =>
            other (Heap.enters_iff.mpr ⟨_, resolved, here⟩)
          rw [resolved] at left
          have inner := lasting.invokes old related method.fn trivial frame ⟨elsewhere, elsewhere⟩
            args pos
          exact ((lasting.carried old).methods.during frame elsewhere ⟨method.owner, called⟩ inner
            state before next left).2

theorem stepVia {α : Type} (job : Job α) (outside : job.Outside home) :
    KeepsHeap P α (engine.stepVia (Engine.barring (Heap.enters home) engine ordinary) job)
      (engine.stepVia (Engine.barring (Heap.enters home) engine ordinary) job) := by
  have catching := (lasting.carried old).catching
  have ways (name : Option String) (args : List Value) (env : FrameId) (pos : Position) :
      KeepsHeap P Value (Engine.barring (Heap.enters home) engine ordinary name args env pos)
        (Engine.barring (Heap.enters home) engine ordinary name args env pos) :=
    lasting.barring old related name args env pos
  cases job with
  | eval expr env =>
      cases parent : expr.isSuperCall with
      | false =>
          rw [engine.stepVia_eval _ parent]
          exact lasting.evalStep old related parent env
      | true =>
          obtain ⟨pos, at_, name, args, rfl⟩ := Expr.isSuperCall_iff.mp parent
          have values := catching.evalArgs args env fun part _ => related.evals part
          exact catching.locate pos (catching.bind values fun values => ways name values env pos)
  | exec stmt env => exact lasting.execStep old related stmt outside
  | call callee args pos =>
      by_cases named : ∃ id, callee = .native id
      · obtain ⟨id, rfl⟩ := named
        refine catching.lookUp (fun heap => heap.natives[id]?) fun heap _ => ?_
        cases heap.natives[id]? with
        | none => exact catching.pure _
        | some native =>
            have called {x : Exec Value} (label : String) (inner : KeepsHeap P Value x x) :=
              catching.locate pos ((lasting.carried old).called label pos inner)
            have others (plain : native.super? = none) :=
              called native.label (catching.callNative native args trivial related.calls
                (by rintro name env pos rfl; cases plain)
                fun fn _ => (lasting.carried old).act trivial related.calls (fn.body args))
            cases native with
            | superCall name env at_ => exact called "super" (ways name args env at_)
            | _ => exact others rfl
      · rw [engine.stepVia_call _ (not_exists.mp named)]
        exact catching.callValue (lasting.carried old).methods (lasting.invokes old related)
          (fun expr _ => related.evals expr) callee args pos
          fun id native same => absurd ⟨id, same⟩ named

omit related in
/-- What operations outside a frame keep, every job keeps that declares no name there, as long as no
`super` call runs there. -/
theorem shunning (loader : Option Loader) (depth : Nat) :
    OutsideRelated home (KeepsHeap P) (Engine.shunning home loader depth)
      (Engine.shunning home loader depth) := by
  induction depth with
  | zero => exact ⟨fun _ _ _ _ _ left => (by cases left), Nat.le_refl _, rfl⟩
  | succ depth ih =>
      exact ⟨fun job outside => lasting.stepVia old ih job outside, Nat.le_refl _, rfl⟩

end Heap.Lasting

end Rill
