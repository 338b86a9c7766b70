import Rill.Proofs.Depth
import Rill.Session

/-!
# Ways into the evaluator

`Request` lists what evaluation asks of itself: values of expressions, effects of statements,
calls, calls of parents' methods, and imports. `Visit` lists what a host asks: to run a program or
a text, to call `main`, and to call a global or any other value. A relation that passes through
all of evaluation relates what two engines do on each of these ways.
-/

set_option autoImplicit false

namespace Rill

inductive Request : Type → Type where
  | eval (expr : Expr) (env : FrameId) : Request Value
  | exec (stmt : Stmt) (env : FrameId) : Request Signal
  | call (callee : Value) (args : List Value) (pos : Position) : Request Value
  | callSuper (name : Option String) (args : List Value) (env : FrameId) (pos : Position) :
      Request Value
  | importModule (path : String) (name : Option String) (env : FrameId) : Request Unit

inductive Visit : Type → Type where
  | run (program : Program) : Visit Value
  | source (text : String) : Visit (Except ParseError Value)
  | main : Visit (Option Value)
  | callGlobal (name : String) (args : List Value) (pos : Position) : Visit Value
  | callValue (callee : Value) (args : List Value) (pos : Position) : Visit Value

namespace Engine

variable (engine : Engine)

def fulfil {α : Type} : Request α → Exec α
  | .eval expr env => engine.eval expr env
  | .exec stmt env => engine.exec stmt env
  | .call callee args pos => engine.call callee args pos
  | .callSuper name args env pos => engine.callSuper name args env pos
  | .importModule path name env => engine.importModule path name env

def visit {α : Type} : Visit α → Exec α
  | .run program => engine.runProgram program
  | .source text => engine.runSource text
  | .main => engine.runMain
  | .callGlobal name args pos => engine.callGlobal name args pos
  | .callValue callee args pos => engine.call callee args pos

end Engine

def Setup.plain (limits : Limits) : Setup := ⟨limits, false, false, ".", Setup.builtins, .ticking⟩

def Engine.runWhole (engine : Engine) (program : Program) : Exec (Value × Option Value) := do
  let value ← engine.runProgram program
  let result ← engine.runMain
  return (value, result)

/-- What a host may do by itself between two visits. -/
inductive HostMove : State → State → Prop where
  | heap (state : State) (heap : Heap) : HostMove state { state with heap }
  | output (state : State) (output : Output) : HostMove state { state with output }
  | change (state : State) (change : Limiter.Change) :
      HostMove state { state with limiter := change.apply state.limiter }

/-- The states a host finds between its visits. -/
inductive Session (loader : Option Loader) : State → Prop where
  | start (setup : Setup) : Session loader setup.start
  | visited {state next : State} {α : Type} (visit : Visit α) (depth : Nat)
      (before : Session loader state)
      (left : ((Engine.ofDepth loader depth).visit visit state).state? = some next) :
      Session loader next
  | between {state next : State} (before : Session loader state) (move : HostMove state next) :
      Session loader next

/-! ## Related ways -/

namespace Uniform

variable {permits : Permits} {R S : Relation} {first second : Engine}

theorem answer (uniform : Uniform permits R S) (related : EnginesRelated S first second)
    (supers : SuperRelated R first second) {α : Type} (request : Request α) :
    R α (first.fulfil request) (second.fulfil request) := by
  cases request with
  | eval expr env => exact uniform.weaken _ _ _ (related.jobs (.eval expr env))
  | exec stmt env => exact uniform.weaken _ _ _ (related.jobs (.exec stmt env))
  | call callee args pos => exact uniform.weaken _ _ _ (related.jobs (.call callee args pos))
  | callSuper name args env pos =>
      exact supers name args env pos
  | importModule path name env =>
      exact uniform.importRelated related path name env (uniform.anyCode.frame env)

theorem fulfil {hosts : Prop} (uniform : Uniform (.anyCode hosts) R S)
    (related : EnginesRelated S first second) {α : Type} (request : Request α) :
    R α (first.fulfil request) (second.fulfil request) :=
  uniform.answer related (uniform.supers related fun _ => trivial) request

end Uniform

def ResetRelated (R : Relation) : Prop :=
  R Unit (Exec.changeLimiter Limiter.reset) (Exec.changeLimiter Limiter.reset)

namespace Compatible

variable {permits : Permits} {R : Relation} {first second : Engine}
variable (compatible : Compatible permits R)
include compatible

theorem runProgram (reset : ResetRelated R) (program : Program) (held : permits.frame globals)
    (moves : permits.moves globals)
    (execs : ∀ part ∈ program.body, ExecRelated permits R first second part) :
    R Value (first.runProgram program) (second.runProgram program) :=
  compatible.bind reset fun _ =>
    compatible.bind (compatible.store (.setDir globals program.baseDir moves)) fun _ =>
      compatible.execProgram held program.body .nil execs

theorem runMain (calls : CallRelated R first second) :
    R (Option Value) first.runMain second.runMain := by
  refine compatible.lookUp (fun heap => heap.get? globals "main") fun heap _ => ?_
  cases heap.get? globals "main" with
  | none => exact compatible.pure none
  | some main =>
      dsimp only
      split
      · exact compatible.bind (calls main [] .unknown) fun value => compatible.pure (some value)
      · exact compatible.pure none

theorem runWhole (reset : ResetRelated R) (program : Program) (held : permits.frame globals)
    (moves : permits.moves globals)
    (execs : ∀ part ∈ program.body, ExecRelated permits R first second part)
    (calls : CallRelated R first second) :
    R (Value × Option Value) (first.runWhole program) (second.runWhole program) :=
  compatible.bind (compatible.runProgram reset program held moves execs) fun value =>
    compatible.bind (compatible.runMain calls) fun result => compatible.pure (value, result)

theorem visit (reset : ResetRelated R) (held : permits.frame globals)
    (moves : permits.moves globals) (related : EnginesRelated R first second) {α : Type}
    (visit : Visit α) : R α (first.visit visit) (second.visit visit) := by
  have execs : ∀ stmt, ExecRelated permits R first second stmt :=
    fun stmt env _ => related.jobs (.exec stmt env)
  cases visit with
  | run program => exact compatible.runProgram reset program held moves fun part _ => execs part
  | source text =>
      refine compatible.lookUp (fun heap => heap.dir globals) fun heap _ => ?_
      cases Program.parse text (heap.dir globals) with
      | error error => exact compatible.pure _
      | ok program =>
          have run := compatible.runProgram reset program held moves fun part _ => execs part
          exact compatible.bind run fun value => compatible.pure (Except.ok value)
  | main => exact compatible.runMain fun callee args pos => related.jobs (.call callee args pos)
  | callGlobal name args pos =>
      refine compatible.lookUp (fun heap => (heap.get? globals name).getD .nil) fun heap _ => ?_
      exact related.jobs (.call _ args pos)
  | callValue callee args pos => exact related.jobs (.call callee args pos)

end Compatible

/-! ## The start of a session -/

theorem Store.install_holds {permits : Permits} {env : FrameId} (frame : permits.overwrites env)
    {natives : List Native} (held : ∀ native ∈ natives, permits.Native native) {heap : Heap}
    (before : heap.Holds permits) : (Store.install env natives heap).2.Holds permits := by
  induction natives generalizing heap with
  | nil => exact before
  | cons native rest ih =>
      simp only [List.mem_cons, forall_eq_or_imp] at held
      have made := Store.newNative_holds held.1 heap before
      exact ih held.2 ((Store.Ordinary.define frame native.label _).holds _ made)

theorem Heap.empty_holds (permits : Permits) : Heap.empty.Holds permits := by
  refine ⟨?_, ?_, ?_, ?_⟩
  all_goals
    intro id cell found
    simp [Heap.empty] at found

theorem Setup.heap_holds {permits : Permits} (setup : Setup) (frame : permits.overwrites globals)
    (held : ∀ native ∈ setup.natives, permits.Native native) : setup.heap.Holds permits := by
  have empty := Heap.empty_holds permits
  have root : (Store.newRoot setup.dir Heap.empty).2.Holds permits :=
    ⟨empty.closure, empty.method, empty.field, empty.native⟩
  exact Store.install_holds frame held root

end Rill
