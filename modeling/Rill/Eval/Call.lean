import Rill.Eval.Engine
import Rill.Heap.Frames

/-!
# Calls

A call of a function runs its body in a frame of its own, below the frame the function was made in.
A call of a blueprint makes an instance. A `super` call runs the parent's method in the frame of the
method that makes it, which therefore sees what the parent's method binds.
-/

set_option autoImplicit false

namespace Rill

namespace Heap

/-- The constructor that the frame of an instance holds, if it holds one. -/
def constructor? (heap : Heap) (env : FrameId) : Option Closure :=
  match heap.getLocal? env "constructor" with
  | some (.closure id) => heap.closures[id]?
  | _ => none

/-- The method a `super` call from a frame runs, the name it goes by, and the frame it runs in. -/
def superMethod (heap : Heap) (name : Option String) (env : FrameId) :
    Except SuperProblem (FrameId × String × Method) :=
  match heap.methodFrame? env with
  | none => .error .outsideMethod
  | some (frame, running) =>
      let name := name.getD running.name
      match heap.blueprints[running.owner]?.bind Blueprint.parent with
      | none => .error (.noParent (heap.blueprintName running.owner))
      | some parent =>
          match heap.blueprints[parent]?.bind (·.methods.get? name) with
          | none => .error (.noMethod (heap.blueprintName parent) name)
          | some method => .ok (frame, name, method)

end Heap

namespace Store

def defineMethods (env : FrameId) : List (String × Method) → Store Unit
  | [] => pure ()
  | (name, method) :: rest => do
      define env name (← newClosure ⟨method.fn, env, some ⟨method.owner, method.fn.label⟩⟩)
      defineMethods env rest

end Store

namespace Exec

def asMethod {α : Type} (env : FrameId) (method : MethodRef) (x : Exec α) : Exec α := do
  let before ← read fun state => state.heap.frames[env]?.bind Frame.method
  Store.setMethod env (some method)
  let result ← attempt x
  Store.setMethod env before
  settle result

end Exec

namespace Engine

variable (engine : Engine)

/-- Bind parameters in order. A missing argument is the value of the parameter's default, which
sees the parameters before it, or nil. Further arguments are dropped. -/
def bindParams (env : FrameId) : List Binding → List Value → Exec Unit
  | [], _ => pure ()
  | param :: params, arg :: args => do
      Store.define env param.name arg
      bindParams env params args
  | param :: params, [] => do
      Store.define env param.name (← engine.evalOption param.value env)
      bindParams env params []

def runBody (body : Body) (env : FrameId) : Exec Value :=
  match body with
  | .value expr => engine.eval expr env
  | .block block => return (← engine.execAll env block.stmts .nil).value

/-- Run a function in a frame as a call from a position. -/
def invoke (fn : Function) (env : FrameId) (args : List Value) (pos : Position) : Exec Value :=
  Exec.locate pos (Exec.called fn.label pos (Exec.traced (do
    engine.bindParams env fn.params args
    engine.runBody fn.body env)))

def callClosure (closure : Closure) (args : List Value) (pos : Position) : Exec Value := do
  let frame ← Store.child closure.env
  Store.setMethod frame closure.method
  engine.invoke closure.fn frame args pos

/-- Define the fields of an instance in its frame, in order; each default sees the fields before
it. -/
def defineFields (env : FrameId) : List (String × Option Expr) → Exec Unit
  | [] => pure ()
  | (name, value) :: rest => do
      Store.define env name (← engine.evalOption value env)
      defineFields env rest

def instantiate (id : BlueprintId) (args : List Value) (pos : Position) : Exec Value := do
  match ← Exec.read (·.heap.blueprints[id]?) with
  | none => return .nil
  | some blueprint =>
      let frame ← Store.child blueprint.env
      engine.defineFields frame blueprint.fields.entries
      Store.defineMethods frame blueprint.methods.entries
      let object ← Store.newObject ⟨id, frame⟩
      Store.define frame "self" object
      Store.define frame "this" object
      match ← Exec.read (·.heap.constructor? frame) with
      | some constructor =>
          let _ ← engine.callClosure constructor args pos
          return object
      | none => return object

def callSuper (name : Option String) (args : List Value) (env : FrameId) (pos : Position) :
    Exec Value := do
  match ← Exec.read (·.heap.superMethod name env) with
  | .error problem => Exec.locate pos (Exec.raise (.badSuper problem))
  | .ok (frame, name, method) =>
      Exec.asMethod frame ⟨method.owner, name⟩ (engine.invoke method.fn frame args pos)

end Engine

end Rill
