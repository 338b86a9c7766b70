import Rill.Eval.Statement

/-!
# Runs

An engine of depth zero gives up on every job. An engine of greater depth performs a job by means of
the engine whose depth is one less. A job that one engine finishes is finished in the same way by
every deeper one, so a depth that no program reaches stands for all of them.
-/

set_option autoImplicit false

namespace Rill

namespace Engine

def step (engine : Engine) {α : Type} : Job α → Exec α
  | .eval expr env => engine.evalStep expr env
  | .exec stmt env => engine.execStep stmt env
  | .call callee args pos => engine.callValue callee args pos

/-- The value of a suspended computation, found on a stack of its own. -/
def onOwnStack {α : Type} (f : Unit → α) : α := (Task.spawn f .dedicated).get

def sharedLevels : Nat := 8192

/-- The engine of a depth. Deep nesting is spread over several stacks. -/
def ofDepth (loader : Option Loader) : Nat → Engine
  | 0 => ⟨fun _ => Exec.spent, 0, loader⟩
  | depth + 1 =>
      { perform := fun job state =>
          if depth % sharedLevels = 0 then
            onOwnStack fun _ => (ofDepth loader depth).step job state
          else (ofDepth loader depth).step job state
        passes := depth + 1
        loader }

def ampleDepth : Nat := Nat.pow 2 40 - 1

def ample (loader : Option Loader) : Engine := ofDepth loader ampleDepth

end Engine

end Rill
