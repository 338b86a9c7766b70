import Rill.Heap.Frames

/-!
# States and executions

The state of a run is its heap, its limiter, what it has imported and what it has printed. An
execution takes a state and ends in one of three ways: with a result, with a fault, or because the
bound on its depth ran out. The first two leave a state behind.
-/

set_option autoImplicit false

namespace Rill

/-- What a run has printed. A silent one keeps nothing. -/
structure Output where
  text : String
  silent : Bool

namespace Output

def write (output : Output) (text : String) : Output :=
  if output.silent then output else { output with text := output.text ++ text }

def clear (output : Output) : Output := { output with text := "" }

end Output

/-- The state of a run. `loading` holds the keys of the modules whose bodies are running, the
innermost first, and `modules` the frames of those that have run. -/
structure State where
  heap : Heap
  limiter : Limiter
  loading : List String
  modules : Fields FrameId
  imported : List String
  output : Output

inductive Outcome (α : Type) where
  | done (value : α) (state : State)
  | fault (fault : Fault) (state : State)
  | spent

def Exec (α : Type) : Type := State → Outcome α

namespace Exec

variable {α β : Type}

@[inline] protected def pure (a : α) : Exec α := fun state => .done a state

/-- One execution after another; a fault of the first is the fault of both. -/
@[inline] protected def bind (x : Exec α) (f : α → Exec β) : Exec β := fun state =>
  match x state with
  | .done a next => f a next
  | .fault fault next => .fault fault next
  | .spent => .spent

@[always_inline] instance : Monad Exec where
  pure := Exec.pure
  bind := Exec.bind

def spent : Exec α := fun _ => .spent

def throw (fault : Fault) : Exec α := fun state => .fault fault state

def raise (cause : Cause) : Exec α := throw (.of cause)

def locate (pos : Position) (x : Exec α) : Exec α := fun state =>
  match x state with
  | .fault fault next => .fault (fault.locate pos) next
  | outcome => outcome

def traced (x : Exec α) : Exec α := fun state =>
  match x state with
  | .fault fault next => .fault (fault.trace next.limiter.calls) next
  | outcome => outcome

def attempt (x : Exec α) : Exec (Except Fault α) := fun state =>
  match x state with
  | .done a next => .done (.ok a) next
  | .fault fault next => .done (.error fault) next
  | .spent => .spent

def settle : Except Fault α → Exec α
  | .ok a => pure a
  | .error fault => throw fault

def read (f : State → α) : Exec α := fun state => .done (f state) state

/-- An operation on the heap. The heap is handed over to it and put back afterwards. -/
def store (x : Store α) : Exec α := fun state =>
  let heap := state.heap
  let rest := { state with heap := .empty }
  match x heap with
  | (.ok a, next) => .done a { rest with heap := next }
  | (.error cause, next) => .fault (.of cause) { rest with heap := next }

instance : MonadLift Store Exec where
  monadLift := store

def changeLimiter (f : Limiter → Limiter) : Exec Unit := fun state =>
  .done () { state with limiter := f state.limiter }

def print (text : String) : Exec Unit := fun state =>
  .done () { state with output := state.output.write text }

def tick (kind : BreachKind) (pos : Position) : Exec Unit := fun state =>
  match state.limiter.tick kind pos with
  | .ok () limiter => .done () { state with limiter }
  | .error breach limiter => .fault (.ofBreach breach limiter.calls) { state with limiter }

/-- Run something as a call: ask the limiter for it, and tell it when the call has ended in
whatever way. -/
def called (name : String) (pos : Position) (x : Exec α) : Exec α := fun state =>
  match state.limiter.enter name pos with
  | .error breach limiter => .fault (.ofBreach breach limiter.calls) { state with limiter }
  | .ok () limiter =>
      match x { state with limiter } with
      | .done a next => .done a { next with limiter := next.limiter.leave }
      | .fault fault next => .fault fault { next with limiter := next.limiter.leave }
      | .spent => .spent

def loading (key : String) (x : Exec α) : Exec α := fun state =>
  match x { state with loading := key :: state.loading } with
  | .done a next => .done a { next with loading := next.loading.tail }
  | .fault fault next => .fault fault { next with loading := next.loading.tail }
  | .spent => .spent

def keepModule (key : String) (env : FrameId) : Exec Unit := fun state =>
  .done () { state with
    imported := if state.imported.contains key then state.imported else key :: state.imported
    modules := state.modules.insert key env }

end Exec

end Rill
