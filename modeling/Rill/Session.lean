import Rill.Eval.Run

/-!
# Sessions

A session is a state that lives through several runs. Its first frame holds the globals. A host may
read and write them, run texts one after another, and call what they have declared.
-/

set_option autoImplicit false

namespace Rill

def globals : FrameId := 0

structure Setup where
  limits : Limits
  cancelled : Bool
  silent : Bool
  /-- The directory that imports start from. -/
  dir : String
  /-- Functions that are there from the start. -/
  natives : List Native
  clock : Clock := .ticking

namespace Store

def install (env : FrameId) : List Native → Store Unit
  | [] => pure ()
  | native :: rest => do
      define env native.label (← newNative native)
      install env rest

end Store

namespace Setup

def builtins : List Native := Builtin.all.map .builtin

def hostFunctions : List Native := HostFunction.all.map .host

def heap (setup : Setup) : Heap :=
  let start : Store Unit := do
    let env ← Store.newRoot setup.dir
    Store.install env setup.natives
  (start .empty).2

def start (setup : Setup) : State :=
  { heap := setup.heap
    limiter := .new setup.limits setup.cancelled setup.clock
    loading := []
    modules := .empty
    imported := []
    output := ⟨"", setup.silent⟩ }

end Setup

namespace Engine

variable (engine : Engine)

def runProgram (program : Program) : Exec Value := do
  Exec.changeLimiter Limiter.reset
  Store.setDir globals program.baseDir
  engine.execProgram globals program.body .nil

/-- Read a text and run it; a text that cannot be read changes nothing. -/
def runSource (source : String) : Exec (Except ParseError Value) := do
  match Program.parse source (← Exec.read (·.heap.dir globals)) with
  | .error error => return .error error
  | .ok program => return .ok (← engine.runProgram program)

def runMain : Exec (Option Value) := do
  match ← Exec.read (·.heap.get? globals "main") with
  | some main =>
      if main.isCallable then return some (← engine.call main [] .unknown) else return none
  | none => return none

/-- Call a global; one that is not declared counts as nil. -/
def callGlobal (name : String) (args : List Value) (pos : Position) : Exec Value := do
  let callee ← Exec.read fun state => (state.heap.get? globals name).getD .nil
  engine.call callee args pos

end Engine

end Rill
