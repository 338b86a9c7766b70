import Rill.Eval.Engine
import Rill.Grammar.Program

/-!
# Imports

An import runs a module in a frame of its own, below the frame that imports it, and binds what the
module has bound there, name by name or as one record. A module that has run is not run again: its
frame is kept. A module whose body is still running cannot be imported.
-/

set_option autoImplicit false

namespace Rill

namespace State

def moduleFrame? (state : State) (key : String) : Option FrameId :=
  if state.imported.contains key then state.modules.get? key else none

end State

namespace Engine

variable (engine : Engine)

/-- Run the body of a module in a new frame and keep the frame. -/
def runModule (found : Module) (env : FrameId) : Exec FrameId := do
  match Program.parse found.source found.dir with
  | .error error => Exec.raise (.badImport (.syntaxError found.key error))
  | .ok program =>
      let frame ← Store.child env
      Store.setDir frame found.dir
      let _ ← Exec.loading found.key (engine.execProgram frame program.body .nil)
      Exec.keepModule found.key frame
      return frame

/-- The frame of a module, which is run if it has not run yet. -/
def openModule (found : Module) (env : FrameId) : Exec FrameId := do
  let running ← Exec.read (·.loading)
  if running.contains found.key then
    Exec.raise (.badImport (.cycle (running.reverse ++ [found.key])))
  else
    match ← Exec.read (·.moduleFrame? found.key) with
    | some frame => return frame
    | none => engine.runModule found env

end Engine

namespace Store

def setAll (env : FrameId) : List (String × Value) → Store Unit
  | [] => pure ()
  | (name, value) :: rest => do
      set env name value
      setAll env rest

end Store

namespace Engine

variable (engine : Engine)

/-- Import a module into a frame, under one name when it is given one. -/
def importModule (path : String) (name : Option String) (env : FrameId) : Exec Unit := do
  match engine.loader with
  | none => Exec.raise (.badImport (.noLoader path))
  | some loader =>
      match loader (← Exec.read (·.heap.dir env)) path with
      | .error problem => Exec.raise (.badImport problem)
      | .ok found =>
          let frame ← engine.openModule found env
          let exports ← Exec.read (·.heap.bindings frame)
          match name with
          | some name =>
              let record ← Store.newRecord (.ofList exports)
              Store.set env name record
          | none => Store.setAll env exports

end Engine

end Rill
