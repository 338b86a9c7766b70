import Rill.Files
import Rill.Session

/-!
# Execution of a source file

A source text is run as if it had been read from a path: imports start from the directory of that
path, and `main` is called after the text has run. What went wrong is told in lines for a terminal.
-/

set_option autoImplicit false

namespace Rill

/-- Why a source text was not run to its end. -/
inductive RunError where
  | syntaxError (error : ParseError)
  | fault (fault : Fault)
  /-- The text nests more deeply than any engine reaches. -/
  | spent

/-- What a run leaves behind: the result of `main`, if there is one, and the last state known. -/
structure Execution where
  result : Except RunError (Option Value)
  state : State

namespace Execution

def setup (limits : Limits) (path : String) : Setup :=
  { limits, cancelled := false, silent := false, dir := Path.parent path,
    natives := Setup.builtins }

def program (engine : Engine) (source : String) : Exec (Except ParseError (Option Value)) := do
  match ← engine.runSource source with
  | .error error => return .error error
  | .ok _ => return .ok (← engine.runMain)

/-- Run a source text as if it had been read from a path. -/
def run (files : Files) (limits : Limits) (path source : String) : Execution :=
  let start := (setup limits path).start
  match program (.ample (some files.loader)) source start with
  | .done (.ok value) state => ⟨.ok value, state⟩
  | .done (.error error) state => ⟨.error (.syntaxError error), state⟩
  | .fault fault state => ⟨.error (.fault fault), state⟩
  | .spent => ⟨.error .spent, start⟩

end Execution

namespace ParseError

def line (error : ParseError) : String := error.pos.render ++ ": error: " ++ error.message ++ "\n"

end ParseError

namespace Fault

def hints (fault : Fault) : List String :=
  match fault.cause with
  | .limit breach => ["  hint: " ++ breach.kind.hint ++ "\n"]
  | _ => []

/-- A fault in lines for a terminal: where and what, a hint, and the active calls with the innermost
first. -/
def lines (fault : Fault) (path : String) : String :=
  let place := match fault.position with
    | some pos => path ++ ":" ++ pos.render
    | none => path
  String.join (["error: " ++ place ++ ": " ++ fault.message ++ "\n"] ++ fault.hints
    ++ fault.backtrace.map fun name => "  at " ++ name ++ "\n")

end Fault

namespace RunError

def lines (path : String) : RunError → String
  | syntaxError error => error.line
  | fault inner => inner.lines path
  | spent => "error: " ++ path ++ ": nested too deeply\n"

end RunError

end Rill
