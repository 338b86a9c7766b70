import Rill.Fault
import Rill.Fields
import Rill.Path

/-!
# Modules

A loader finds the module that an import path names, seen from a directory. Modules that are held
in a table are found by their paths in normal form.
-/

set_option autoImplicit false

namespace Rill

/-- A module: what tells it apart from others, the directory its own imports start from, and its
text. -/
structure Module where
  key : String
  dir : String
  source : String

/-- A way to find the module that a path names, seen from a directory. -/
abbrev Loader := (dir path : String) → Except ImportProblem Module

structure ModuleTable where
  sources : Fields String

namespace ModuleTable

/-- A table of paths and texts; a later text replaces an earlier one of the same path. -/
def ofList (entries : List (String × String)) : ModuleTable :=
  ⟨.ofList (entries.map fun (path, source) => (Path.normalize path, source))⟩

def key (dir path : String) : String :=
  if Path.isAbsolute path then Path.normalize path else Path.normalize (dir ++ "/" ++ path)

def resolve (table : ModuleTable) : Loader := fun dir path =>
  let key := key dir path
  match table.sources.get? key with
  | some source => .ok ⟨key, Path.directory key, source⟩
  | none => .error (.notFound path)

end ModuleTable

end Rill
