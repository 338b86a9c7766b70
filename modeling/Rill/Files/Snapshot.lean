import Rill.Files
import Rill.Token.Lexer

/-!
# Snapshots of a file system

What has been seen of a file system so far, and which paths a run may still ask for. A program may
start any import it contains from any directory that one of its modules lies in, so a snapshot that
wants no further path answers like the file system itself.
-/

set_option autoImplicit false

namespace Rill

namespace Token

def importPaths : List Token → List String
  | first :: second :: rest =>
      match first.kind, second.kind with
      | .keyword .import_, .text => second.text :: importPaths rest
      | _, _ => importPaths (second :: rest)
  | _ => []

def holes (tokens : List Token) : List String :=
  tokens.flatMap fun token =>
    match token.kind with
    | .template pieces => pieces.filterMap fun piece =>
        match piece with
        | .hole source _ => some source
        | .text _ => none
    | _ => []

/-- The paths a source text may import, holes of templates included down to some depth. -/
def importsWithin : Nat → String → List String
  | 0, _ => []
  | depth + 1, source =>
      match tokenize source with
      | .error _ => []
      | .ok tokens => importPaths tokens ++ (holes tokens).flatMap (importsWithin depth)

/-- The paths a source text may import. A hole is shorter than the text around it. -/
def imports (source : String) : List String := importsWithin (source.length + 1) source

end Token

/-- What has been seen: where paths lead, what stands at places, the directories that imports may
start from, and the paths that may be imported. -/
structure Snapshot where
  places : Fields (Except FileError String)
  texts : Fields (Except FileError String)
  dirs : List String
  imports : List String

namespace Snapshot

def empty : Snapshot := ⟨.empty, .empty, [], []⟩

/-- The snapshot as a view of a file system; what was not seen is not there. -/
def files (seen : Snapshot) : Files :=
  { locate := fun path => (seen.places.get? path).getD (.error .notFound)
    text := fun place => (seen.texts.get? place).getD (.error .notFound) }

def addPlace (seen : Snapshot) (path : String) (place : Except FileError String) : Snapshot :=
  { seen with places := seen.places.insert path place }

/-- Note what stands at a place, with the directory that its imports start from. -/
def addText (seen : Snapshot) (place dir : String) (text : Except FileError String) : Snapshot :=
  let seen := { seen with texts := seen.texts.insert place text, dirs := seen.dirs.insert dir }
  match text with
  | .ok source => { seen with imports := seen.imports ++ Token.imports source }
  | .error _ => seen

def candidates (dir path : String) : List String :=
  let written := Path.join dir path
  [written, Path.addExtension written Files.sourceExtension]

/-- The paths that may be asked for and have not been looked at. -/
def wanted (seen : Snapshot) : List String :=
  (seen.dirs.flatMap fun dir => seen.imports.flatMap (candidates dir)).eraseDups.filter
    (!seen.places.contains ·)

end Snapshot

end Rill
