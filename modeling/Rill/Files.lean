import Rill.Module

/-!
# Files

What a program can see of a file system: where a path leads and what text is there. Modules are
found among files by the paths that lead to them, so that two spellings of one place name one
module.
-/

set_option autoImplicit false

namespace Rill

inductive FileError where
  | notFound
  | denied
  /-- What the file holds is not a text. -/
  | notText
  | other (reason : String)
deriving DecidableEq

namespace FileError

/-- The reason for refusing to go on from something that is not a folder. -/
def notFolder : FileError := .other "Not a directory (os error 20)"

def isFolder : FileError := .other "Is a directory (os error 21)"

/-- The reason for refusing a name or a path that is longer than it can be. -/
def tooLong : FileError := .other "File name too long (os error 36)"

/-- The reason for refusing a path with a character that ends texts. -/
def endingCharacter : FileError := .other "file name contained an unexpected NUL byte"

end FileError

/-- A view of a file system: the place a path leads to, and the text of a place. A path is followed
name by name, so it may have any length as long as no name is too long. -/
structure Files where
  locate : (path : String) → Except FileError String
  text : (place : String) → Except FileError String

namespace Files

def sourceExtension : String := "rl"

/-- The greatest number of bytes in a path that is handed over whole. -/
def longestPath : Nat := 4095

/-- The place a path leads to when it is handed over whole, as to open a file or to ask whether there
is one. Its length is looked at before anything on the way. -/
def reach (files : Files) (path : String) : Except FileError String :=
  if path.toList.contains '\x00' then .error .endingCharacter
  else if longestPath < path.utf8ByteSize then .error .tooLong
  else files.locate path

def read (files : Files) (path : String) : Except FileError String :=
  match files.reach path with
  | .error error => .error error
  | .ok place => files.text place

/-- The path to try for an import: the one that is written, or, when that has no extension and
reaches nothing, the one with the ending of source files. -/
def candidate (files : Files) (dir path : String) : String :=
  let written := Path.join dir path
  match Path.extension? written, files.reach written with
  | none, .error _ => Path.addExtension written sourceExtension
  | _, _ => written

end Files

namespace FileError

def importProblem (path : String) : FileError → ImportProblem
  | notFound => .notFound path
  | denied => .denied path
  | notText => .notText path
  | other reason => .unreadable path reason

def message (path : String) : FileError → String
  | notFound => "cannot find file '" ++ path ++ "'"
  | denied => "permission denied reading '" ++ path ++ "'"
  | notText => "'" ++ path ++ "' contains invalid UTF-8 data"
  | other reason => "error reading '" ++ path ++ "': " ++ reason

end FileError

namespace Files

/-- The module that a path names, seen from a directory. Its key is the place it was found at. -/
def loader (files : Files) : Loader := fun dir path =>
  match files.locate (files.candidate dir path) with
  | .error error => .error (error.importProblem path)
  | .ok place =>
      match files.text place with
      | .error error => .error (error.importProblem path)
      | .ok source => .ok ⟨place, Path.directory place, source⟩

end Files

end Rill
