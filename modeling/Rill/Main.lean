import Rill.Command
import Rill.Files.Snapshot

/-!
# The program

Reads what it needs from the disk, performs the command, and writes what the command leaves behind.
-/

set_option autoImplicit false

namespace Rill

namespace Main

/-- A reason with its number, which may come with its sign turned. -/
def numbered (details : String) (code : UInt32) : FileError :=
  let number := if code.toNat < Nat.pow 2 31 then code.toNat else Nat.pow 2 32 - code.toNat
  .other (details.capitalize ++ " (os error " ++ number.repr ++ ")")

def refusal : IO.Error → FileError
  | .noFileOrDirectory _ _ _ => .notFound
  | .permissionDenied _ _ _ => .denied
  | .inappropriateType _ code details => numbered details code
  | error => .other (toString error)

def text (place : String) : IO (Except FileError String) := do
  try
    match String.fromUTF8? (← IO.FS.readBinFile place) with
    | some text => return .ok text
    | none => return .error .notText
  catch error => return .error (refusal error)

/-- Where a path leads on the disk. For a path that leads nowhere, reading tells why. -/
def locate (path : String) : IO (Except FileError String) := do
  try return .ok (toString (← IO.FS.realPath path))
  catch _ =>
    match ← text path with
    | .error error => return .error error
    | .ok _ => return .error .notFound

def look (seen : Snapshot) (path : String) : IO Snapshot := do
  let place ← locate path
  let seen := seen.addPlace path place
  match place with
  | .error _ => return seen
  | .ok place => return seen.addText place (Path.directory place) (← text place)

partial def lookAll (seen : Snapshot) : IO Snapshot := do
  match seen.wanted with
  | [] => return seen
  | paths => lookAll (← paths.foldlM look seen)

def survey : Command → IO Snapshot
  | .run path _ => do
      let seen ← look .empty path
      lookAll { seen with dirs := seen.dirs.insert (Path.parent path) }
  | .lex path | .parse path => look .empty path
  | _ => return .empty

def run (args : List String) : IO UInt32 := do
  let command := Command.ofArguments args
  let seen ← survey command
  let report := command.perform seen.files
  IO.print report.stdout
  IO.eprint report.stderr
  return report.status.toUInt32

end Main

end Rill

def main (args : List String) : IO UInt32 := Rill.Main.run args
