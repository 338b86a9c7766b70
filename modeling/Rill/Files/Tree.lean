import Rill.Files

/-!
# File trees

A file system that is held as a table from places to what stands there. A place is an absolute path
in normal form. A path is followed from the root or from the working directory, one segment after
another, and everything on the way must be a folder.
-/

set_option autoImplicit false

namespace Rill

inductive FileEntry where
  | folder
  | file (content : ByteArray)

/-- The entries of a file system and the place of the working directory. -/
structure FileTree where
  entries : Fields FileEntry
  home : String

namespace FileTree

def place (segments : List String) : String := Path.ofSegments true segments.reverse

/-- What stands at the place of some segments. The root is always a folder. -/
def entry? (tree : FileTree) (segments : List String) : Option FileEntry :=
  if segments.isEmpty then some .folder else tree.entries.get? (place segments)

def longestName : Nat := 255

def follow (tree : FileTree) : (here segments : List String) → Except FileError (List String)
  | here, [] =>
      match tree.entry? here with
      | some _ => .ok here
      | none => .error .notFound
  | here, segment :: rest =>
      match tree.entry? here with
      | none => .error .notFound
      | some (.file _) => .error .notFolder
      | some .folder =>
          if Path.stays segment then tree.follow here rest
          else if segment = ".." then tree.follow here.tail rest
          else if longestName < segment.utf8ByteSize then .error .tooLong
          else tree.follow (segment :: here) rest

def locate (tree : FileTree) (path : String) : Except FileError String :=
  if path = "" then .error .notFound
  else if path.toList.contains '\x00' then .error .endingCharacter
  else
    let start := if Path.isAbsolute path then [] else (Path.steps tree.home).reverse
    match tree.follow start (Path.segments path) with
    | .ok here => .ok (place here)
    | .error error => .error error

def text (tree : FileTree) (place : String) : Except FileError String :=
  match tree.entry? (Path.steps place).reverse with
  | none => .error .notFound
  | some .folder => .error .isFolder
  | some (.file content) =>
      match String.fromUTF8? content with
      | some text => .ok text
      | none => .error .notText

def files (tree : FileTree) : Files := ⟨tree.locate, tree.text⟩

/-- Put something at a place, and folders at the places on the way to it where nothing stands. The
segments are held last one first. -/
def put (tree : FileTree) (entry : FileEntry) : List String → FileTree
  | [] => tree
  | segment :: above =>
      let tree := match tree.entry? above with
        | some _ => tree
        | none => tree.put .folder above
      { tree with entries := tree.entries.insert (place (segment :: above)) entry }

/-- A tree with nothing but the working directory. -/
def new (home : String) : FileTree :=
  let tree : FileTree := ⟨.empty, Path.normalize home⟩
  tree.put .folder (Path.steps tree.home).reverse

def add (tree : FileTree) (path : String) (entry : FileEntry) : FileTree :=
  tree.put entry (Path.steps (Path.normalize (Path.join tree.home path))).reverse

end FileTree

end Rill
