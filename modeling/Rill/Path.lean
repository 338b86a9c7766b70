/-!
# Paths

A path is a text of segments with slashes between them. Empty segments and single dots stand for the
place that has been reached, two dots for the place around it.
-/

set_option autoImplicit false

namespace Rill

namespace Path

def cut : List Char → List (List Char)
  | [] => [[]]
  | c :: rest =>
      if c = '/' then [] :: cut rest
      else
        match cut rest with
        | [] => [[c]]
        | first :: others => (c :: first) :: others

def segments (path : String) : List String := (cut path.toList).map String.ofList

def isAbsolute (path : String) : Bool := path.toList.head? == some '/'

def stays (segment : String) : Bool := segment = "" || segment = "."

/-- Take one more segment into a path whose segments are held last one first. Two dots take the last
segment away, stay when there is none to take, and vanish at the root. -/
def take (absolute : Bool) (done : List String) (segment : String) : List String :=
  if stays segment then done
  else if segment = ".." then
    match done with
    | last :: rest => if last = ".." then ".." :: done else rest
    | [] => if absolute then [] else [".."]
  else segment :: done

def ofSegments (absolute : Bool) (segments : List String) : String :=
  (if absolute then "/" else "") ++ "/".intercalate segments

def normalize (path : String) : String :=
  let absolute := isAbsolute path
  ofSegments absolute ((segments path).foldl (take absolute) []).reverse

def directory (path : String) : String :=
  match path.toList.reverse.dropWhile (fun c => c ≠ '/') with
  | [] => "."
  | [_] => "/"
  | _ :: rest => String.ofList rest.reverse

def join (dir path : String) : String :=
  if isAbsolute path || dir = "" then path
  else if dir.toList.getLast? == some '/' then dir ++ path
  else dir ++ "/" ++ path

def steps (path : String) : List String := (segments path).filter (!stays ·)

def fileName? (path : String) : Option String :=
  match (steps path).getLast? with
  | some name => if name = ".." then none else some name
  | none => none

/-- What follows the last dot of a file name that does not start with it. -/
def extension? (path : String) : Option String :=
  match fileName? path with
  | none => none
  | some name =>
      let back := name.toList.reverse
      match back.dropWhile (fun c => c ≠ '.') with
      | [] | [_] => none
      | _ => some (String.ofList (back.takeWhile (fun c => c ≠ '.')).reverse)

def addExtension (path extension : String) : String :=
  match fileName? path with
  | none => path
  | some _ => ofSegments (isAbsolute path) (steps path) ++ "." ++ extension

/-- The directory that holds what a path leads to, as it is written; a dot when the path does not
write one. -/
def parent (path : String) : String :=
  match (segments path).reverse.dropWhile stays with
  | [] => "."
  | _ :: above =>
      match above.dropWhile stays with
      | [] => if isAbsolute path then "/" else "."
      | front => "/".intercalate front.reverse

end Path

end Rill
