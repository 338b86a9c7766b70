import Rill.Text.Blank

/-!
# Searching and cutting texts

Finding one text in another, cutting a text at a separator or at blanks, and taking the blanks off
its ends. Lengths and places count characters.
-/

set_option autoImplicit false

namespace Rill.Text

def occursIn (needle : List Char) : List Char → Bool
  | [] => needle.isEmpty
  | c :: rest => needle.isPrefixOf (c :: rest) || occursIn needle rest

def contains (text needle : String) : Bool := occursIn needle.toList text.toList

def startsWith (text front : String) : Bool := front.toList.isPrefixOf text.toList

def endsWith (text back : String) : Bool := back.toList.isSuffixOf text.toList

/-- Cut at every occurrence of a separator, from left to right. `piece` holds the characters since
the last cut, the last one first, and `skip` counts those of the separator still to pass over. -/
def cut (separator : List Char) (piece : List Char) (skip : Nat) : List Char → List (List Char)
  | [] => [piece.reverse]
  | c :: rest =>
      if 0 < skip then cut separator piece (skip - 1) rest
      else if separator.isPrefixOf (c :: rest) then
        piece.reverse :: cut separator [] (separator.length - 1) rest
      else cut separator (c :: piece) 0 rest

/-- The pieces of a text between occurrences of a separator that is not empty. -/
def split (text separator : String) : List String :=
  (cut separator.toList [] 0 text.toList).map String.ofList

/-- The runs of characters between blanks. `word` holds the run under way, last character first. -/
def runs (word : List Char) : List Char → List (List Char)
  | [] => if word.isEmpty then [] else [word.reverse]
  | c :: rest =>
      if blanks.holds c then
        if word.isEmpty then runs [] rest else word.reverse :: runs [] rest
      else runs (c :: word) rest

/-- The words of a text: its longest runs without blanks. -/
def words (text : String) : List String := (runs [] text.toList).map String.ofList

def trim (text : String) : String :=
  let front := text.toList.dropWhile blanks.holds
  String.ofList (front.reverse.dropWhile blanks.holds).reverse

def characters (text : String) : List String := text.toList.map String.singleton

end Rill.Text
