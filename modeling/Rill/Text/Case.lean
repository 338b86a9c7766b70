import Rill.Text.CaseIgnorable
import Rill.Text.CaseTable
import Rill.Text.Cased

/-!
# Upper and lower case

Case changes character by character, except that a capital sigma at the end of a word becomes the
final form of the small letter.
-/

set_option autoImplicit false

namespace Rill.Text

namespace CaseRun

def covers (run : CaseRun) (code : Nat) : Bool :=
  run.first ≤ code && code ≤ run.last && (code - run.first) % run.step == 0

end CaseRun

/-- The code points that one code point turns into, given the expansions and runs of one case. -/
def changeCase (expansions : List (Nat × List Nat)) (runs : List CaseRun) (code : Nat) : List Nat :=
  match expansions.lookup code with
  | some codes => codes
  | none =>
      match runs.find? (·.covers code) with
      | some run => [code + run.up - run.down]
      | none => [code]

def upperChar (c : Char) : List Char :=
  (changeCase upperExpansions upperRuns c.toNat).map Char.ofNat

/-- One character in lower case, apart from the rule for a final sigma. -/
def lowerChar (c : Char) : List Char :=
  (changeCase lowerExpansions lowerRuns c.toNat).map Char.ofNat

/-- Whether the first character that is not passed over has a case. -/
def casedFirst (chars : List Char) : Bool :=
  match chars.dropWhile caseIgnorable.holds with
  | [] => false
  | c :: _ => cased.holds c

/-- Lower case of the characters that follow `before`, which holds the characters already passed,
the nearest first. A capital sigma is final when a cased letter stands before it and none after. -/
def lowerFrom (before : List Char) : List Char → List Char
  | [] => []
  | c :: rest =>
      let changed :=
        if c = 'Σ' then
          if casedFirst before && !casedFirst rest then ['ς'] else ['σ']
        else lowerChar c
      changed ++ lowerFrom (c :: before) rest

def upper (text : String) : String :=
  String.ofList (text.toList.flatMap upperChar)

def lower (text : String) : String :=
  String.ofList (lowerFrom [] text.toList)

end Rill.Text
