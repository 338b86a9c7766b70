import Rill.Number.Shortest
import Rill.Number.Whole

/-!
# Number text

How the language writes numbers: whole numbers of moderate size by their digits, everything else
by the shortest decimal that reads back, always in positional notation.
-/

set_option autoImplicit false

namespace Rill.Number

/-- The words and signs of one way to write numbers. -/
structure Words where
  undefined : String
  infinity : String

def Words.display : Words := ⟨"NaN", "Infinity"⟩

def Words.bare : Words := ⟨"NaN", "inf"⟩

namespace Decimal

/-- The same decimal without trailing zeros among its digits. `tries` bounds their number. -/
def trim : Nat → Decimal → Decimal
  | 0, d => d
  | tries + 1, d =>
      if d.digits ≠ 0 ∧ d.digits % 10 = 0 then trim tries ⟨d.digits / 10, d.exponent + 1⟩ else d

/-- The decimal in positional notation: no exponent, and a point only before a fraction. -/
def positional (d : Decimal) : String :=
  let digits := d.digits.repr.toList
  if 0 ≤ d.exponent then String.ofList (digits ++ List.replicate d.exponent.toNat '0')
  else
    let places := (-d.exponent).toNat
    if places < digits.length then
      let split := digits.length - places
      String.ofList (digits.take split ++ '.' :: digits.drop split)
    else String.ofList ("0.".toList ++ List.replicate (places - digits.length) '0' ++ digits)

end Decimal

def signed (negative : Bool) (text : String) : String :=
  if negative then "-" ++ text else text

def sizeText (mantissa : Nat) (exponent : Int) : String :=
  if mantissa = 0 then "0"
  else ((shortest mantissa exponent).trim 20).positional

/-- A number in the given words. Minus zero keeps its sign. -/
def write (words : Words) (x : Float) : String :=
  match Binary.ofFloat x with
  | .nan => words.undefined
  | .infinite negative => signed negative words.infinity
  | .finite negative mantissa exponent => signed negative (sizeText mantissa exponent)

/-- A number as the language prints it. A whole number below `10 ^ 15` is written by its own
digits; a larger one by the digits of its shortest decimal, filled up with zeros. -/
def format (x : Float) : String :=
  match Binary.ofFloat x with
  | .finite negative mantissa exponent =>
      let size := Binary.wholeSize mantissa exponent
      if (Binary.finite negative mantissa exponent).isWhole && decide (size < Nat.pow 10 15) then
        signed negative size.repr
      else write .display x
  | _ => write .display x

end Rill.Number
