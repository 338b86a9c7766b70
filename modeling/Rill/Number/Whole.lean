import Rill.Number.Binary

/-!
# Whole parts of numbers

The whole part of a number, its clipping to the range of 64-bit integers, and the remainder that
keeps the sign of the dividend. All three are computed exactly from the binary fraction.
-/

set_option autoImplicit false

namespace Rill.Number

namespace Binary

def isWhole : Binary → Bool
  | .finite _ mantissa exponent =>
      decide (0 ≤ exponent) || mantissa % Nat.pow 2 (-exponent).toNat == 0
  | _ => false

def wholeSize (mantissa : Nat) (exponent : Int) : Nat :=
  if 0 ≤ exponent then mantissa * Nat.pow 2 exponent.toNat else mantissa / Nat.pow 2 (-exponent).toNat

def whole (negative : Bool) (mantissa : Nat) (exponent : Int) : Int :=
  if negative then -(wholeSize mantissa exponent : Int) else wholeSize mantissa exponent

end Binary

def minInt : Int := -9223372036854775808

def maxInt : Int := 9223372036854775807

/-- An integer moved to the nearest end of the 64-bit range when it lies outside. -/
def clip (n : Int) : Int := max minInt (min n maxInt)

/-- The whole part of a number within the 64-bit range; an undefined number counts as zero. -/
def toInt (x : Float) : Int :=
  match Binary.ofFloat x with
  | .nan => 0
  | .infinite negative => if negative then minInt else maxInt
  | .finite negative mantissa exponent => clip (Binary.whole negative mantissa exponent)

def isWhole (x : Float) : Bool := (Binary.ofFloat x).isWhole

/-- What is left of `x` after taking away `y` as often as it fits, with the sign of `x`. -/
def remainder (x y : Float) : Float :=
  match Binary.ofFloat x, Binary.ofFloat y with
  | .finite negative m e, .finite _ n f =>
      if n = 0 then 0.0 / 0.0
      else
        let low := min e f
        let rest := m * Nat.pow 2 (e - low).toNat % (n * Nat.pow 2 (f - low).toNat)
        let (num, den) := scaled rest 1 low
        nearest negative num den
  | .finite _ _ _, .infinite _ => x
  | _, _ => 0.0 / 0.0

end Rill.Number
