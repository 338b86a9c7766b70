/-!
# Numbers as binary fractions

A number is a 64-bit floating point value. This file reads its bits as a sign, a whole mantissa
and a power of two, and goes the other way from an exact fraction to the nearest number, halfway
cases to the even mantissa. Everything exact that the language does with numbers (printing,
indexing, remainders, time budgets) is stated over this view.
-/

set_option autoImplicit false

namespace Rill.Number

/-- What the bits of a number stand for. A finite number is `mantissa * 2 ^ exponent`, negated when
`negative` holds; zero keeps its sign. -/
inductive Binary where
  | nan
  | infinite (negative : Bool)
  | finite (negative : Bool) (mantissa : Nat) (exponent : Int)
deriving DecidableEq

namespace Binary

/-- Read a bit pattern: one sign bit, eleven exponent bits, fifty-two fraction bits. -/
def ofBits (bits : Nat) : Binary :=
  let negative := bits / Nat.pow 2 63 % 2 == 1
  let field : Nat := bits / Nat.pow 2 52 % Nat.pow 2 11
  let fraction : Nat := bits % Nat.pow 2 52
  if field = 2047 then
    if fraction = 0 then .infinite negative else .nan
  else if field = 0 then .finite negative fraction (-1074)
  else .finite negative (Nat.pow 2 52 + fraction) ((field : Int) - 1075)

def ofFloat (x : Float) : Binary := ofBits x.toBits.toNat

end Binary

/-- `num / den * 2 ^ shift` as a fraction with whole parts. -/
def scaled (num den : Nat) (shift : Int) : Nat × Nat :=
  if 0 ≤ shift then (num * Nat.pow 2 shift.toNat, den) else (num, den * Nat.pow 2 (-shift).toNat)

/-- A quotient rounded to the nearest whole number, a half to the even neighbour. -/
def divideToEven (num den : Nat) : Nat :=
  let whole := num / den
  let rest := num % den
  if 2 * rest < den then whole
  else if den < 2 * rest then whole + 1
  else if whole % 2 = 0 then whole else whole + 1

/-- The power of two that the last mantissa bit of `num / den` has, never below the smallest one. -/
def lastBit (num den : Nat) : Int :=
  let guess : Int := max ((num.log2 : Int) - den.log2 - 53) (-1074)
  let (n, d) := scaled num den (-guess)
  if n / d < Nat.pow 2 53 then guess else guess + 1

/-- The bits of the number nearest to `num / den`, without a sign. Too large a fraction gives the
bits of infinity. -/
def nearestBits (num den : Nat) : Nat :=
  let exponent := lastBit num den
  let (n, d) := scaled num den (-exponent)
  let mantissa := divideToEven n d
  let bits := if mantissa < Nat.pow 2 52 then mantissa
    else (exponent + 1074).toNat * Nat.pow 2 52 + mantissa
  min bits (2047 * Nat.pow 2 52)

/-- The number nearest to the fraction `num / den`, negated when `negative` holds. -/
def nearest (negative : Bool) (num den : Nat) : Float :=
  let bits := if num = 0 then 0 else nearestBits num den
  Float.ofBits (UInt64.ofNat (bits + if negative then Nat.pow 2 63 else 0))

def ofNat (n : Nat) : Float := nearest false n 1

def ofInt (n : Int) : Float := nearest (decide (n < 0)) n.natAbs 1

end Rill.Number
