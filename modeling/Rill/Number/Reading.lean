import Rill.Number.Binary

/-!
# Reading numbers

A number text is an optional sign, then either a word for infinity or for the undefined number in
any mixture of cases, or decimal digits with an optional point and an optional exponent. At least
one digit must stand before the exponent. The value is the number nearest to the decimal.
-/

set_option autoImplicit false

namespace Rill.Number

def digitsValue (digits : List Char) : Nat :=
  digits.foldl (fun value c => 10 * value + (c.toNat - '0'.toNat)) 0

/-- A leading sign and what follows it; the flag says whether the sign is a minus. -/
def splitSign : List Char → Bool × List Char
  | '+' :: rest => (false, rest)
  | '-' :: rest => (true, rest)
  | chars => (false, chars)

/-- The exponent part of a number text, `none` when it is malformed. -/
def readExponent : List Char → Option Int
  | [] => some 0
  | c :: rest =>
      if c = 'e' ∨ c = 'E' then
        let (negative, digits) := splitSign rest
        if digits.isEmpty || !digits.all Char.isDigit then none
        else some (if negative then -(digitsValue digits : Int) else digitsValue digits)
      else none

/-- The number nearest to `digits * 10 ^ exponent`. A decimal far outside the range of numbers is
infinite or zero, whatever its exact size: a quarter of its bits is below its count of digits, and
a third of them is at most one below. -/
def ofDecimal (negative : Bool) (digits : Nat) (exponent : Int) : Float :=
  let bits : Int := digits.log2
  if digits = 0 then nearest negative 0 1
  else if 400 < bits / 4 + exponent then nearest negative (Nat.pow 2 1025) 1
  else if bits / 3 + exponent < -400 then nearest negative 0 1
  else if 0 ≤ exponent then nearest negative (digits * Nat.pow 10 exponent.toNat) 1
  else nearest negative digits (Nat.pow 10 (-exponent).toNat)

def readSize (negative : Bool) (chars : List Char) : Option Float :=
  let before := chars.takeWhile Char.isDigit
  let rest := chars.dropWhile Char.isDigit
  let (fraction, rest) :=
    match rest with
    | '.' :: more => (more.takeWhile Char.isDigit, more.dropWhile Char.isDigit)
    | _ => ([], rest)
  if before.isEmpty && fraction.isEmpty then none
  else
    match readExponent rest with
    | none => none
    | some exponent =>
        some (ofDecimal negative (digitsValue (before ++ fraction)) (exponent - fraction.length))

def read (text : String) : Option Float :=
  let (negative, chars) := splitSign text.toList
  let word := String.ofList (chars.map Char.toLower)
  if word = "inf" ∨ word = "infinity" then some (nearest negative (Nat.pow 2 1025) 1)
  else if word = "nan" then some (0.0 / 0.0)
  else readSize negative chars

end Rill.Number
