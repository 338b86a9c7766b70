import Rill.Number.Binary

/-!
# Shortest decimals

The decimal with the fewest digits that lies so close to a number that reading it back gives the
number again; among those of that length, the nearest one. A number owns the reals between the
midpoints to its two neighbours, midpoints included when its mantissa is even.
-/

set_option autoImplicit false

namespace Rill.Number

structure Decimal where
  digits : Nat
  exponent : Int
deriving DecidableEq

/-- The reals that read as one number, as whole multiples of `2 ^ unit`. -/
structure Interval where
  low : Nat
  value : Nat
  high : Nat
  unit : Int
  closed : Bool

namespace Interval

/-- The interval of `mantissa * 2 ^ exponent`. Below a power of two the numbers lie twice as
close, except at the bottom of the range. -/
def of (mantissa : Nat) (exponent : Int) : Interval where
  low := if mantissa = Nat.pow 2 52 ∧ -1074 < exponent then 4 * mantissa - 1 else 4 * mantissa - 2
  value := 4 * mantissa
  high := 4 * mantissa + 2
  unit := exponent - 2
  closed := mantissa % 2 == 0

end Interval

/-- `n * 10 ^ e` and `m * 2 ^ unit` brought to one denominator, so that they compare as naturals. -/
def align (n : Nat) (e : Int) (m : Nat) (unit : Int) : Nat × Nat :=
  (n * Nat.pow 10 e.toNat * Nat.pow 2 (-unit).toNat,
    m * Nat.pow 2 unit.toNat * Nat.pow 10 (-e).toNat)

namespace Interval

/-- Whether the decimal `n * 10 ^ e` lies in the interval. -/
def admits (i : Interval) (n : Nat) (e : Int) : Bool :=
  let (a, low) := align n e i.low i.unit
  let (b, high) := align n e i.high i.unit
  if i.closed then decide (low ≤ a) && decide (b ≤ high)
  else decide (low < a) && decide (b < high)

/-- The greatest `n` such that `n * 10 ^ e` does not exceed the interval's own value. -/
def below (i : Interval) (e : Int) : Nat :=
  let (one, value) := align 1 e i.value i.unit
  value / one

/-- Whether `n + 1` is at least as near as `n` to the value, in steps of `10 ^ e`. -/
def nearerAbove (i : Interval) (n : Nat) (e : Int) : Bool :=
  let (middle, value) := align (2 * n + 1) e (2 * i.value) i.unit
  decide (middle ≤ value)

/-- The nearest decimal with step `10 ^ e` that the interval admits, if it admits one. -/
def onGrid (i : Interval) (e : Int) : Option Decimal :=
  let n := i.below e
  match i.admits n e, i.admits (n + 1) e with
  | true, true => some ⟨if i.nearerAbove n e then n + 1 else n, e⟩
  | true, false => some ⟨n, e⟩
  | false, true => some ⟨n + 1, e⟩
  | false, false => none

/-- The first exponent, from a guess upward, whose power of ten exceeds the value. -/
def magnitude (i : Interval) : Nat → Int → Int
  | 0, guess => guess
  | tries + 1, guess =>
      let (power, value) := align 1 guess i.value i.unit
      if value < power then guess else i.magnitude tries (guess + 1)

def search (i : Interval) (top : Int) : Nat → Nat → Decimal
  | 0, digits => ⟨i.below (top - digits), top - digits⟩
  | tries + 1, digits =>
      match i.onGrid (top - digits) with
      | some decimal => decimal
      | none => i.search top tries (digits + 1)

end Interval

/-- The shortest decimal of the positive number `mantissa * 2 ^ exponent`. Seventeen digits always
suffice. The first guess at the magnitude comes from the count of bits. -/
def shortest (mantissa : Nat) (exponent : Int) : Decimal :=
  let interval := Interval.of mantissa exponent
  let guess := Int.fdiv (((mantissa.log2 : Int) + exponent) * 30103) 100000
  interval.search (interval.magnitude 3 guess) 17 1

end Rill.Number
