import Mathlib
import Rill.Proofs.WholeNumerals

/-!
# Signed numerals

A minus sign before a numeral that starts with a digit negates its value: it sets the sign bit of
the number, and nothing else in the reading of a numeral looks at the sign.
-/

set_option autoImplicit false

namespace Rill.Number

/-! ## The sign bit -/

section SignBit

open Float.Model UnpackedFloat

theorem field_toNat (bits : Nat) (start size : Nat) :
    (BitVec.extractLsb' start size (UInt64.ofNat bits).toBitVec).toNat
      = bits % 2 ^ 64 / 2 ^ start % 2 ^ size := by
  rw [BitVec.extractLsb'_toNat, Nat.shiftRight_eq_div_pow, UInt64.toNat_toBitVec,
    UInt64.toNat_ofNat']

theorem unpack_flipped {bits : Nat} (small : bits < 2 ^ 63) :
    UnpackedFloat.unpack Format.binary64 (UInt64.ofNat (bits + 2 ^ 63)).toBitVec
      = (UnpackedFloat.unpack Format.binary64 (UInt64.ofNat bits).toBitVec).neg := by
  have exponent : @unpackExponent Format.binary64 (UInt64.ofNat (bits + 2 ^ 63)).toBitVec
      = @unpackExponent Format.binary64 (UInt64.ofNat bits).toBitVec := by
    apply BitVec.eq_of_toNat_eq
    rw [unpackExponent_def, unpackExponent_def, field_toNat, field_toNat]
    show (bits + 2 ^ 63) % 2 ^ 64 / 2 ^ 52 % 2 ^ 11 = bits % 2 ^ 64 / 2 ^ 52 % 2 ^ 11
    omega
  have mantissa : @unpackMantissa Format.binary64 (UInt64.ofNat (bits + 2 ^ 63)).toBitVec
      = @unpackMantissa Format.binary64 (UInt64.ofNat bits).toBitVec := by
    apply BitVec.eq_of_toNat_eq
    rw [unpackMantissa_def, unpackMantissa_def, field_toNat, field_toNat]
    show (bits + 2 ^ 63) % 2 ^ 64 / 2 ^ 0 % 2 ^ 52 = bits % 2 ^ 64 / 2 ^ 0 % 2 ^ 52
    omega
  have plus : @unpackSign Format.binary64 (UInt64.ofNat bits).toBitVec = 0#1 := by
    apply BitVec.eq_of_toNat_eq
    rw [unpackSign_def, field_toNat]
    show bits % 2 ^ 64 / 2 ^ 63 % 2 ^ 1 = 0
    omega
  have minus : @unpackSign Format.binary64 (UInt64.ofNat (bits + 2 ^ 63)).toBitVec = 1#1 := by
    apply BitVec.eq_of_toNat_eq
    rw [unpackSign_def, field_toNat]
    show (bits + 2 ^ 63) % 2 ^ 64 / 2 ^ 63 % 2 ^ 1 = 1
    omega
  simp only [UnpackedFloat.unpack, exponent, mantissa, plus, minus, Sign.ofBitVec]
  split
  · split <;> rfl
  · split
    · split <;> rfl
    · rfl

theorem neg_ofBits {bits : UInt64}
    (defined : ¬ @isNaNBits Format.binary64 bits.toBitVec = true) :
    -Float.ofBits bits = Float.ofModel
      (Float.Model.pack (UnpackedFloat.unpack Format.binary64 bits.toBitVec).neg) := by
  have kept : UnpackedFloat.pack Format.binary64
      (UnpackedFloat.unpack Format.binary64 bits.toBitVec) = bits.toBitVec :=
    (pack_unpack _ (by decide)).trans (if_neg defined)
  have whole : (Float.Model.ofBits bits).unpack
      = UnpackedFloat.unpack Format.binary64 bits.toBitVec :=
    congrArg (UnpackedFloat.unpack Format.binary64) kept
  exact congrArg (fun found => Float.ofModel (Float.Model.pack (UnpackedFloat.neg found))) whole

theorem ordinary_defined {bits : Nat} (ordinary : bits % 2 ^ 63 ≤ 2047 * 2 ^ 52) :
    ¬ @isNaNBits Format.binary64 (UInt64.ofNat bits).toBitVec = true := by
  intro undefined
  obtain ⟨ones, nonzero⟩ := of_decide_eq_true undefined
  have all : (-1#(Format.binary64.exponentBits)).toNat = 2047 := by decide
  have high := congrArg BitVec.toNat ones
  have width : Format.binary64.mantissaBitsWithoutImplicit = 52 := rfl
  have places : Format.binary64.exponentBits = 11 := rfl
  rw [all, unpackExponent_def, field_toNat, width, places] at high
  refine nonzero (BitVec.eq_of_toNat_eq ?_)
  rw [unpackMantissa_def, field_toNat, BitVec.toNat_zero, width]
  omega

theorem ofBits_eq (bits : UInt64) : Float.ofBits bits
    = Float.ofModel (Float.Model.pack (UnpackedFloat.unpack Format.binary64 bits.toBitVec)) := rfl

theorem ofBits_flipped {bits : Nat} (ordinary : bits ≤ 2047 * 2 ^ 52) :
    Float.ofBits (UInt64.ofNat (bits + 2 ^ 63)) = -Float.ofBits (UInt64.ofNat bits) := by
  rw [neg_ofBits (ordinary_defined (by omega)), ← unpack_flipped (by omega), ofBits_eq]

theorem neg_neg_ofBits {bits : Nat} (ordinary : bits ≤ 2047 * 2 ^ 52) :
    - -Float.ofBits (UInt64.ofNat bits) = Float.ofBits (UInt64.ofNat bits) := by
  have twice (found : UnpackedFloat) : found.neg.neg = found := by
    cases found with
    | notANumber => rfl
    | infinity sign | zero sign | finite sign => cases sign <;> rfl
  rw [← ofBits_flipped ordinary, neg_ofBits (ordinary_defined (by omega)),
    unpack_flipped (by omega), twice, ofBits_eq]

end SignBit

/-! ## Numbers and numerals -/

theorem nearestBits_le (num den : Nat) : nearestBits num den ≤ 2047 * 2 ^ 52 := by
  unfold nearestBits
  exact Nat.min_le_right _ _

theorem nearest_ordinary (num den : Nat) :
    (if num = 0 then 0 else nearestBits num den) ≤ 2047 * 2 ^ 52 := by
  split
  · exact Nat.zero_le _
  · exact nearestBits_le num den

theorem nearest_negative (num den : Nat) : nearest true num den = -nearest false num den :=
  ofBits_flipped (nearest_ordinary num den)

theorem neg_neg_nearest (num den : Nat) : - -nearest false num den = nearest false num den :=
  neg_neg_ofBits (nearest_ordinary num den)

theorem ofDecimal_negative (digits : Nat) (exponent : Int) :
    ofDecimal true digits exponent = -ofDecimal false digits exponent := by
  simp only [ofDecimal]
  split
  · exact nearest_negative _ _
  split
  · exact nearest_negative _ _
  split
  · exact nearest_negative _ _
  split <;> exact nearest_negative _ _

theorem neg_neg_ofDecimal (digits : Nat) (exponent : Int) :
    - -ofDecimal false digits exponent = ofDecimal false digits exponent := by
  simp only [ofDecimal]
  split
  · exact neg_neg_nearest _ _
  split
  · exact neg_neg_nearest _ _
  split
  · exact neg_neg_nearest _ _
  split <;> exact neg_neg_nearest _ _

theorem readSize_negative (chars : List Char) :
    readSize true chars = (readSize false chars).map (- ·) := by
  simp only [readSize]
  split
  all_goals
    split
    · rfl
    · split
      · rfl
      · exact congrArg some (ofDecimal_negative _ _)

theorem read_digits {c : Char} (digit : c.isDigit = true) (rest : List Char) (negative : Bool)
    {chars : List Char} (split : splitSign chars = (negative, c :: rest)) :
    read (String.ofList chars) = readSize negative (c :: rest) := by
  have noInf := ne_word digit rest "inf" (by simp)
  have noInfinity := ne_word digit rest "infinity" (by simp)
  have noNan := ne_word digit rest "nan" (by simp)
  rw [read, String.toList_ofList, split]
  exact (if_neg (not_or.mpr ⟨noInf, noInfinity⟩)).trans (if_neg noNan)

theorem read_signed {sign c : Char} (signs : sign = '+' ∨ sign = '-') (digit : c.isDigit = true)
    (rest : List Char) :
    read (String.ofList (sign :: c :: rest))
      = (read (String.ofList (c :: rest))).map fun size => if sign = '-' then -size else size := by
  rw [read_digits digit rest false (splitSign_digits digit)]
  rcases signs with rfl | rfl
  · rw [read_digits digit rest false rfl]
    simp
  · rw [read_digits digit rest true rfl, readSize_negative]
    simp

theorem neg_neg_readSize {chars : List Char} {size : Float}
    (value : readSize false chars = some size) : - -size = size := by
  simp only [readSize] at value
  split at value
  all_goals
    split at value
    · cases value
    · split at value
      · cases value
      · cases value
        exact neg_neg_ofDecimal _ _

theorem neg_neg_read {c : Char} (digit : c.isDigit = true) {rest : List Char} {size : Float}
    (value : read (String.ofList (c :: rest)) = some size) : - -size = size := by
  rw [read_digits digit rest false (splitSign_digits digit)] at value
  exact neg_neg_readSize value

end Rill.Number
