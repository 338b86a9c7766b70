import Mathlib
import Rill.Number.Format
import Rill.Number.Reading

/-!
# Whole numerals

A whole number below `10 ^ 15` survives the way from its digits to a number and back to text
(`format_of_read`). It has at most 53 bits, so the nearest number is the number itself: its mantissa
is filled up with zeros, which the exponent takes away again.
-/

set_option autoImplicit false

namespace Rill.Number

/-! ## Bits -/

open Float.Model in
theorem toBits_ofBits {bits : UInt64} (ordinary : bits.toNat / 2 ^ 52 % 2 ^ 11 ≠ 2047) :
    (Float.ofBits bits).toBits = bits := by
  apply UInt64.toBitVec_inj.mp
  have defined : ¬ @UnpackedFloat.isNaNBits Format.binary64 bits.toBitVec = true := by
    intro undefined
    have ones := (of_decide_eq_true undefined).1
    rw [UnpackedFloat.unpackExponent_def] at ones
    have field := congrArg BitVec.toNat ones
    rw [BitVec.extractLsb'_toNat, Nat.shiftRight_eq_div_pow] at field
    exact ordinary field
  exact (@UnpackedFloat.pack_unpack Format.binary64 bits.toBitVec (by decide)).trans
    (if_neg defined)

theorem ofFloat_ofBits {bits : Nat} (fits : bits < 2 ^ 64)
    (ordinary : bits / 2 ^ 52 % 2 ^ 11 ≠ 2047) :
    Binary.ofFloat (Float.ofBits (UInt64.ofNat bits)) = Binary.ofBits bits := by
  have kept : (UInt64.ofNat bits).toNat = bits := UInt64.toNat_ofNat_of_lt' fits
  rw [Binary.ofFloat, toBits_ofBits (by rwa [kept]), kept]

/-! ## The number nearest to a whole number -/

section Nearest

variable {n k : Nat}

theorem filled {bits : Nat} (size : n.log2 = k) (positive : 0 < n) (small : k ≤ bits) :
    2 ^ bits ≤ n * 2 ^ (bits - k) ∧ n * 2 ^ (bits - k) < 2 ^ (bits + 1) := by
  have low : 2 ^ k ≤ n := size ▸ Nat.log2_self_le positive.ne'
  have high : n < 2 ^ (k + 1) := size ▸ Nat.lt_log2_self
  constructor
  · calc 2 ^ bits = 2 ^ k * 2 ^ (bits - k) := by rw [← Nat.pow_add]; congr 1; omega
      _ ≤ n * 2 ^ (bits - k) := Nat.mul_le_mul_right _ low
  · calc n * 2 ^ (bits - k) < 2 ^ (k + 1) * 2 ^ (bits - k) :=
          Nat.mul_lt_mul_of_pos_right high (Nat.two_pow_pos _)
      _ = 2 ^ (bits + 1) := by rw [← Nat.pow_add]; congr 1; omega

theorem scaled_up (n den : Nat) {shift : Int} {places : Nat} (up : shift = places) :
    scaled n den shift = (n * 2 ^ places, den) := by
  subst up
  rw [scaled, if_pos (Int.natCast_nonneg places), Int.toNat_natCast]
  rfl

theorem lastBit_whole (size : n.log2 = k) (positive : 0 < n) (small : k ≤ 52) :
    lastBit n 1 = (k : Int) - 52 := by
  have guess : max ((k : Int) - (1 : Nat).log2 - 53) (-1074) = k - 53 := by
    have : (1 : Nat).log2 = 0 := rfl
    omega
  have up : -((k : Int) - 53) = (53 - k : Nat) := by omega
  have enough : ¬ n * 2 ^ (53 - k) / 1 < 2 ^ 53 := by
    rw [Nat.div_one]
    exact Nat.not_lt.mpr (filled size positive (by omega)).1
  rw [lastBit, size, guess, scaled_up n 1 up]
  refine (if_neg enough).trans ?_
  omega

theorem divideToEven_one (n : Nat) : divideToEven n 1 = n := by
  simp [divideToEven, Nat.mod_one]

theorem nearestBits_whole (size : n.log2 = k) (positive : 0 < n) (small : k ≤ 52) :
    nearestBits n 1 = (k + 1022) * 2 ^ 52 + n * 2 ^ (52 - k) := by
  have up : -((k : Int) - 52) = (52 - k : Nat) := by omega
  obtain ⟨low, high⟩ := filled size positive small
  have field : ((k : Int) - 52 + 1074).toNat = k + 1022 := by omega
  rw [nearestBits, lastBit_whole size positive small, scaled_up n 1 up]
  simp only [divideToEven_one, field]
  generalize n * 2 ^ (52 - k) = mantissa at *
  rw [Nat.pow_eq, if_neg (Nat.not_lt.mpr low)]
  omega

theorem ofFloat_whole (size : n.log2 = k) (positive : 0 < n) (small : k ≤ 52) :
    Binary.ofFloat (nearest false n 1)
      = .finite false (n * 2 ^ (52 - k)) (-((52 - k : Nat) : Int)) := by
  obtain ⟨low, high⟩ := filled size positive small
  have bits : nearest false n 1
      = Float.ofBits (UInt64.ofNat ((k + 1022) * 2 ^ 52 + n * 2 ^ (52 - k))) := by
    simp only [nearest, if_neg positive.ne', nearestBits_whole size positive small,
      Bool.false_eq_true, if_false, Nat.add_zero]
  generalize n * 2 ^ (52 - k) = mantissa at *
  rw [bits, ofFloat_ofBits (by omega) (by omega), Binary.ofBits]
  simp only [Nat.pow_eq]
  have sign : ((k + 1022) * 2 ^ 52 + mantissa) / 2 ^ 63 % 2 = 0 := by omega
  have field : ((k + 1022) * 2 ^ 52 + mantissa) / 2 ^ 52 % 2 ^ 11 = k + 1023 := by omega
  have fraction : ((k + 1022) * 2 ^ 52 + mantissa) % 2 ^ 52 = mantissa - 2 ^ 52 := by omega
  rw [sign, field, fraction, if_neg (by omega), if_neg (by omega)]
  have back : 2 ^ 52 + (mantissa - 2 ^ 52) = mantissa := by omega
  have exponent : ((k + 1023 : Nat) : Int) - 1075 = -((52 - k : Nat) : Int) := by omega
  rw [back, exponent]
  rfl

theorem ofFloat_zero : Binary.ofFloat (nearest false 0 1) = .finite false 0 (-1074) := by
  have bits : nearest false 0 1 = Float.ofBits (UInt64.ofNat 0) := rfl
  rw [bits, ofFloat_ofBits (by omega) (by omega)]
  rfl

end Nearest

/-! ## Writing -/

theorem whole_filled (n places : Nat) :
    Binary.wholeSize (n * 2 ^ places) (-(places : Int)) = n
      ∧ (Binary.finite false (n * 2 ^ places) (-(places : Int))).isWhole = true := by
  cases places with
  | zero => simp [Binary.wholeSize, Binary.isWhole]
  | succ places =>
      have below : ¬ (0 : Int) ≤ -((places + 1 : Nat) : Int) := by omega
      have power : (-(-((places + 1 : Nat) : Int))).toNat = places + 1 := by omega
      simp only [Binary.wholeSize, Binary.isWhole, if_neg below, power, Nat.pow_eq]
      refine ⟨Nat.mul_div_cancel n (Nat.two_pow_pos _), ?_⟩
      rw [Nat.mul_mod_left]
      simp

theorem log2_small {n : Nat} (positive : 0 < n) (small : n < 10 ^ 15) : n.log2 ≤ 52 := by
  have : n.log2 < 53 := (Nat.log2_lt positive.ne').mpr (by omega)
  omega

theorem format_whole {n : Nat} (small : n < 10 ^ 15) : format (nearest false n 1) = n.repr := by
  obtain ⟨m, places, filled, bits⟩ : ∃ m places, m = n * 2 ^ places
      ∧ Binary.ofFloat (nearest false n 1) = .finite false m (-((places : Nat) : Int)) := by
    rcases Nat.eq_zero_or_pos n with rfl | positive
    · exact ⟨0, 1074, (Nat.zero_mul _).symm, ofFloat_zero⟩
    · exact ⟨_, _, rfl, ofFloat_whole rfl positive (log2_small positive small)⟩
  subst filled
  obtain ⟨whole, isWhole⟩ := whole_filled n places
  rw [format, bits]
  simp only [whole, isWhole, Nat.pow_eq, Bool.true_and, decide_eq_true small, if_true]
  rfl

/-! ## Reading -/

theorem readSize_digits {digits : List Char} (present : digits ≠ [])
    (decimal : ∀ c ∈ digits, c.isDigit = true) (negative : Bool) :
    readSize negative digits = some (ofDecimal negative (digitsValue digits) 0) := by
  have whole : digits.takeWhile Char.isDigit = digits := List.takeWhile_eq_self_iff.mpr decimal
  have rest : digits.dropWhile Char.isDigit = [] := List.dropWhile_eq_nil_iff.mpr decimal
  have nonempty : digits.isEmpty = false := List.isEmpty_eq_false_iff.mpr present
  simp only [readSize, whole, rest, nonempty, Bool.false_and, Bool.false_eq_true, if_false,
    readExponent, List.append_nil, List.length_nil]
  rfl

theorem digit_of_mem_repr {n : Nat} {c : Char} (member : c ∈ n.repr.toList) :
    c.isDigit = true := by
  rw [Nat.toList_repr] at member
  exact Nat.isDigit_of_mem_toDigits (by decide) (by decide) member

theorem splitSign_digits {c : Char} {rest : List Char} (digit : c.isDigit = true) :
    splitSign (c :: rest) = (false, c :: rest) := by
  unfold splitSign
  split
  · next same =>
    cases same
    exact nomatch digit
  · next same =>
    cases same
    exact nomatch digit
  · rfl

theorem toLower_digit {c : Char} (digit : c.isDigit = true) : c.toLower = c := by
  have high : c.val ≤ '9'.val := of_decide_eq_true (Bool.and_eq_true _ _ ▸ digit).2
  have notLetter : ¬ (c.val ≥ 'A'.val ∧ c.val ≤ 'Z'.val) := fun letter =>
    absurd (UInt32.le_trans letter.1 high) (by decide)
  exact dif_neg notLetter

theorem ne_word {c : Char} (digit : c.isDigit = true) (rest : List Char) (word : String)
    (letter : ∀ first ∈ word.toList.head?, first.isDigit = false) :
    String.ofList ((c :: rest).map Char.toLower) ≠ word := by
  rintro rfl
  have starts := letter c (by simp [toLower_digit digit])
  exact nomatch digit.symm.trans starts

theorem read_repr (n : Nat) : read n.repr = some (ofDecimal false n 0) := by
  have value : digitsValue n.repr.toList = n := by
    rw [Nat.toList_repr]
    exact Nat.ofDigitChars_toDigits (by decide) (by decide)
  have size : readSize false n.repr.toList = some (ofDecimal false n 0) := by
    rw [readSize_digits (by simp) (fun c => digit_of_mem_repr) false, value]
  obtain ⟨c, rest, digits⟩ := List.exists_cons_of_ne_nil (by simp : n.repr.toList ≠ [])
  have digit : c.isDigit = true := digit_of_mem_repr (digits ▸ List.mem_cons_self)
  have noInf := ne_word digit rest "inf" (by simp)
  have noInfinity := ne_word digit rest "infinity" (by simp)
  have noNan := ne_word digit rest "nan" (by simp)
  rw [digits] at size
  rw [read, digits, splitSign_digits digit]
  exact (if_neg (not_or.mpr ⟨noInf, noInfinity⟩)).trans ((if_neg noNan).trans size)

theorem ofDecimal_whole {n : Nat} (small : n < 10 ^ 15) :
    ofDecimal false n 0 = nearest false n 1 := by
  rcases Nat.eq_zero_or_pos n with rfl | positive
  · rfl
  have size := log2_small positive small
  have notHuge : ¬ (400 : Int) < (n.log2 : Int) / 4 + 0 := by omega
  have notTiny : ¬ (n.log2 : Int) / 3 + 0 < -400 := by omega
  simp only [ofDecimal, if_neg positive.ne', if_neg notHuge, if_neg notTiny, Int.le_refl, if_true]
  rw [Int.toNat_zero, Nat.pow_eq, Nat.pow_zero, Nat.mul_one]

/-- Reading the digits of a whole number below `10 ^ 15` and writing what comes of it gives the
digits. -/
theorem format_of_read {n : Nat} (small : n < 10 ^ 15) {value : Float}
    (found : read n.repr = some value) : format value = n.repr := by
  rw [read_repr, ofDecimal_whole small] at found
  cases found
  exact format_whole small

end Rill.Number
