import Mathlib
import MessageTemplate.Decimal.Binary64

/-!
# The rational numbers that double-precision numbers are

A finite double-precision number is a rational number, which `rational?` reads off
its unpacked form. The parts that `Binary64` decodes stand for the same rational
number (`toRat?_ofFloat`), and `toInt?` answers if it is a whole one.
-/

namespace MessageTemplate
namespace Binary64

open Float.Model

/-- The rational number that an unpacked number is, unless it is infinite or not a number. -/
def unpackedRat? : UnpackedFloat → Option ℚ
  | .finite sign mantissa exponent _ => some (sign.apply mantissa * 2 ^ exponent)
  | .zero _ => some 0
  | .infinity _ | .notANumber => none

/-- The rational number that a double-precision number is, unless it is infinite or not a number. -/
def rational? (x : Float) : Option ℚ := unpackedRat? x.toModel.unpack

/-- The rational number that the decoded parts stand for. -/
def toRat? : Binary64 → Option ℚ
  | finite negative mantissa exponent =>
    some ((if negative then -1 else 1) * mantissa * 2 ^ exponent)
  | infinite _ | nan => none

/-! ## The parts of a bit pattern -/

section

variable (bits : BitVec 64)

theorem toNat_unpackMantissa :
    (@UnpackedFloat.unpackMantissa .binary64 bits).toNat =
      bits.toNat % hiddenBit := by
  rw [UnpackedFloat.unpackMantissa, BitVec.toNat_cast, BitVec.extractLsb_toNat]
  rfl

theorem toNat_unpackExponent :
    (@UnpackedFloat.unpackExponent .binary64 bits).toNat =
      bits.toNat / hiddenBit % Nat.pow 2 11 := by
  rw [UnpackedFloat.unpackExponent, BitVec.toNat_cast, BitVec.extractLsb_toNat,
    Nat.shiftRight_eq_div_pow]
  rfl

theorem unpackSign_eq_zero_iff :
    @UnpackedFloat.unpackSign .binary64 bits = 0#1 ↔ bits.toNat < Nat.pow 2 63 := by
  have hlt := bits.isLt
  rw [← BitVec.toNat_inj, UnpackedFloat.unpackSign, BitVec.toNat_cast, BitVec.extractLsb_toNat,
    Nat.shiftRight_eq_div_pow]
  change bits.toNat / 2 ^ 63 % 2 ^ 1 = 0 ↔ bits.toNat < 2 ^ 63
  omega

theorem unpackedSign_apply (n : Nat) :
    (((UnpackedFloat.Sign.ofBitVec (@UnpackedFloat.unpackSign .binary64 bits)).apply n : Int) : ℚ) =
      (if decide (Nat.pow 2 63 ≤ bits.toNat) then -1 else 1) * n := by
  rw [UnpackedFloat.Sign.ofBitVec]
  by_cases hsign : bits.toNat < Nat.pow 2 63
  · rw [if_pos ((unpackSign_eq_zero_iff bits).2 hsign), if_neg (by simpa using hsign), one_mul]
    rfl
  · rw [if_neg (mt (unpackSign_eq_zero_iff bits).1 hsign), if_pos (by simpa using hsign),
      neg_one_mul, UnpackedFloat.Sign.apply, Int.cast_neg, Int.cast_natCast]

/-- In front of the mantissa of a normal number stands a bit that the pattern leaves out. -/
theorem toNat_append_mantissa (mantissa : BitVec 52) :
    (1#1 ++ mantissa).toNat = hiddenBit + mantissa.toNat := by
  rw [BitVec.toNat_append, ← Nat.shiftLeft_add_eq_or_of_lt mantissa.isLt, Nat.shiftLeft_eq]
  rfl

theorem toRat?_ofBits :
    (ofBits bits.toNat).toRat? = unpackedRat? (.unpack Format.binary64 bits) := by
  have hmantissa := toNat_unpackMantissa bits
  have hexponent := toNat_unpackExponent bits
  have hzero : @UnpackedFloat.unpackMantissa .binary64 bits = 0#52 ↔
      bits.toNat % hiddenBit = 0 := by
    rw [← BitVec.toNat_inj, hmantissa]
    rfl
  have hleast : @UnpackedFloat.unpackExponent .binary64 bits = 0#11 ↔
      bits.toNat / hiddenBit % Nat.pow 2 11 = 0 := by
    rw [← BitVec.toNat_inj, hexponent]
    rfl
  have hgreatest : @UnpackedFloat.unpackExponent .binary64 bits = -1#11 ↔
      bits.toNat / hiddenBit % Nat.pow 2 11 = Nat.pow 2 11 - 1 := by
    rw [← BitVec.toNat_inj, hexponent]
    rfl
  rw [ofBits, UnpackedFloat.unpack]
  dsimp only
  by_cases hg : bits.toNat / hiddenBit % Nat.pow 2 11 = Nat.pow 2 11 - 1
  · rw [if_pos hg, if_pos (hgreatest.2 hg)]
    by_cases hz : bits.toNat % hiddenBit = 0
    · rw [if_pos hz, if_pos (hzero.2 hz)]
      rfl
    · rw [if_neg hz, if_neg (mt hzero.1 hz)]
      rfl
  · rw [if_neg hg, if_neg (mt hgreatest.1 hg)]
    by_cases hl : bits.toNat / hiddenBit % Nat.pow 2 11 = 0
    · rw [if_pos hl, if_pos (hleast.2 hl)]
      by_cases hz : bits.toNat % hiddenBit = 0
      · rw [dif_pos (hzero.2 hz), hz]
        simp [toRat?, unpackedRat?]
      · rw [dif_neg (mt hzero.1 hz), toRat?, unpackedRat?, unpackedSign_apply, hmantissa,
          hexponent, hl]
        rfl
    · rw [if_neg hl, if_neg (mt hleast.1 hl), toRat?, unpackedRat?, unpackedSign_apply,
        toNat_append_mantissa, hmantissa, hexponent]
      have hbias : leastExponent - 1 = -(Format.binary64.exponentBias +
          Format.binary64.mantissaBitsWithoutImplicit : Int) := rfl
      rw [hbias, neg_add_eq_sub]

end

/-- Decoding keeps the number. -/
theorem toRat?_ofFloat (x : Float) : (ofFloat x).toRat? = rational? x :=
  toRat?_ofBits x.toBits.toBitVec

/-! ## Whole numbers -/

/-- Division by a power of two answers if nothing remains. -/
theorem scaledDown_eq_some_iff {sign n : Int} {mantissa k : Nat} (hunit : sign.natAbs = 1) :
    (if 2 ^ k ∣ mantissa then some (sign * (mantissa / 2 ^ k)) else none) = some n ↔
      sign * mantissa = n * 2 ^ k := by
  have hpos : (2 : Int) ^ k ≠ 0 := pow_ne_zero k two_ne_zero
  by_cases hdvd : 2 ^ k ∣ mantissa
  · obtain ⟨c, rfl⟩ := hdvd
    have hquotient : ((2 ^ k * c : Nat) : Int) / 2 ^ k = c := by
      push_cast
      exact Int.mul_ediv_cancel_left c hpos
    rw [if_pos (Nat.dvd_mul_right _ c), Option.some_inj, hquotient, ← mul_left_inj' hpos]
    push_cast
    rw [mul_assoc, mul_comm (c : Int)]
  · rw [if_neg hdvd]
    refine iff_of_false nofun fun h => hdvd ⟨n.natAbs, ?_⟩
    have habs := congrArg Int.natAbs h
    rwa [Int.natAbs_mul, Int.natAbs_mul, hunit, one_mul, Int.natAbs_natCast, Int.natAbs_pow,
      mul_comm] at habs

theorem toInt?_eq_some_iff {parts : Binary64} {n : Int} :
    parts.toInt? = some n ↔ parts.toRat? = some (n : ℚ) := by
  cases parts with
  | nan => simp [toInt?, toRat?]
  | infinite negative => simp [toInt?, toRat?]
  | finite negative mantissa exponent =>
    have hcast : ((if negative then -1 else 1 : Int) : ℚ) = if negative then -1 else 1 := by
      split <;> simp
    have hunit : (if negative then -1 else 1 : Int).natAbs = 1 := by
      split <;> rfl
    rw [toRat?, ← hcast, Option.some_inj]
    simp only [toInt?]
    generalize (if negative then -1 else 1 : Int) = sign at hunit ⊢
    by_cases hexponent : 0 ≤ exponent
    · obtain ⟨k, rfl⟩ := Int.eq_ofNat_of_zero_le hexponent
      rw [if_pos hexponent, Option.some_inj, Int.toNat_natCast, Int.pow_eq, zpow_natCast, mul_assoc]
      exact_mod_cast Iff.rfl
    · obtain ⟨k, rfl⟩ := Int.exists_eq_neg_ofNat (Int.le_of_not_le hexponent)
      rw [if_neg hexponent, neg_neg, Int.toNat_natCast, Int.pow_eq, Nat.pow_eq,
        scaledDown_eq_some_iff hunit, zpow_neg, zpow_natCast, ← div_eq_mul_inv,
        div_eq_iff (pow_ne_zero k two_ne_zero)]
      exact_mod_cast Iff.rfl

/-- The whole number that a double-precision number is. -/
theorem toInt?_ofFloat_eq_some_iff {x : Float} {n : Int} :
    (ofFloat x).toInt? = some n ↔ rational? x = some (n : ℚ) := by
  rw [toInt?_eq_some_iff, toRat?_ofFloat]

end Binary64
end MessageTemplate
