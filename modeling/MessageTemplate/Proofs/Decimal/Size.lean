import MessageTemplate.Proofs.Decimal.Exact

/-!
# The sizes of double-precision numbers

Numbers are compared in their unpacked form, where the greater exponent decides.
This is right because unpacking gives each number its canonical mantissa and
exponent, and packing keeps these (`IsCanonical.unpack_pack`). So a comparison with
a power of two is one of the rational numbers that are meant (`abs_lt_iff`).
-/

namespace MessageTemplate
namespace Binary64

open Float.Model

/-! ## Canonical forms -/

/-- The mantissas and exponents of unpacked numbers. Only the numbers nearest to zero have mantissas
without the hidden bit. -/
structure IsCanonical (mantissa : Nat) (exponent : Int) : Prop where
  lt : mantissa < 2 * hiddenBit
  least_le : leastExponent ≤ exponent
  le_greatest : exponent ≤ 971
  normal : hiddenBit ≤ mantissa ∨ exponent = leastExponent

theorem isCanonical_of_unpack {bits : BitVec 64} {sign : UnpackedFloat.Sign} {mantissa : Nat}
    {exponent : Int} {hpos : 0 < mantissa}
    (h : .unpack Format.binary64 bits = UnpackedFloat.finite sign mantissa exponent hpos) :
    IsCanonical mantissa exponent := by
  have hfraction : (@UnpackedFloat.unpackMantissa .binary64 bits).toNat < hiddenBit :=
    (@UnpackedFloat.unpackMantissa .binary64 bits).isLt
  have hbiased : (@UnpackedFloat.unpackExponent .binary64 bits).toNat < 2048 :=
    (@UnpackedFloat.unpackExponent .binary64 bits).isLt
  rw [UnpackedFloat.unpack] at h
  dsimp only at h
  split at h
  · split at h <;> contradiction
  next hgreatest =>
    split at h
    next hleast =>
      split at h
      · contradiction
      · obtain ⟨-, rfl, rfl⟩ := UnpackedFloat.finite.inj h
        rw [hleast]
        exact ⟨by omega, by decide, by decide, .inr rfl⟩
    next hleast =>
      obtain ⟨-, rfl, rfl⟩ := UnpackedFloat.finite.inj h
      rw [← BitVec.toNat_inj] at hgreatest hleast
      change ¬ (@UnpackedFloat.unpackExponent .binary64 bits).toNat = 2047 at hgreatest
      change ¬ (@UnpackedFloat.unpackExponent .binary64 bits).toNat = 0 at hleast
      have hbias : (Format.binary64.exponentBias +
          Format.binary64.mantissaBitsWithoutImplicit : Int) = 1075 := rfl
      have hleastExponent : leastExponent = -1074 := rfl
      rw [toNat_append_mantissa, hbias]
      exact ⟨by omega, by omega, by omega, .inl (Nat.le_add_right _ _)⟩

/-! ## Packing -/

theorem ofBitVec_unpackSign_packComponents (sign : UnpackedFloat.Sign) (exponent : BitVec 11)
    (mantissa : BitVec 52) :
    UnpackedFloat.Sign.ofBitVec (@UnpackedFloat.unpackSign .binary64
      (UnpackedFloat.packComponents .binary64 sign exponent mantissa)) = sign := by
  have hbit : @UnpackedFloat.unpackSign .binary64
      (UnpackedFloat.packComponents .binary64 sign exponent mantissa) = sign.toBitVec := by
    rw [UnpackedFloat.unpackSign, UnpackedFloat.packComponents, BitVec.extractLsb,
      BitVec.extractLsb'_append_eq_of_le (Nat.le_add_right _ _),
      BitVec.extractLsb'_append_eq_of_le (by decide)]
    ext i hi
    simp
  rw [hbit]
  cases sign <;> rfl

theorem finite_congr {sign : UnpackedFloat.Sign} {mantissa other : Nat} {exponent place : Int}
    {hpos : 0 < mantissa} {hother : 0 < other} (hmantissa : mantissa = other)
    (hexponent : exponent = place) :
    UnpackedFloat.finite sign mantissa exponent hpos = .finite sign other place hother := by
  subst hmantissa hexponent
  rfl

section

variable {sign : UnpackedFloat.Sign} {mantissa : Nat} {exponent : Int}

/-- The hidden bit of a normal number is left out, and put back. -/
theorem unpack_pack_normal (hpos : 0 < mantissa) (hhidden : 2 ^ 52 ≤ mantissa)
    (hlt : mantissa < 2 ^ 53) (hleast : -1074 ≤ exponent) (hgreatest : exponent ≤ 971) :
    UnpackedFloat.unpack .binary64
      (UnpackedFloat.pack .binary64 (.finite sign mantissa exponent hpos)) =
        .finite sign mantissa exponent hpos := by
  have hlog : mantissa.log2 = 52 := (Nat.log2_eq_iff hpos.ne').2 ⟨hhidden, hlt⟩
  obtain ⟨biased, hbiased⟩ := Int.eq_ofNat_of_zero_le (a := exponent + 1075) (by omega)
  have hbias : exponent + Format.binary64.exponentBias +
      Format.binary64.mantissaBitsWithoutImplicit = biased := by
    change exponent + 1023 + 52 = _
    omega
  have hexponent : (BitVec.ofNat 11 biased).toNat = biased := by
    rw [BitVec.toNat_ofNat]
    omega
  have hfraction : (1#1 ++ BitVec.ofNat 52 mantissa).toNat = mantissa := by
    rw [toNat_append_mantissa, BitVec.toNat_ofNat]
    change 2 ^ 52 + mantissa % 2 ^ 52 = mantissa
    omega
  have hfinite : ¬ 2 ^ Format.binary64.exponentBits ≤ biased + 1 := by
    change ¬ 2048 ≤ biased + 1
    omega
  have hbits : 52 + 1 = Format.binary64.mantissaBits := rfl
  rw [UnpackedFloat.pack]
  dsimp only
  rw [hbias, hlog, Int.toNat_natCast, if_neg hfinite, if_pos hbits, UnpackedFloat.unpack]
  simp only [UnpackedFloat.unpackExponent_packComponents,
    UnpackedFloat.unpackMantissa_packComponents, ofBitVec_unpackSign_packComponents]
  rw [if_neg, if_neg]
  · apply finite_congr hfraction
    rw [hexponent]
    change (biased : Int) - 1075 = exponent
    omega
  · rw [← BitVec.toNat_inj, hexponent]
    change ¬ biased = 0
    omega
  · rw [← BitVec.toNat_inj, hexponent]
    change ¬ biased = 2047
    omega

/-- A number below the normal ones has no hidden bit. -/
theorem unpack_pack_subnormal (hpos : 0 < mantissa) (hlt : mantissa < 2 ^ 52) :
    UnpackedFloat.unpack .binary64
      (UnpackedFloat.pack .binary64 (.finite sign mantissa leastExponent hpos)) =
        .finite sign mantissa leastExponent hpos := by
  have hlog : mantissa.log2 < 52 := (Nat.log2_lt hpos.ne').2 hlt
  have hbias : leastExponent + Format.binary64.exponentBias +
      Format.binary64.mantissaBitsWithoutImplicit = 1 := rfl
  have hfraction : (BitVec.ofNat 52 mantissa).toNat = mantissa := by
    rw [BitVec.toNat_ofNat]
    omega
  have hfinite : ¬ 2 ^ Format.binary64.exponentBits ≤ 1 + 1 := by decide
  have hbits : ¬ mantissa.log2 + 1 = Format.binary64.mantissaBits := by
    change ¬ mantissa.log2 + 1 = 53
    omega
  rw [UnpackedFloat.pack]
  dsimp only
  rw [hbias, Int.toNat_one, if_neg hfinite, if_neg hbits, UnpackedFloat.unpack]
  simp only [UnpackedFloat.unpackExponent_packComponents,
    UnpackedFloat.unpackMantissa_packComponents, ofBitVec_unpackSign_packComponents]
  rw [if_neg (by decide), if_pos trivial, dif_neg]
  · exact finite_congr hfraction rfl
  · rw [← BitVec.toNat_inj, hfraction]
    exact hpos.ne'

theorem IsCanonical.unpack_pack (h : IsCanonical mantissa exponent) (hpos : 0 < mantissa) :
    UnpackedFloat.unpack .binary64
      (UnpackedFloat.pack .binary64 (.finite sign mantissa exponent hpos)) =
        .finite sign mantissa exponent hpos := by
  by_cases hhidden : hiddenBit ≤ mantissa
  · exact unpack_pack_normal hpos hhidden h.lt h.least_le h.le_greatest
  · obtain rfl := h.normal.resolve_left hhidden
    exact unpack_pack_subnormal hpos (Nat.lt_of_not_le hhidden)

end

/-- An absolute value has lost its sign and nothing else. -/
theorem unpack_abs (x : Float) : x.abs.toModel.unpack = x.toModel.unpack.abs := by
  change UnpackedFloat.unpack .binary64 (UnpackedFloat.pack .binary64 x.toModel.unpack.abs) = _
  cases h : x.toModel.unpack with
  | finite sign mantissa exponent hpos => exact (isCanonical_of_unpack h).unpack_pack hpos
  | zero sign => cases sign <;> rfl
  | infinity sign => cases sign <;> rfl
  | notANumber => rfl

theorem lt_iff {x y : Float} :
    x < y ↔ x.toModel.unpack.compare y.toModel.unpack = some .lt := by
  change decide (x.toModel < y.toModel) = true ↔ _
  rw [decide_eq_true_iff]
  exact beq_iff_eq

/-! ## Powers of two -/

section

variable {mantissa : Nat} {exponent place : Int}

/-- The exponent of a canonical form settles whether its size reaches a power of two. -/
theorem IsCanonical.size_lt_iff (h : IsCanonical mantissa exponent) (hplace : -1074 < place) :
    (mantissa : ℚ) * 2 ^ exponent < 2 ^ (52 + place) ↔ exponent < place := by
  rw [zpow_add₀ two_ne_zero]
  constructor
  · intro hsize
    by_contra hexponent
    have hne : exponent ≠ leastExponent := by
      change exponent ≠ -1074
      omega
    have hmantissa : (2 ^ (52 : Int) : ℚ) ≤ mantissa := by
      exact_mod_cast h.normal.resolve_right hne
    have hpower : (2 : ℚ) ^ place ≤ 2 ^ exponent :=
      zpow_le_zpow_right₀ one_le_two (not_lt.1 hexponent)
    have hle : (2 ^ (52 : Int) : ℚ) * 2 ^ place ≤ mantissa * 2 ^ exponent := by gcongr
    exact absurd hsize (not_lt.2 hle)
  · intro hexponent
    have hmantissa : (mantissa : ℚ) < 2 ^ (53 : Int) := by exact_mod_cast h.lt
    have hpower : (2 : ℚ) ^ exponent ≤ 2 ^ (place - 1) :=
      zpow_le_zpow_right₀ one_le_two (by omega)
    calc (mantissa : ℚ) * 2 ^ exponent ≤ mantissa * 2 ^ (place - 1) := by gcongr
      _ < 2 ^ (53 : Int) * 2 ^ (place - 1) := by gcongr
      _ = 2 ^ (52 : Int) * 2 ^ place := by
        rw [← zpow_add₀ two_ne_zero, ← zpow_add₀ two_ne_zero]
        congr 1
        omega

theorem IsCanonical.compare_eq_lt_iff {hpos : 0 < mantissa} {hhidden : 0 < 2 ^ 52}
    (h : IsCanonical mantissa exponent) (hplace : -1074 < place) :
    (UnpackedFloat.finite .positive mantissa exponent hpos).compare
      (.finite .positive (2 ^ 52) place hhidden) = some .lt ↔ exponent < place := by
  change some ((compare exponent place).then (compare mantissa (2 ^ 52))) = some .lt ↔ _
  rw [Option.some_inj, Ordering.then_eq_lt, compare_lt_iff_lt, compare_eq_iff_eq, compare_lt_iff_lt]
  refine or_iff_left ?_
  rintro ⟨rfl, hlt⟩
  rcases h.normal with hnormal | hleast
  · exact absurd hlt (not_lt.2 hnormal)
  · exact absurd hleast hplace.ne'

end

theorem abs_apply (sign : UnpackedFloat.Sign) (n : Nat) : |sign.apply n| = n := by
  cases sign with
  | negative => exact (abs_neg _).trans (Nat.abs_cast n)
  | positive => exact Nat.abs_cast n

/-- The numbers whose size is below a power of two are those that are rational numbers of such a
size. -/
theorem abs_lt_iff {x bound : Float} {place : Int} {hhidden : 0 < 2 ^ 52} (hplace : -1074 < place)
    (hbound : bound.toModel.unpack = .finite .positive (2 ^ 52) place hhidden) :
    x.abs < bound ↔ ∃ q, rational? x = some q ∧ |q| < 2 ^ (52 + place) := by
  rw [lt_iff, unpack_abs, hbound, rational?]
  cases h : x.toModel.unpack with
  | finite sign mantissa exponent hpos =>
    have hcanonical := isCanonical_of_unpack h
    have hsize : |(sign.apply mantissa : ℚ) * 2 ^ exponent| = mantissa * 2 ^ exponent := by
      rw [abs_mul, abs_zpow, abs_two, ← Int.cast_abs, abs_apply, Int.cast_natCast]
    rw [UnpackedFloat.abs, hcanonical.compare_eq_lt_iff hplace, ← hcanonical.size_lt_iff hplace,
      ← hsize]
    simp [unpackedRat?]
  | zero sign => exact iff_of_true rfl ⟨0, rfl, by rw [abs_zero]; positivity⟩
  | infinity sign => simp [UnpackedFloat.abs, UnpackedFloat.compare, unpackedRat?]
  | notANumber => simp [UnpackedFloat.abs, UnpackedFloat.compare, unpackedRat?]

end Binary64
end MessageTemplate
