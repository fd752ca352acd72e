import Mathlib.Tactic.ByContra
import FormDesigner.Number.Rounding

/-!
Whole numbers.

A whole number below 2 ^ 53 is the number nearest to its integer: the integer, shifted to 53
binary digits, is the significand.
-/

namespace FormDesigner

namespace Number

variable {x : Number}

theorem not_isNaN_of_isFinite (h : x.isFinite = true) : x.isNaN = false := by
  simp only [isFinite, decide_eq_true_eq] at h
  simp only [isNaN, decide_eq_false_iff_not]
  omega

theorem not_isInfinite_of_isFinite (h : x.isFinite = true) : x.isInfinite = false := by
  simp only [isFinite, decide_eq_true_eq] at h
  simp only [isInfinite, decide_eq_false_iff_not]
  omega

theorem isFinite_of_toInt? {n : Int} (h : x.toInt? = some n) : x.isFinite = true := by
  rw [toInt?] at h
  split at h
  · next hwhole =>
      rw [isWhole, Bool.and_eq_true] at hwhole
      exact hwhole.1
  · cases h

section Parts

variable (negative : Bool) {magnitude : Nat} (h : magnitude < 2 ^ 63)

include h

theorem toNat_bits_ofMagnitude : (ofMagnitude negative magnitude).bits.toNat =
    if negative then 2 ^ 63 + magnitude else magnitude := by
  rw [ofMagnitude, UInt64.toNat_ofNat']
  split
  · exact Nat.mod_eq_of_lt (by omega)
  · exact Nat.mod_eq_of_lt (by omega)

theorem magnitude_ofMagnitude : (ofMagnitude negative magnitude).magnitude = magnitude := by
  rw [Number.magnitude, toNat_bits_ofMagnitude negative h]
  split
  · omega
  · omega

theorem negative_ofMagnitude : (ofMagnitude negative magnitude).negative = negative := by
  rw [Number.negative, toNat_bits_ofMagnitude negative h]
  cases negative with
  | true => simp
  | false => simpa using h

end Parts

theorem magnitude_lt (x : Number) : x.magnitude < 2 ^ 63 := Nat.mod_lt _ (by decide)

/-- Numbers of the same sign and magnitude are equal, but for NaN. -/
theorem equals_ofMagnitude (h : x.isFinite = true) :
    (ofMagnitude x.negative x.magnitude).equals x = true := by
  have hmagnitude := magnitude_ofMagnitude x.negative x.magnitude_lt
  have hnegative := negative_ofMagnitude x.negative x.magnitude_lt
  have hnan : (ofMagnitude x.negative x.magnitude).isNaN = false := by
    rw [isNaN, hmagnitude]
    exact not_isNaN_of_isFinite h
  rw [equals, hnan, not_isNaN_of_isFinite h, rank, hnegative, hmagnitude]
  simp [rank]

theorem significand_of_normal (h : x.biasedExponent ≠ 0) :
    x.significand = 2 ^ 52 + x.magnitude % 2 ^ 52 := by
  rw [significand, if_neg h]

/-- A whole number without a leading digit is zero. -/
theorem magnitude_of_subnormal (hwhole : x.isWhole = true) (h : x.biasedExponent = 0) :
    x.magnitude = 0 := by
  have hexponent : x.exponent = -1074 := by rw [exponent, if_pos h]
  have hsmall : x.magnitude < 2 ^ 52 := by
    rw [biasedExponent] at h
    omega
  have hdivides : x.significand % 2 ^ (-x.exponent).toNat = 0 := by
    rw [isWhole, Bool.and_eq_true, Bool.or_eq_true, decide_eq_true_eq, decide_eq_true_eq]
      at hwhole
    exact hwhole.2.resolve_left (by omega)
  have hpower : 2 ^ 52 ≤ 2 ^ (-x.exponent).toNat :=
    Nat.pow_le_pow_right (by decide) (by omega)
  rw [significand, if_pos h, Nat.mod_eq_of_lt (Nat.lt_of_lt_of_le hsmall hpower)] at hdivides
  exact hdivides

/-- The significand of a whole number below 2 ^ 53 is its integer, shifted. -/
theorem exists_shift (hwhole : x.isWhole = true) (h : x.biasedExponent ≠ 0)
    (hsmall : x.floorAbs < 2 ^ 53) :
    ∃ places : Nat, x.exponent = -(places : Int) ∧ x.significand = x.floorAbs * 2 ^ places := by
  have hnormal := significand_of_normal h
  by_cases hexponent : 0 ≤ x.exponent
  · have hfloor : x.floorAbs = x.significand * 2 ^ x.exponent.toNat := by
      rw [floorAbs, if_pos hexponent]
    have hzero : x.exponent.toNat = 0 := by
      by_contra hpositive
      have hpower : 2 ^ 1 ≤ 2 ^ x.exponent.toNat :=
        Nat.pow_le_pow_right (by decide) (Nat.pos_of_ne_zero hpositive)
      have hlarge : 2 ^ 52 * 2 ^ 1 ≤ x.significand * 2 ^ x.exponent.toNat :=
        Nat.mul_le_mul (by omega) hpower
      omega
    refine ⟨0, by omega, ?_⟩
    rw [hfloor, hzero, Nat.pow_zero, Nat.mul_one, Nat.mul_one]
  · have hfloor : x.floorAbs = x.significand / 2 ^ (-x.exponent).toNat := by
      rw [floorAbs, if_neg hexponent]
    have hdivides : x.significand % 2 ^ (-x.exponent).toNat = 0 := by
      rw [isWhole, Bool.and_eq_true, Bool.or_eq_true, decide_eq_true_eq, decide_eq_true_eq]
        at hwhole
      exact hwhole.2.resolve_left hexponent
    refine ⟨(-x.exponent).toNat, by omega, ?_⟩
    rw [hfloor, Nat.div_mul_cancel (Nat.dvd_of_mod_eq_zero hdivides)]

/-- Rounding an integer below 2 ^ 53 shifts it to 53 binary digits. -/
theorem nearest_of_lt (negative : Bool) {n : Nat} (hpositive : n ≠ 0) (hsmall : n.log2 ≤ 52) :
    nearest negative n 1 = ofMagnitude negative
      (min infinityBits ((n.log2 + 1022) * 2 ^ 52 + n * 2 ^ (52 - n.log2))) := by
  have hplace : lastPlace n 1 = (n.log2 : Int) - 52 := by
    have hreached : 1 * 2 ^ n.log2 ≤ n := by
      rw [Nat.one_mul]
      exact Nat.log2_self_le hpositive
    have hone : Nat.log2 1 = 0 := by decide
    rw [lastPlace, hone]
    simp only [Int.natCast_zero, Int.sub_zero, Int.natCast_nonneg, if_true, Int.toNat_natCast,
      hreached]
    omega
  have hunits : roundQuotient (n * 2 ^ (52 - n.log2)) 1 = n * 2 ^ (52 - n.log2) := by
    rw [roundQuotient]
    simp [Nat.mod_one]
  rw [nearest, if_neg hpositive, hplace]
  have hnegative : (-((n.log2 : Int) - 52)).toNat = 52 - n.log2 := by omega
  have hzero : ((n.log2 : Int) - 52).toNat = 0 := by omega
  have hbiased : ((n.log2 : Int) - 52 + 1074).toNat = n.log2 + 1022 := by omega
  simp only [hnegative, hzero, hbiased, Nat.pow_zero, Nat.mul_one, hunits]

/-- The magnitude of a whole number below 2 ^ 53 that is not zero, by its integer. -/
theorem magnitude_of_whole (hwhole : x.isWhole = true) (h : x.biasedExponent ≠ 0)
    (hsmall : x.floorAbs < 2 ^ 53) :
    x.floorAbs ≠ 0 ∧ x.floorAbs.log2 ≤ 52 ∧
      (x.floorAbs.log2 + 1022) * 2 ^ 52 + x.floorAbs * 2 ^ (52 - x.floorAbs.log2) =
        x.magnitude := by
  obtain ⟨places, hexponent, hshift⟩ := exists_shift hwhole h hsmall
  have hnormal := significand_of_normal h
  have hnonzero : x.floorAbs ≠ 0 := by
    intro hzero
    rw [hzero, Nat.zero_mul] at hshift
    omega
  -- The significand has 53 binary digits, which leaves one number of places.
  have hlow : 2 ^ (x.floorAbs.log2 + places) ≤ x.significand := by
    rw [hshift, Nat.pow_add]
    exact Nat.mul_le_mul_right _ (Nat.log2_self_le hnonzero)
  have hhigh : x.significand < 2 ^ (x.floorAbs.log2 + 1 + places) := by
    rw [hshift, Nat.pow_add]
    exact Nat.mul_lt_mul_of_pos_right Nat.lt_log2_self (Nat.two_pow_pos places)
  have hmod : x.magnitude % 2 ^ 52 < 2 ^ 52 := Nat.mod_lt _ (by decide)
  have hbelow : x.floorAbs.log2 + places < 53 :=
    (Nat.pow_lt_pow_iff_right (by decide)).1 (Nat.lt_of_le_of_lt hlow (by omega : _ < 2 ^ 53))
  have habove : 52 < x.floorAbs.log2 + 1 + places :=
    (Nat.pow_lt_pow_iff_right (by decide)).1 (Nat.lt_of_le_of_lt (by omega : 2 ^ 52 ≤ _) hhigh)
  have hplaces : 52 - x.floorAbs.log2 = places := by omega
  refine ⟨hnonzero, by omega, ?_⟩
  rw [hplaces, ← hshift, hnormal]
  rw [exponent, if_neg h] at hexponent
  rw [biasedExponent] at hexponent
  omega

/-- The number nearest to the integer of a whole number below 2 ^ 53 is equal to it. -/
theorem equals_ofInt {n : Int} (h : x.toInt? = some n) (hsmall : n.natAbs < 2 ^ 53) :
    (ofInt n).equals x = true := by
  have hfinite := isFinite_of_toInt? h
  rw [toInt?] at h
  split at h
  case isFalse => cases h
  case isTrue hwhole =>
  have hinteger : x.truncate = n := Option.some.inj h
  have hfloor : n.natAbs = x.floorAbs := by
    rw [← hinteger, truncate]
    split
    · omega
    · omega
  by_cases hbiased : x.biasedExponent = 0
  · have hzero := magnitude_of_subnormal hwhole hbiased
    have hnone : x.floorAbs = 0 := by
      rw [floorAbs, significand, if_pos hbiased, hzero]
      simp
    have hn : n = 0 := by omega
    have hrank : x.rank = 0 := by simp [rank, hzero]
    rw [hn, equals, hrank, not_isNaN_of_isFinite hfinite]
    decide
  · obtain ⟨hnonzero, hlog, hmagnitude⟩ := magnitude_of_whole hwhole hbiased (hfloor ▸ hsmall)
    have hsign : decide (n < 0) = x.negative := by
      rw [← hinteger, truncate]
      cases x.negative with
      | true => simpa using Nat.pos_of_ne_zero hnonzero
      | false => simp
    have hbound : x.magnitude ≤ infinityBits := Nat.le_of_lt (of_decide_eq_true hfinite)
    rw [ofInt, hfloor, hsign, nearest_of_lt _ hnonzero hlog, hmagnitude, Nat.min_eq_right hbound]
    exact equals_ofMagnitude hfinite

end Number

end FormDesigner
