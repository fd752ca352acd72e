import FormDesigner.Number.Digits
import FormDesigner.Proofs.Number.Stepwise

/-!
The size of the shortest decimal.

The shortest decimal that identifies a number is at most half a unit of the last place above
it.  So only the largest number has one beyond the limit up to which every literal is read as a
finite number, and that one decimal is known.
-/

namespace FormDesigner

namespace Decimal

/-- The rational number that a decimal stands for. -/
def value (decimal : Decimal) : ℚ := decimal.digits * 10 ^ decimal.exponent

/-- A decimal as a fraction of natural numbers. -/
theorem value_eq (decimal : Decimal) : decimal.value =
    (decimal.digits * 10 ^ decimal.exponent.toNat : Nat)
      / (10 ^ (-decimal.exponent).toNat : Nat) := by
  have hten := Number.natCast_zpow (by decide : 10 ≠ 0) decimal.exponent
  rw [Nat.cast_ofNat] at hten
  rw [value, hten, Nat.cast_mul, mul_div_assoc]

section Comparison

variable {decimal : Decimal} {m : Nat} {e : Int}

theorem value_le_of_compareTo (h : decimal.compareTo m e ≠ .gt) : decimal.value ≤ m * 2 ^ e := by
  rw [value_eq, Number.two_zpow, ← mul_div_assoc, div_le_div_iff₀ (by positivity) (by positivity)]
  exact_mod_cast Nat.compare_ne_gt.mp h

theorem le_value_of_compareTo (h : decimal.compareTo m e ≠ .lt) : m * 2 ^ e ≤ decimal.value := by
  rw [value_eq, Number.two_zpow, ← mul_div_assoc, div_le_div_iff₀ (by positivity) (by positivity)]
  exact_mod_cast Nat.compare_ne_lt.mp h

end Comparison

theorem value_stripZeros (bound : Nat) (decimal : Decimal) :
    (decimal.stripZeros bound).value = decimal.value := by
  fun_induction stripZeros bound decimal with
  | case1 decimal => rfl
  | case2 bound decimal hzero ih =>
      have hdigits : (decimal.digits : ℚ) = 10 * (decimal.digits / 10 : Nat) := by
        exact_mod_cast (Nat.mul_div_cancel' (Nat.dvd_of_mod_eq_zero hzero)).symm
      rw [ih, value, value, hdigits, zpow_add_one₀ (by norm_num)]
      ring
  | case3 bound decimal hzero => rfl

end Decimal

namespace Number

variable {x : Number}

/-- What reads back as a number lies at most half a unit of its last place above it. -/
theorem of_readsBack {decimal : Decimal} (hdigits : 0 < x.significand)
    (h : x.readsBack decimal = true) :
    0 < decimal.value ∧ decimal.value ≤ x.value + 2 ^ (x.exponent - 1) := by
  unfold readsBack at h
  simp only [Bool.and_eq_true, Bool.or_eq_true, beq_iff_eq, decide_eq_true_eq] at h
  obtain ⟨hlow, hhigh⟩ := h
  constructor
  · have hle := Decimal.le_value_of_compareTo (by
      rcases hlow with hgreater | ⟨-, hequal⟩
      · rw [hgreater]
        decide
      · rw [hequal]
        decide)
    refine lt_of_lt_of_le (mul_pos (Nat.cast_pos.mpr ?_) (by positivity)) hle
    split
    · omega
    · omega
  · have hle := Decimal.value_le_of_compareTo (by
      rcases hhigh with hless | ⟨-, hequal⟩
      · rw [hless]
        decide
      · rw [hequal]
        decide)
    refine hle.trans_eq ?_
    have hquarter : (2 : ℚ) ^ x.exponent = 4 * 2 ^ (x.exponent - 2) := by
      rw [zpow_sub₀ two_ne_zero]
      norm_num
      ring
    have hhalf : (2 : ℚ) ^ (x.exponent - 1) = 2 * 2 ^ (x.exponent - 2) := by
      rw [← zpow_one_add₀ two_ne_zero]
      congr 1
      ring
    rw [value, hquarter, hhalf]
    push_cast
    ring

theorem value_exactDecimal (x : Number) : x.exactDecimal.value = x.value := by
  rw [exactDecimal, Decimal.value, value]
  dsimp only
  rcases le_total 0 x.exponent with hnatural | hnegative
  · obtain ⟨places, hplaces⟩ := Int.eq_ofNat_of_zero_le hnatural
    rw [hplaces, min_eq_right (Int.natCast_nonneg places), zpow_natCast]
    simp
  · obtain ⟨places, hplaces⟩ := Int.eq_ofNat_of_zero_le (Int.neg_nonneg.mpr hnegative)
    have hexponent : x.exponent = -(places : Int) := by omega
    rw [min_eq_left hnegative, hexponent, Int.neg_neg, Int.toNat_natCast,
      Int.toNat_of_nonpos (by omega), zpow_neg, zpow_neg, zpow_natCast, zpow_natCast]
    have hten : (10 : ℚ) ^ places = 2 ^ places * 5 ^ places := by
      rw [← mul_pow]
      norm_num
    push_cast
    rw [hten, mul_inv, mul_one, mul_assoc, mul_left_comm (5 ^ places),
      mul_inv_cancel₀ (by positivity), mul_one]

theorem of_shortestAt {tie : Tie} {place : Int} {decimal : Decimal}
    (h : shortestAt tie x place = some decimal) : x.readsBack decimal = true := by
  unfold shortestAt at h
  dsimp only at h
  split at h
  · cases h
  · next hlow _ =>
      cases h
      exact hlow
  · next _ hhigh =>
      cases h
      exact hhigh
  · next hlow hhigh =>
      split at h
      · cases h
        exact hlow
      · cases h
        exact hhigh
      · split at h
        · cases h
          exact hhigh
        · cases h
          exact hlow

/-- The shortest decimal of a number is positive, and at most half a unit of its last place
above it. -/
theorem value_shortest (tie : Tie) (hdigits : 0 < x.significand) :
    0 < (x.shortest tie).value ∧ (x.shortest tie).value ≤ x.value + 2 ^ (x.exponent - 1) := by
  rw [shortest, if_neg hdigits.ne']
  dsimp only
  rw [Decimal.value_stripZeros]
  cases hfound : List.findSome? (shortestAt tie x)
      ((List.range 17).map fun length : Nat => x.decimalScale - length - 1) with
  | some decimal =>
      obtain ⟨place, -, hplace⟩ := List.exists_of_findSome?_eq_some hfound
      exact of_readsBack hdigits (of_shortestAt hplace)
  | none =>
      rw [Option.getD_none, value_exactDecimal]
      constructor
      · rw [value]
        positivity
      · exact le_add_of_nonneg_right (by positivity)

/-! ### The largest number -/

/-- A number is its sign and its magnitude. -/
theorem ofMagnitude_self (x : Number) : ofMagnitude x.negative x.magnitude = x := by
  have hbits := toNat_bits_ofMagnitude x.negative x.magnitude_lt
  have hsame : (ofMagnitude x.negative x.magnitude).bits = x.bits := by
    rw [← UInt64.toNat_inj, hbits]
    have hbound := x.bits.toNat_lt
    unfold negative magnitude
    split
    · next hlarge =>
        have := of_decide_eq_true hlarge
        omega
    · next hsmall =>
        have := of_decide_eq_false (Bool.eq_false_of_not_eq_true hsmall)
        omega
  cases x
  exact congrArg Number.mk hsame

/-- The last finite number. -/
def lastMagnitude : Nat := infinityBits - 1

/-- Only the last finite number has a shortest decimal beyond the limit. -/
theorem shortest_le (tie : Tie) (hdigits : 0 < x.significand) (h : x.magnitude < lastMagnitude) :
    (x.shortest tie).value ≤ safeLimit := by
  have hmagnitude : (ofMagnitude false (lastMagnitude - 1)).magnitude = lastMagnitude - 1 := by
    decide
  have hle : x.magnitude ≤ (ofMagnitude false (lastMagnitude - 1)).magnitude := by omega
  have hvalue := value_mono hle
  have hexponent := exponent_mono hle
  have hplace : (ofMagnitude false (lastMagnitude - 1)).exponent = 971 := by decide +kernel
  have hunits : (ofMagnitude false (lastMagnitude - 1)).significand = 2 ^ 53 - 2 := by
    decide +kernel
  have hbefore : (ofMagnitude false (lastMagnitude - 1)).value =
      ((2 ^ 53 - 2 : Nat) : ℚ) * 2 ^ (971 : Int) := by
    rw [value, hunits, hplace]
  rw [hbefore] at hvalue
  rw [hplace] at hexponent
  have hunit : (2 : ℚ) ^ (x.exponent - 1) ≤ 2 ^ (970 : Int) :=
    zpow_le_zpow_right₀ one_le_two (by omega)
  have hlimit : (safeLimit : ℚ) = ((2 ^ 54 - 3 : Nat) : ℚ) * 2 ^ (970 : Int) := by
    simp only [safeLimit, Nat.cast_mul, Nat.cast_pow, Nat.cast_ofNat, zpow_ofNat]
  have hdouble : (2 : ℚ) ^ (971 : Int) = 2 * 2 ^ (970 : Int) := by
    rw [← zpow_one_add₀ two_ne_zero]
    rfl
  rw [hdouble] at hvalue
  rw [hlimit]
  refine (value_shortest tie hdigits).2.trans ((add_le_add hvalue hunit).trans_eq ?_)
  generalize (2 : ℚ) ^ (970 : Int) = unit
  push_cast
  ring

end Number

end FormDesigner
