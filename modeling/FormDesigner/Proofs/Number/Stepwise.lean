import FormDesigner.Number.Stepwise
import FormDesigner.Proofs.Number.Nearest

/-!
Literals that are read in steps as finite numbers.

Division makes no number larger.  A power of ten that is multiplied can lead beyond the largest
number, because what was gathered is rounded before; but that takes a literal that is nearer to
the largest number than the number below it.
-/

namespace FormDesigner

namespace Number

variable {x y : Number}

/-- The fraction that a quotient is rounded from is the quotient of the values. -/
theorem quotient_eq (x y : Number) :
    (((x.significand * 2 ^ (x.exponent - y.exponent).toNat : Nat) : ℚ) /
      ((y.significand * 2 ^ (-(x.exponent - y.exponent)).toNat : Nat) : ℚ)) =
    x.value / y.value := by
  rw [Nat.cast_mul, Nat.cast_mul, mul_div_mul_comm, ← two_zpow, zpow_sub₀ two_ne_zero, value, value,
    mul_div_mul_comm]

/-- Division by at least one makes no number larger. -/
theorem isFinite_dividedBy (hx : x.isFinite = true) (hy : 1 ≤ y.value) :
    (x.dividedBy y).isFinite = true := by
  have hpositive : 0 < y.significand := by
    rw [Nat.pos_iff_ne_zero]
    intro hzero
    rw [value, hzero, Nat.cast_zero, zero_mul] at hy
    exact absurd hy zero_lt_one.not_ge
  apply isFinite_nearest _ hx (Nat.mul_pos hpositive (Nat.two_pow_pos _))
  rw [quotient_eq]
  exact div_le_self x.value_nonneg hy

theorem one_le_powerOfTen (places : Nat) : 1 ≤ (powerOfTen places).value := by
  have hone : (powerOfTen 0).value = 1 := by
    have hdigits : (powerOfTen 0).significand = 2 ^ 52 := by decide +kernel
    have hplace : (powerOfTen 0).exponent = -52 := by decide +kernel
    rw [value, hdigits, hplace]
    norm_num
  rw [← hone]
  exact value_mono (magnitude_powerOfTen_mono (Nat.zero_le places))

theorem isFinite_lower (h : x.isFinite = true) (places : Nat) :
    (x.lower places).isFinite = true := by
  fun_induction lower x places with
  | case1 x places hfits => exact isFinite_dividedBy h (one_le_powerOfTen places)
  | case2 x places hlong hzero => exact h
  | case3 x places hlong hzero ih =>
      exact ih (isFinite_dividedBy h (one_le_powerOfTen largestPower))

/-- Half a unit of the last place below the largest number. -/
def safeLimit : Nat := (2 ^ 54 - 3) * 2 ^ 970

/-- With a large power of ten a number up to the limit is multiplied to a finite one. -/
theorem isFinite_largest_raise : ∀ more < 20,
    ((nearest false (safeLimit / 10 ^ (289 + more)) 1).times
      (powerOfTen (289 + more))).isFinite = true := by
  decide +kernel

theorem isFinite_raise {digits places : Nat} (negative : Bool) (hdigits : digits < 2 ^ 64)
    (h : digits * 10 ^ places ≤ safeLimit) :
    ((nearest negative digits 1).raise places).isFinite = true := by
  have hmono : ∀ {other : Nat}, digits ≤ other →
      (nearest negative digits 1).magnitude ≤ (nearest false other 1).magnitude := by
    intro other hle
    apply magnitude_nearest_mono Nat.one_pos Nat.one_pos
    rw [Nat.cast_one, div_one, div_one]
    exact_mod_cast hle
  unfold raise
  split
  · next hplaces =>
      rw [largestPower] at hplaces
      by_cases hsmall : places ≤ 288
      · have hfinite : ((nearest false (2 ^ 64) 1).times (powerOfTen 288)).isFinite = true := by
          decide +kernel
        exact isFinite_of_le
          (magnitude_times_mono (hmono hdigits.le) (magnitude_powerOfTen_mono hsmall)) hfinite
      · obtain ⟨more, rfl⟩ := Nat.exists_eq_add_of_le (Nat.lt_of_not_le hsmall)
        have hquotient : digits ≤ safeLimit / 10 ^ (289 + more) :=
          (Nat.le_div_iff_mul_le (Nat.pow_pos (by decide))).mpr h
        exact isFinite_of_le (magnitude_times_mono (hmono hquotient) (Nat.le_refl _))
          (isFinite_largest_raise more (by omega))
  · next hplaces =>
      -- Only zero stays below the limit with that power of ten.
      have hzero : digits = 0 := by
        by_contra hpositive
        have hpower : 10 ^ (largestPower + 1) ≤ 10 ^ places :=
          Nat.pow_le_pow_right (by decide) (Nat.lt_of_not_le hplaces)
        have hlarge : safeLimit < 10 ^ (largestPower + 1) := by decide +kernel
        have hless : 10 ^ places ≤ digits * 10 ^ places :=
          Nat.le_mul_of_pos_left _ (Nat.pos_of_ne_zero hpositive)
        exact absurd (hlarge.trans_le (hpower.trans (hless.trans h))) (lt_irrefl _)
      have hisZero : (nearest negative 0 1).isZero = true := by
        rw [isZero, nearest, if_pos rfl, magnitude_ofMagnitude negative (by decide)]
        rfl
      rw [hzero, if_pos hisZero]
      exact of_decide_eq_true (by cases negative <;> decide)

theorem isFinite_nearest_digits {digits : Nat} (negative : Bool) (h : digits < 2 ^ 64) :
    (nearest negative digits 1).isFinite = true := by
  have hfinite : (nearest false (2 ^ 64) 1).isFinite = true := by decide +kernel
  refine isFinite_of_le (magnitude_nearest_mono Nat.one_pos Nat.one_pos ?_) hfinite
  rw [Nat.cast_one, div_one, div_one]
  exact_mod_cast h.le

theorem isFinite_shift {digits : Nat} (negative : Bool) (hdigits : digits < 2 ^ 64) {exponent : Int}
    (h : (digits * 10 ^ exponent : ℚ) ≤ safeLimit) :
    ((nearest negative digits 1).shift exponent).isFinite = true := by
  unfold shift
  split
  · exact isFinite_lower (isFinite_nearest_digits negative hdigits) _
  · next hnatural =>
      obtain ⟨places, rfl⟩ := Int.eq_ofNat_of_zero_le (Int.not_lt.mp hnatural)
      rw [zpow_natCast] at h
      exact isFinite_raise negative hdigits (by exact_mod_cast h)

end Number

/-! ### Literals -/

theorem foldl_appendDigit (value : Nat) (digits : List Char) :
    digits.foldl appendDigit value = value * 10 ^ digits.length + digitsValue digits := by
  induction digits generalizing value with
  | nil => simp [digitsValue]
  | cons digit rest ih =>
      rw [digitsValue, List.foldl_cons, List.foldl_cons, ih, ih (appendDigit 0 digit), appendDigit,
        appendDigit, List.length_cons, Nat.pow_succ]
      ring

theorem digitsValue_append (digits others : List Char) :
    digitsValue (digits ++ others) =
      digitsValue digits * 10 ^ others.length + digitsValue others := by
  rw [digitsValue, List.foldl_append, foldl_appendDigit]
  rfl

namespace DecimalLiteral

/-- What is gathered of the digits is no more than all of them. -/
theorem gather_le (value : Nat) (digits : List Char) :
    (gather value digits).1 * 10 ^ (gather value digits).2.length ≤
      digits.foldl appendDigit value := by
  induction digits generalizing value with
  | nil => simp [gather]
  | cons digit rest ih =>
      unfold gather
      split
      · exact ih _
      · rw [foldl_appendDigit]
        exact Nat.le_add_right _ _

/-- Digits that fit into 64 bits are all gathered. -/
theorem gather_of_lt {value : Nat} {digits : List Char}
    (h : digits.foldl appendDigit value < 2 ^ 64) :
    gather value digits = (digits.foldl appendDigit value, []) := by
  induction digits generalizing value with
  | nil => rfl
  | cons digit rest ih =>
      have hfits : appendDigit value digit < 2 ^ 64 := by
        rw [List.foldl_cons, foldl_appendDigit] at h
        have hless := Nat.le_mul_of_pos_right (appendDigit value digit)
          (Nat.pow_pos (by decide) : 0 < 10 ^ rest.length)
        omega
      rw [gather, if_pos hfits]
      exact ih h

/-- The absolute value of a literal. -/
def value (literal : DecimalLiteral) : ℚ :=
  digitsValue (literal.whole ++ literal.fraction.getD []) *
    10 ^ (literal.exponent.getD 0 - (literal.fraction.getD []).length)

/-- A literal up to the limit is read in steps as a finite number. -/
theorem isFinite_toNumberStepwise {literal : DecimalLiteral}
    (hwhole : digitsValue literal.whole < 2 ^ 64) (h : literal.value ≤ Number.safeLimit) :
    literal.toNumberStepwise.isFinite = true := by
  have hall : gather 0 literal.whole = (digitsValue literal.whole, []) := gather_of_lt hwhole
  unfold toNumberStepwise
  dsimp only
  rw [hall]
  dsimp only
  apply Number.isFinite_shift _ (gather_lt hwhole _)
  rw [value, digitsValue, List.foldl_append] at h
  have hle := gather_le (digitsValue literal.whole) (literal.fraction.getD [])
  have hshorter := (gather_suffix (digitsValue literal.whole) (literal.fraction.getD [])).length_le
  generalize gather (digitsValue literal.whole) (literal.fraction.getD []) = gathered
    at hle hshorter
  generalize literal.exponent.getD 0 = exponent at h
  generalize (literal.fraction.getD []).length = places at h hshorter
  have hexponent : exponent + (((([] : List Char).length : Nat) : Int) -
      ((places - gathered.2.length : Nat) : Int)) = gathered.2.length + (exponent - places) := by
    rw [List.length_nil]
    omega
  rw [hexponent, zpow_add₀ (by norm_num), ← mul_assoc, zpow_natCast]
  refine le_trans (mul_le_mul_of_nonneg_right ?_ (by positivity)) h
  exact_mod_cast hle

end DecimalLiteral

end FormDesigner
