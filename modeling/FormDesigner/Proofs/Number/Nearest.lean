import Mathlib.Algebra.Order.Field.Power
import Mathlib.Algebra.Order.Ring.Rat
import Mathlib.Tactic.Positivity
import Mathlib.Tactic.Ring
import FormDesigner.Number.Arithmetic
import FormDesigner.Proofs.Number.Whole

/-!
Rounding keeps the order.

The number nearest to a quotient depends on the quotient alone, and a larger quotient has no
smaller number.  So products and powers of ten keep the order of numbers as well, and whether
they are finite has to be looked at only for the largest ones.
-/

namespace FormDesigner

namespace Number

/-- The absolute value of a finite number. -/
def value (x : Number) : ℚ := x.significand * 2 ^ x.exponent

variable {num den other divisor : Nat} {x y : Number}

theorem isFinite_of_le (h : x.magnitude ≤ y.magnitude) (hfinite : y.isFinite = true) :
    x.isFinite = true :=
  decide_eq_true (h.trans_lt (of_decide_eq_true hfinite))

/-! ### Integers -/

theorem roundQuotient_cases (num den : Nat) :
    (roundQuotient num den = num / den ∧ 2 * (num % den) ≤ den) ∨
      (roundQuotient num den = num / den + 1 ∧ den ≤ 2 * (num % den)) := by
  unfold roundQuotient
  dsimp only
  split
  · next h =>
      simp only [Bool.or_eq_true, Bool.and_eq_true, decide_eq_true_eq] at h
      exact .inl ⟨rfl, by omega⟩
  · next h =>
      simp only [Bool.or_eq_true, Bool.and_eq_true, decide_eq_true_eq] at h
      exact .inr ⟨rfl, by omega⟩

theorem le_roundQuotient (hden : 0 < den) {n : Nat} (h : n * den ≤ num) :
    n ≤ roundQuotient num den := by
  have hfloor : n ≤ num / den := (Nat.le_div_iff_mul_le hden).mpr h
  rcases roundQuotient_cases num den with ⟨heq, _⟩ | ⟨heq, _⟩
  · omega
  · omega

theorem roundQuotient_le (hden : 0 < den) {n : Nat} (h : num ≤ n * den) :
    roundQuotient num den ≤ n := by
  have hparts := Nat.div_add_mod num den
  rcases roundQuotient_cases num den with ⟨heq, _⟩ | ⟨heq, hhalf⟩
  · rw [heq]
    exact Nat.div_le_of_le_mul (by rwa [Nat.mul_comm])
  · -- What is rounded up is no multiple of the denominator.
    have hbelow : den * (num / den) < den * n := by
      rw [Nat.mul_comm den n]
      omega
    rw [heq]
    exact Nat.lt_of_mul_lt_mul_left hbelow

theorem div_le_roundQuotient (num den : Nat) : num / den ≤ roundQuotient num den := by
  rcases roundQuotient_cases num den with ⟨heq, _⟩ | ⟨heq, _⟩
  · omega
  · omega

theorem roundQuotient_le_succ (num den : Nat) : roundQuotient num den ≤ num / den + 1 := by
  rcases roundQuotient_cases num den with ⟨heq, _⟩ | ⟨heq, _⟩
  · omega
  · omega

/-- A larger quotient is rounded to no smaller integer. -/
theorem roundQuotient_mono (hden : 0 < den) (hdivisor : 0 < divisor)
    (h : num * divisor ≤ other * den) :
    roundQuotient num den ≤ roundQuotient other divisor := by
  have hparts := Nat.div_add_mod num den
  have hothers := Nat.div_add_mod other divisor
  have hfloor : num / den ≤ other / divisor := by
    rw [Nat.le_div_iff_mul_le hdivisor]
    have hbelow : num / den * divisor * den ≤ other * den :=
      calc num / den * divisor * den = num / den * den * divisor := Nat.mul_right_comm _ _ _
        _ ≤ num * divisor := Nat.mul_le_mul_right _ (Nat.div_mul_le_self num den)
        _ ≤ other * den := h
    exact Nat.le_of_mul_le_mul_right hbelow hden
  rcases Nat.lt_or_eq_of_le hfloor with hless | hsame
  · exact (roundQuotient_le_succ num den).trans
      (Nat.le_trans hless (div_le_roundQuotient other divisor))
  · -- With one integer part the rests decide, and they are in the same order.
    have hrests : num % den * divisor ≤ other % divisor * den := by
      have hsum : den * (num / den) * divisor + num % den * divisor ≤
          divisor * (other / divisor) * den + other % divisor * den := by
        rw [← Nat.add_mul, ← Nat.add_mul, hparts, hothers]
        exact h
      have hwhole : den * (num / den) * divisor = divisor * (other / divisor) * den := by
        rw [hsame]
        ring
      omega
    unfold roundQuotient
    dsimp only
    rw [← hsame]
    split
    · split
      · exact Nat.le_refl _
      · exact Nat.le_succ _
    · next hup =>
        rw [if_neg]
        simp only [Bool.or_eq_true, Bool.and_eq_true, decide_eq_true_eq, not_or, not_and,
          Nat.not_lt] at hup ⊢
        have hdouble : den * divisor ≤ 2 * (other % divisor) * den :=
          calc den * divisor ≤ 2 * (num % den) * divisor := Nat.mul_le_mul_right _ hup.1
            _ = 2 * (num % den * divisor) := Nat.mul_assoc _ _ _
            _ ≤ 2 * (other % divisor * den) := Nat.mul_le_mul_left _ hrests
            _ = 2 * (other % divisor) * den := (Nat.mul_assoc _ _ _).symm
        refine ⟨Nat.le_of_mul_le_mul_left (by rwa [Nat.mul_comm _ den] at hdouble) hden, ?_⟩
        intro htie
        refine hup.2 (Nat.le_antisymm ?_ hup.1)
        have htied : 2 * (num % den) * divisor ≤ den * divisor :=
          calc 2 * (num % den) * divisor = 2 * (num % den * divisor) := Nat.mul_assoc _ _ _
            _ ≤ 2 * (other % divisor * den) := Nat.mul_le_mul_left _ hrests
            _ = 2 * (other % divisor) * den := (Nat.mul_assoc _ _ _).symm
            _ = den * divisor := by rw [htie, Nat.mul_comm]
        exact Nat.le_of_mul_le_mul_right htied hdivisor

/-! ### Places -/

/-- A power of an integer, in natural numbers. -/
theorem natCast_zpow {base : Nat} (hbase : base ≠ 0) (place : Int) :
    (base : ℚ) ^ place = (base ^ place.toNat : Nat) / (base ^ (-place).toNat : Nat) := by
  rw [Nat.cast_pow, Nat.cast_pow, ← zpow_natCast, ← zpow_natCast,
    ← zpow_sub₀ (Nat.cast_ne_zero.mpr hbase)]
  congr 1
  omega

theorem two_zpow (place : Int) :
    (2 : ℚ) ^ place = (2 ^ place.toNat : Nat) / (2 ^ (-place).toNat : Nat) := by
  exact_mod_cast natCast_zpow two_ne_zero place

/-- A quotient is at least a power of two. -/
theorem two_zpow_le_iff (num : Nat) (hden : 0 < den) (place : Int) :
    (2 : ℚ) ^ place ≤ num / den ↔ den * 2 ^ place.toNat ≤ num * 2 ^ (-place).toNat := by
  have hpower : (0 : ℚ) < (2 ^ (-place).toNat : Nat) := by positivity
  rw [two_zpow, div_le_div_iff₀ hpower (Nat.cast_pos.mpr hden), mul_comm]
  norm_cast

theorem log2_le_quotient (hnum : num ≠ 0) (hden : 0 < den) :
    (2 : ℚ) ^ ((num.log2 : Int) - den.log2 - 1) ≤ num / den := by
  have hlow : (2 : ℚ) ^ num.log2 ≤ num := by exact_mod_cast Nat.log2_self_le hnum
  have hhigh : (den : ℚ) ≤ 2 ^ (den.log2 + 1) := by exact_mod_cast Nat.lt_log2_self.le
  have hpower :
      (2 : ℚ) ^ ((num.log2 : Int) - den.log2 - 1) = 2 ^ num.log2 / 2 ^ (den.log2 + 1) := by
    rw [sub_sub, zpow_sub₀ two_ne_zero]
    norm_cast
  rw [hpower]
  exact div_le_div₀ (Nat.cast_nonneg num) hlow (Nat.cast_pos.mpr hden) hhigh

theorem quotient_lt_log2 (num : Nat) (hden : 0 < den) :
    (num / den : ℚ) < 2 ^ ((num.log2 : Int) - den.log2 + 1) := by
  have hhigh : (num : ℚ) < 2 ^ (num.log2 + 1) := by exact_mod_cast Nat.lt_log2_self
  have hlow : (2 : ℚ) ^ den.log2 ≤ den := by exact_mod_cast Nat.log2_self_le hden.ne'
  have hpower :
      (2 : ℚ) ^ ((num.log2 : Int) - den.log2 + 1) = 2 ^ (num.log2 + 1) / 2 ^ den.log2 := by
    rw [sub_add_eq_add_sub, zpow_sub₀ two_ne_zero]
    norm_cast
  rw [hpower]
  exact div_lt_div₀ hhigh hlow (by positivity) (by positivity)

/-- The place of the last binary digit of a quotient that is rounded to 53 digits, or the
smallest place there is. -/
structure IsLastPlace (quotient : ℚ) (place : Int) : Prop where
  smallest : -1074 ≤ place
  below : quotient < 2 ^ (place + 53)
  reached : place = -1074 ∨ 2 ^ (place + 52) ≤ quotient

theorem isLastPlace_lastPlace (hnum : num ≠ 0) (hden : 0 < den) :
    IsLastPlace (num / den) (lastPlace num den) := by
  have hlow := log2_le_quotient hnum hden
  have hhigh := quotient_lt_log2 num hden
  have hreached := two_zpow_le_iff num hden ((num.log2 : Int) - den.log2)
  unfold lastPlace
  dsimp only
  generalize (num.log2 : Int) - den.log2 = guess at hlow hhigh hreached
  have hguess : (if 0 ≤ guess then den * 2 ^ guess.toNat ≤ num
      else den ≤ num * 2 ^ (-guess).toNat) ↔ (2 : ℚ) ^ guess ≤ num / den := by
    rw [hreached]
    split
    · next hpositive => rw [Int.toNat_of_nonpos (by omega : -guess ≤ 0), Nat.pow_zero, Nat.mul_one]
    · next hnegative => rw [Int.toNat_of_nonpos (by omega : guess ≤ 0), Nat.pow_zero, Nat.mul_one]
  have hmore : ∀ {lower upper : Int}, lower ≤ upper → (2 : ℚ) ^ lower ≤ 2 ^ upper :=
    fun h => zpow_le_zpow_right₀ one_le_two h
  simp only [hguess]
  split
  · next hle =>
      refine ⟨le_max_left _ _, hhigh.trans_le (hmore (by omega)), ?_⟩
      rcases le_total (guess - 52) (-1074) with hsmall | hlarge
      · exact .inl (max_eq_left hsmall)
      · rw [max_eq_right hlarge, sub_add_cancel]
        exact .inr hle
  · next hlt =>
      refine ⟨le_max_left _ _, (not_le.mp hlt).trans_le (hmore (by omega)), ?_⟩
      rcases le_total (guess - 53) (-1074) with hsmall | hlarge
      · exact .inl (max_eq_left hsmall)
      · rw [max_eq_right hlarge]
        exact .inr ((hmore (by omega)).trans hlow)

theorem IsLastPlace.mono {quotient more : ℚ} {place next : Int} (h : IsLastPlace quotient place)
    (hnext : IsLastPlace more next) (hle : quotient ≤ more) : place ≤ next := by
  rcases h.reached with rfl | hreached
  · exact hnext.smallest
  · have hpowers : (2 : ℚ) ^ (place + 52) < 2 ^ (next + 53) :=
      (hreached.trans hle).trans_lt hnext.below
    have hplaces := (zpow_lt_zpow_iff_right₀ one_lt_two).mp hpowers
    omega

/-- How many units of a place a quotient is rounded to. -/
def units (num den : Nat) (place : Int) : Nat :=
  roundQuotient (num * 2 ^ (-place).toNat) (den * 2 ^ place.toNat)

section Units

variable (hden : 0 < den) {place : Int} {n : Nat}

include hden

theorem le_units (h : (n * 2 ^ place : ℚ) ≤ num / den) : n ≤ units num den place := by
  have hpower : (0 : ℚ) < (2 ^ (-place).toNat : Nat) := by positivity
  apply le_roundQuotient (Nat.mul_pos hden (Nat.two_pow_pos _))
  rw [two_zpow, ← mul_div_assoc, div_le_div_iff₀ hpower (Nat.cast_pos.mpr hden)] at h
  have hcross : n * 2 ^ place.toNat * den ≤ num * 2 ^ (-place).toNat := by exact_mod_cast h
  rwa [Nat.mul_assoc, Nat.mul_comm _ den] at hcross

theorem units_le (h : (num / den : ℚ) ≤ n * 2 ^ place) : units num den place ≤ n := by
  have hpower : (0 : ℚ) < (2 ^ (-place).toNat : Nat) := by positivity
  apply roundQuotient_le (Nat.mul_pos hden (Nat.two_pow_pos _))
  rw [two_zpow, ← mul_div_assoc, div_le_div_iff₀ (Nat.cast_pos.mpr hden) hpower] at h
  have hcross : num * 2 ^ (-place).toNat ≤ n * 2 ^ place.toNat * den := by exact_mod_cast h
  rwa [Nat.mul_assoc, Nat.mul_comm _ den] at hcross

theorem units_mono (hdivisor : 0 < divisor) (h : (num / den : ℚ) ≤ other / divisor) :
    units num den place ≤ units other divisor place := by
  rw [div_le_div_iff₀ (Nat.cast_pos.mpr hden) (Nat.cast_pos.mpr hdivisor)] at h
  have hcross : num * divisor ≤ other * den := by exact_mod_cast h
  apply roundQuotient_mono (Nat.mul_pos hden (Nat.two_pow_pos _))
    (Nat.mul_pos hdivisor (Nat.two_pow_pos _))
  rw [Nat.mul_mul_mul_comm, Nat.mul_mul_mul_comm other]
  exact Nat.mul_le_mul_right _ hcross

end Units

namespace IsLastPlace

variable {place : Int} (h : IsLastPlace (num / den) place)

include h

/-- A number has at most 53 binary digits, or it is the next power of two. -/
theorem units_le (hden : 0 < den) : units num den place ≤ 2 ^ 53 := by
  apply Number.units_le hden
  have hbelow := h.below.le
  rw [add_comm, zpow_add₀ two_ne_zero] at hbelow
  exact_mod_cast hbelow

/-- Above the smallest place a number has all 53 digits. -/
theorem le_units (hden : 0 < den) (hplace : -1074 < place) : 2 ^ 52 ≤ units num den place := by
  apply Number.le_units hden
  have hreached := h.reached.resolve_left hplace.ne'
  rw [add_comm, zpow_add₀ two_ne_zero] at hreached
  exact_mod_cast hreached

end IsLastPlace

theorem magnitude_nearest (negative : Bool) (hnum : num ≠ 0) :
    (nearest negative num den).magnitude = min infinityBits
      ((lastPlace num den + 1074).toNat * 2 ^ 52 + units num den (lastPlace num den)) := by
  have hbound : infinityBits < 2 ^ 63 := by decide
  rw [nearest, if_neg hnum]
  exact magnitude_ofMagnitude negative ((min_le_left _ _).trans_lt hbound)

/-- A larger quotient has no smaller number nearest to it. -/
theorem magnitude_nearest_mono {negative negated : Bool} (hden : 0 < den) (hdivisor : 0 < divisor)
    (h : (num / den : ℚ) ≤ other / divisor) :
    (nearest negative num den).magnitude ≤ (nearest negated other divisor).magnitude := by
  by_cases hnum : num = 0
  · rw [hnum, nearest, if_pos rfl, magnitude_ofMagnitude negative (by decide)]
    exact Nat.zero_le _
  have hother : other ≠ 0 := by
    rintro rfl
    rw [Nat.cast_zero, zero_div] at h
    have hpositive : (0 : ℚ) < num / den :=
      div_pos (Nat.cast_pos.mpr (Nat.pos_of_ne_zero hnum)) (Nat.cast_pos.mpr hden)
    exact absurd h hpositive.not_ge
  have hplace := isLastPlace_lastPlace hnum hden
  have hnext := isLastPlace_lastPlace hother hdivisor
  rw [magnitude_nearest negative hnum, magnitude_nearest negated hother]
  apply min_le_min_left
  have hsmallest := hplace.smallest
  rcases lt_or_eq_of_le (hplace.mono hnext h) with hless | hsame
  · -- At the next place the number starts where those of this place end.
    have hend := hplace.units_le hden
    have hstart := hnext.le_units hdivisor (hsmallest.trans_lt hless)
    omega
  · rw [hsame]
    exact Nat.add_le_add_left (units_mono hden hdivisor h) _

/-! ### Values -/

theorem significand_lt (x : Number) : x.significand < 2 ^ 53 := by
  unfold significand biasedExponent
  split
  · omega
  · omega

theorem smallest_le_exponent (x : Number) : -1074 ≤ x.exponent := by
  unfold exponent
  split
  · exact le_refl _
  · omega

/-- Only at the smallest place a number has fewer than 53 digits. -/
theorem le_significand (h : -1074 < x.exponent) : 2 ^ 52 ≤ x.significand := by
  unfold exponent at h
  unfold significand
  split
  · next hsubnormal =>
      rw [if_pos hsubnormal] at h
      exact absurd h (lt_irrefl _)
  · exact Nat.le_add_right _ _

section Order

variable (h : x.magnitude ≤ y.magnitude)

include h

theorem exponent_mono : x.exponent ≤ y.exponent := by
  unfold exponent biasedExponent
  split
  · split
    · omega
    · omega
  · split
    · omega
    · omega

theorem significand_mono (hsame : x.exponent = y.exponent) : x.significand ≤ y.significand := by
  unfold exponent biasedExponent at hsame
  unfold significand biasedExponent
  split
  · split
    · omega
    · omega
  · split
    · omega
    · omega

/-- The values are in the order of the magnitudes. -/
theorem value_mono : x.value ≤ y.value := by
  rcases lt_or_eq_of_le (exponent_mono h) with hless | hsame
  · have hsmall : (x.significand : ℚ) ≤ 2 ^ 53 := by exact_mod_cast x.significand_lt.le
    have hlarge : (2 ^ 52 : ℚ) ≤ y.significand := by
      exact_mod_cast le_significand (x.smallest_le_exponent.trans_lt hless)
    calc x.value ≤ 2 ^ 53 * 2 ^ x.exponent := mul_le_mul_of_nonneg_right hsmall (by positivity)
      _ = 2 ^ 52 * 2 ^ (x.exponent + 1) := by
        rw [zpow_add_one₀ two_ne_zero]
        ring
      _ ≤ 2 ^ 52 * 2 ^ y.exponent :=
        mul_le_mul_of_nonneg_left (zpow_le_zpow_right₀ one_le_two hless) (by positivity)
      _ ≤ y.value := mul_le_mul_of_nonneg_right hlarge (by positivity)
  · rw [value, value, hsame]
    exact mul_le_mul_of_nonneg_right (Nat.cast_le.mpr (significand_mono h hsame)) (by positivity)

end Order

theorem value_nonneg (x : Number) : 0 ≤ x.value := by
  rw [value]
  positivity

/-- The exponent of a number is its last place. -/
theorem isLastPlace_exponent (x : Number) : IsLastPlace x.value x.exponent where
  smallest := x.smallest_le_exponent
  below := by
    have hdigits : (x.significand : ℚ) < 2 ^ 53 := by exact_mod_cast x.significand_lt
    rw [value, add_comm, zpow_add₀ two_ne_zero]
    exact mul_lt_mul_of_pos_right (by exact_mod_cast hdigits) (by positivity)
  reached := by
    rcases x.smallest_le_exponent.eq_or_lt with hsame | hless
    · exact .inl hsame.symm
    · have hdigits : (2 ^ 52 : ℚ) ≤ x.significand := by exact_mod_cast le_significand hless
      rw [value, add_comm, zpow_add₀ two_ne_zero]
      exact .inr (mul_le_mul_of_nonneg_right (by exact_mod_cast hdigits) (by positivity))

/-- A number is the nearest one to its own value. -/
theorem magnitude_nearest_value (negative : Bool) (hx : x.isFinite = true) (hden : 0 < den)
    (h : (num / den : ℚ) = x.value) : (nearest negative num den).magnitude = x.magnitude := by
  have hless : x.magnitude < infinityBits := of_decide_eq_true hx
  by_cases hnum : num = 0
  · have hdigits : x.significand = 0 := by
      rw [hnum, Nat.cast_zero, zero_div, value, eq_comm, mul_eq_zero] at h
      exact Nat.cast_eq_zero.mp (h.resolve_right (zpow_ne_zero _ two_ne_zero))
    rw [hnum, nearest, if_pos rfl, magnitude_ofMagnitude negative (by decide)]
    unfold significand at hdigits
    split at hdigits
    · exact hdigits.symm
    · omega
  · have hplace : lastPlace num den = x.exponent := by
      have hfirst := isLastPlace_lastPlace hnum hden
      have hsecond := h ▸ x.isLastPlace_exponent
      exact le_antisymm (hfirst.mono hsecond (le_refl _)) (hsecond.mono hfirst (le_refl _))
    have hunits : units num den x.exponent = x.significand :=
      le_antisymm (units_le hden h.le) (le_units hden h.ge)
    rw [magnitude_nearest negative hnum, hplace, hunits]
    unfold exponent significand biasedExponent
    split
    · omega
    · omega

/-- What is rounded from no more than a finite number is finite. -/
theorem isFinite_nearest (negative : Bool) (hx : x.isFinite = true) (hden : 0 < den)
    (h : (num / den : ℚ) ≤ x.value) : (nearest negative num den).isFinite = true := by
  have hpower : 0 < 2 ^ (-x.exponent).toNat := Nat.two_pow_pos _
  have hvalue : ((x.significand * 2 ^ x.exponent.toNat : Nat) : ℚ) /
      ((2 ^ (-x.exponent).toNat : Nat) : ℚ) = x.value := by
    rw [Nat.cast_mul, mul_div_assoc, ← two_zpow, value]
  have hmono : (nearest negative num den).magnitude ≤ (nearest false _ _).magnitude :=
    magnitude_nearest_mono hden hpower (hvalue.symm ▸ h)
  rw [magnitude_nearest_value false hx hpower hvalue] at hmono
  exact isFinite_of_le hmono hx

/-! ### Products and quotients -/

/-- The fraction that a product is rounded from is the product of the values. -/
theorem product_eq (x y : Number) :
    (((x.significand * y.significand * 2 ^ (x.exponent + y.exponent).toNat : Nat) : ℚ) /
      ((2 ^ (-(x.exponent + y.exponent)).toNat : Nat) : ℚ)) = x.value * y.value := by
  rw [Nat.cast_mul, mul_div_assoc, ← two_zpow, zpow_add₀ two_ne_zero, value, value, Nat.cast_mul]
  ring

theorem magnitude_times_mono {x' y' : Number} (hx : x.magnitude ≤ x'.magnitude)
    (hy : y.magnitude ≤ y'.magnitude) : (x.times y).magnitude ≤ (x'.times y').magnitude := by
  apply magnitude_nearest_mono (Nat.two_pow_pos _) (Nat.two_pow_pos _)
  rw [product_eq, product_eq]
  exact mul_le_mul (value_mono hx) (value_mono hy) y.value_nonneg x'.value_nonneg

theorem magnitude_powerOfTen_mono {places more : Nat} (h : places ≤ more) :
    (powerOfTen places).magnitude ≤ (powerOfTen more).magnitude := by
  apply magnitude_nearest_mono Nat.one_pos Nat.one_pos
  rw [Nat.cast_one, div_one, div_one]
  exact_mod_cast Nat.pow_le_pow_right (by decide) h

end Number

end FormDesigner
