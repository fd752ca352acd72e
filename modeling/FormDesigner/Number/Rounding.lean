import FormDesigner.Number.Basic

/-!
The number nearest to a quotient or to a decimal.

Rounding is to nearest, and of two equally near numbers the one with the even
significand is taken.
-/

namespace FormDesigner

namespace Number

/-- `num / den` rounded to the nearest integer, halves to the even one. -/
def roundQuotient (num den : Nat) : Nat :=
  let quotient := num / den
  let twice := 2 * (num % den)
  if twice < den || (twice = den && quotient % 2 = 0) then quotient else quotient + 1

/-- The exponent of the last binary place that a number near `num / den` has. -/
def lastPlace (num den : Nat) : Int :=
  let guess : Int := (num.log2 : Int) - den.log2
  let reached :=
    if 0 ≤ guess then den * 2 ^ guess.toNat ≤ num
    else den ≤ num * 2 ^ (-guess).toNat
  max (-1074) (if reached then guess - 52 else guess - 53)

/-- The number nearest to `num / den`, for positive `den`. -/
def nearest (negative : Bool) (num den : Nat) : Number :=
  if num = 0 then ofMagnitude negative 0
  else
    let place := lastPlace num den
    let units := roundQuotient (num * 2 ^ (-place).toNat) (den * 2 ^ place.toNat)
    ofMagnitude negative (min infinityBits ((place + 1074).toNat * 2 ^ 52 + units))

/-- The number nearest to an integer. -/
def ofInt (n : Int) : Number :=
  nearest (n < 0) n.natAbs 1

/-- The number nearest to `digits * 10 ^ exponent`.  Beyond 10^309 all is
infinite and below 10^-324 all is zero, so no large power is formed there. -/
def ofDecimal (negative : Bool) (digits : Nat) (exponent : Int) : Number :=
  if digits = 0 then ofMagnitude negative 0
  else
    let length : Int := (Nat.toDigits 10 digits).length
    if 309 < length + exponent then infinity negative
    else if length + exponent ≤ -324 then ofMagnitude negative 0
    else nearest negative (digits * 10 ^ exponent.toNat) (10 ^ (-exponent).toNat)

end Number

end FormDesigner
