import FormDesigner.Number.Arithmetic
import FormDesigner.Number.Reader

/-!
Decimal literals read in steps of machine precision.

The digits are gathered in 64 bits, and digits that no longer fit are left
out.  What was gathered is rounded to a number, and the number is multiplied
or divided by powers of ten, each time rounded.  So the result can miss the
number nearest to the literal by its last places; literals of few digits and a
small exponent are read exactly.
-/

namespace FormDesigner

namespace Number

/-- The largest exponent of a power of ten that is a finite number. -/
def largestPower : Nat := 308

/-- Multiplies a number by a power of ten.  Only zero stays finite when the
power is none. -/
def raise (x : Number) (places : Nat) : Number :=
  if places ≤ largestPower then x.times (powerOfTen places)
  else if x.isZero then x
  else infinity x.negative

/-- Divides a number by a power of ten, by the largest one at a time. -/
def lower (x : Number) (places : Nat) : Number :=
  if places ≤ largestPower then x.dividedBy (powerOfTen places)
  else if x.isZero then x
  else lower (x.dividedBy (powerOfTen largestPower)) (places - largestPower)
termination_by places
decreasing_by simp only [largestPower] at *; omega

/-- Multiplies a number by a power of ten, or divides it by one. -/
def shift (x : Number) (exponent : Int) : Number :=
  if exponent < 0 then x.lower (-exponent).toNat else x.raise exponent.toNat

end Number

namespace DecimalLiteral

/-- Adds digits to a value as long as it fits into 64 bits.  The result is the
value and the digits that are left out. -/
def gather (value : Nat) : List Char → Nat × List Char
  | [] => (value, [])
  | digit :: rest =>
      if appendDigit value digit < 2 ^ 64 then gather (appendDigit value digit) rest
      else (value, digit :: rest)

/-- The number that a literal is read as in steps: each digit left out before
the point counts as a place, and each digit gathered behind it takes one
away. -/
def toNumberStepwise (literal : DecimalLiteral) : Number :=
  let fraction := literal.fraction.getD []
  let whole := gather 0 literal.whole
  let all := gather whole.1 fraction
  let places : Int := whole.2.length - (fraction.length - all.2.length : Nat)
  (Number.nearest (literal.sign = some '-') all.1 1).shift (literal.exponent.getD 0 + places)

/-- What is gathered fits into 64 bits. -/
theorem gather_lt {value : Nat} (h : value < 2 ^ 64) (digits : List Char) :
    (gather value digits).1 < 2 ^ 64 := by
  induction digits generalizing value with
  | nil => exact h
  | cons digit rest ih =>
      unfold gather
      split
      · next hfits => exact ih hfits
      · exact h

/-- The digits left out are the last ones. -/
theorem gather_suffix (value : Nat) (digits : List Char) :
    (gather value digits).2 <:+ digits := by
  induction digits generalizing value with
  | nil => exact List.suffix_refl []
  | cons digit rest ih =>
      unfold gather
      split
      · exact (ih _).trans (List.suffix_cons digit rest)
      · exact List.suffix_refl _

example :
    (DecimalLiteral.mk none ['0'] (some ['5']) none).toNumberStepwise
      = (DecimalLiteral.mk none ['0'] (some ['5']) none).toNumber := by
  decide +kernel

end DecimalLiteral

end FormDesigner
