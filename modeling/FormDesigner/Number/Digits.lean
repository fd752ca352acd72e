import FormDesigner.Number.Basic

/-!
The fewest decimal digits that identify a number.

The reals that round to a number form an interval around it.  For one digit,
two digits and so on, the two multiples of the last place on either side of
the number are tested against that interval; the first length with a hit
wins, and of two hits the nearer one.
-/

namespace FormDesigner

/-- The decimal `digits * 10 ^ exponent`. -/
structure Decimal where
  digits : Nat
  exponent : Int
  deriving DecidableEq, Repr

/-- What is done when two decimals of one length are equally near. -/
inductive Tie where
  | even
  | up
  deriving DecidableEq, Repr

namespace Decimal

/-- Compares `decimal` with `m * 2 ^ e` exactly. -/
def compareTo (decimal : Decimal) (m : Nat) (e : Int) : Ordering :=
  compare (decimal.digits * 10 ^ decimal.exponent.toNat * 2 ^ (-e).toNat)
    (m * 2 ^ e.toNat * 10 ^ (-decimal.exponent).toNat)

/-- Moves the zeros at the end of the digits into the exponent; `bound` limits
how many. -/
def stripZeros : Nat → Decimal → Decimal
  | 0, decimal => decimal
  | bound + 1, decimal =>
      if decimal.digits % 10 = 0 then
        stripZeros bound ⟨decimal.digits / 10, decimal.exponent + 1⟩
      else decimal

end Decimal

namespace Number

/-- The gap below a power of two is half the gap above it. -/
def narrowBelow (x : Number) : Bool :=
  x.magnitude % 2 ^ 52 = 0 && 1 < x.biasedExponent

/-- Whether `decimal` lies among the reals that round to the absolute value of
a finite number.  The ends belong to the interval when the significand is
even. -/
def readsBack (x : Number) (decimal : Decimal) : Bool :=
  let low := 4 * x.significand - (if x.narrowBelow then 1 else 2)
  let high := 4 * x.significand + 2
  let closed := x.significand % 2 = 0
  let atLow := decimal.compareTo low (x.exponent - 2)
  let atHigh := decimal.compareTo high (x.exponent - 2)
  (atLow == .gt || (closed && atLow == .eq)) && (atHigh == .lt || (closed && atHigh == .eq))

/-- The least `k` with the absolute value below `10 ^ k`, for a finite number
that is not zero. -/
def decimalScale (x : Number) : Int :=
  let guess : Int := Int.fdiv (((x.significand.log2 : Int) + x.exponent) * 30103) 100000
  if (Decimal.mk 1 (guess + 1)).compareTo x.significand x.exponent == .gt then guess + 1
  else guess + 2

/-- The nearer of the two multiples of `10 ^ place` around the absolute value
that reads back, if one does. -/
def shortestAt (tie : Tie) (x : Number) (place : Int) : Option Decimal :=
  let num := x.significand * 2 ^ x.exponent.toNat * 10 ^ (-place).toNat
  let den := 2 ^ (-x.exponent).toNat * 10 ^ place.toNat
  let low : Decimal := ⟨num / den, place⟩
  let high : Decimal := ⟨num / den + 1, place⟩
  match x.readsBack low, x.readsBack high with
  | false, false => none
  | true, false => some low
  | false, true => some high
  | true, true =>
      match compare (2 * num) ((2 * (num / den) + 1) * den) with
      | .lt => some low
      | .gt => some high
      | .eq => if tie = .up || low.digits % 2 = 1 then some high else some low

/-- The exact absolute value as a decimal. -/
def exactDecimal (x : Number) : Decimal :=
  ⟨x.significand * 2 ^ x.exponent.toNat * 5 ^ (-x.exponent).toNat, min x.exponent 0⟩

/-- The shortest decimal that rounds to the absolute value of a finite number,
without zeros at its end. -/
def shortest (tie : Tie) (x : Number) : Decimal :=
  if x.significand = 0 then ⟨0, 0⟩
  else
    let scale := x.decimalScale
    let places := (List.range 17).map (fun length : Nat => scale - length - 1)
    ((places.findSome? (shortestAt tie x)).getD x.exactDecimal).stripZeros 400

end Number

end FormDesigner
