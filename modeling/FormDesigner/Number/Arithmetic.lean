import FormDesigner.Number.Rounding

/-!
Products and quotients of numbers.

The exact product or quotient of two finite numbers is formed in integers and
then rounded once.
-/

namespace FormDesigner

namespace Number

/-- The number nearest to the product of two finite numbers. -/
def times (x y : Number) : Number :=
  let exponent := x.exponent + y.exponent
  nearest (x.negative != y.negative)
    (x.significand * y.significand * 2 ^ exponent.toNat) (2 ^ (-exponent).toNat)

/-- The number nearest to the quotient of two finite numbers, of which the
second is not zero. -/
def dividedBy (x y : Number) : Number :=
  let exponent := x.exponent - y.exponent
  nearest (x.negative != y.negative)
    (x.significand * 2 ^ exponent.toNat) (y.significand * 2 ^ (-exponent).toNat)

/-- The number nearest to a power of ten. -/
def powerOfTen (exponent : Nat) : Number := nearest false (10 ^ exponent) 1

end Number

end FormDesigner
