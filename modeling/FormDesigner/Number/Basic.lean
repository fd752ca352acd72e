/-!
Binary64 numbers.

A number is its 64 bits: the sign, eleven bits of exponent and 52 bits of
fraction.  Order and equality are read off the bits as integers, so nothing
here rests on machine arithmetic.
-/

namespace FormDesigner

-- A power of an integer is the one of the core library, whatever else is imported.
attribute [instance (2000)] instPowNat
attribute [default_instance (20000)] instPowNat

/-- A binary64 number, held as its bits. -/
structure Number where
  bits : UInt64
  deriving DecidableEq, Inhabited

namespace Number

/-- The bits of positive infinity. -/
def infinityBits : Nat := 0x7FF0000000000000

/-- The bits without the sign.  They grow with the absolute value, and the
NaNs lie above infinity. -/
def magnitude (x : Number) : Nat := x.bits.toNat % 2 ^ 63

/-- Whether the sign bit is set. -/
def negative (x : Number) : Bool := 2 ^ 63 ≤ x.bits.toNat

def isNaN (x : Number) : Bool := infinityBits < x.magnitude

def isInfinite (x : Number) : Bool := x.magnitude = infinityBits

def isFinite (x : Number) : Bool := x.magnitude < infinityBits

/-- Zero of either sign. -/
def isZero (x : Number) : Bool := x.magnitude = 0

/-- The number with the given sign and magnitude bits. -/
def ofMagnitude (negative : Bool) (magnitude : Nat) : Number :=
  ⟨UInt64.ofNat (if negative then 2 ^ 63 + magnitude else magnitude)⟩

def zero : Number := ofMagnitude false 0

def nan : Number := ofMagnitude false 0x7FF8000000000000

def infinity (negative : Bool) : Number := ofMagnitude negative infinityBits

/-- The place in the order of numbers; the two zeros share one place. -/
def rank (x : Number) : Int :=
  if x.negative then -(x.magnitude : Int) else x.magnitude

/-- Equality of numbers: the zeros are equal, and NaN equals nothing. -/
def equals (x y : Number) : Bool :=
  !x.isNaN && !y.isNaN && x.rank = y.rank

/-- Strict order of numbers; false as soon as one side is NaN. -/
def less (x y : Number) : Bool :=
  !x.isNaN && !y.isNaN && x.rank < y.rank

/-- Equality under which NaN is equal to NaN. -/
def same (x y : Number) : Bool :=
  x.equals y || (x.isNaN && y.isNaN)

/-- The biased exponent: 0 for subnormal numbers and zero. -/
def biasedExponent (x : Number) : Nat := x.magnitude / 2 ^ 52

/-- The integer `m` in the form `m * 2 ^ e` of a finite number's absolute
value. -/
def significand (x : Number) : Nat :=
  if x.biasedExponent = 0 then x.magnitude else 2 ^ 52 + x.magnitude % 2 ^ 52

/-- The integer `e` in the form `m * 2 ^ e` of a finite number's absolute
value. -/
def exponent (x : Number) : Int :=
  if x.biasedExponent = 0 then -1074 else (x.biasedExponent : Int) - 1075

/-- The integer part of a finite number's absolute value. -/
def floorAbs (x : Number) : Nat :=
  if 0 ≤ x.exponent then x.significand * 2 ^ x.exponent.toNat
  else x.significand / 2 ^ (-x.exponent).toNat

/-- Whether a number is finite and has no fraction. -/
def isWhole (x : Number) : Bool :=
  x.isFinite &&
    (0 ≤ x.exponent || x.significand % 2 ^ (-x.exponent).toNat = 0)

/-- A finite number with its fraction cut off. -/
def truncate (x : Number) : Int :=
  if x.negative then -(x.floorAbs : Int) else x.floorAbs

/-- The integer that a number is, if it is one. -/
def toInt? (x : Number) : Option Int :=
  if x.isWhole then some x.truncate else none

end Number

end FormDesigner
