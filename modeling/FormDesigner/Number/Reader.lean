import FormDesigner.Number.Rounding

/-!
Numbers read from text.

A decimal literal is split into its parts once; which parts must be there is
the decision of the format that reads it.
-/

namespace FormDesigner

/-- The value of some digits with one more decimal digit behind them. -/
def appendDigit (value : Nat) (digit : Char) : Nat :=
  10 * value + (digit.toNat - '0'.toNat)

/-- The number that a list of decimal digits stands for. -/
def digitsValue (digits : List Char) : Nat := digits.foldl appendDigit 0

/-- An optional sign in front of a text. -/
def splitSign : List Char → Option Char × List Char
  | '+' :: rest => (some '+', rest)
  | '-' :: rest => (some '-', rest)
  | rest => (none, rest)

/-- The digits at the start of a text, and the rest. -/
def splitDigits (text : List Char) : List Char × List Char :=
  (text.takeWhile Char.isDigit, text.dropWhile Char.isDigit)

/-- The parts of a decimal literal. -/
structure DecimalLiteral where
  sign : Option Char
  whole : List Char
  /-- The digits behind the point, when there is a point. -/
  fraction : Option (List Char)
  /-- The exponent, when one is written. -/
  exponent : Option Int
  deriving DecidableEq

namespace DecimalLiteral

/-- The fraction of a literal, if a point follows. -/
def splitFraction : List Char → Option (List Char) × List Char
  | '.' :: rest => (some (splitDigits rest).1, (splitDigits rest).2)
  | rest => (none, rest)

/-- The exponent that ends a literal.  The outer `none` is a text that is no
exponent. -/
def readExponent : List Char → Option (Option Int)
  | [] => some none
  | mark :: rest =>
      if mark = 'e' || mark = 'E' then
        let (sign, digits) := splitSign rest
        if digits.isEmpty || !digits.all Char.isDigit then none
        else if sign = some '-' then some (some (-(digitsValue digits : Int)))
        else some (some (digitsValue digits))
      else none

/-- Splits a whole text into the parts of a decimal literal. -/
def read? (text : List Char) : Option DecimalLiteral :=
  let (sign, unsigned) := splitSign text
  let (whole, afterWhole) := splitDigits unsigned
  let (fraction, afterFraction) := splitFraction afterWhole
  (readExponent afterFraction).map fun exponent => ⟨sign, whole, fraction, exponent⟩

/-- The number nearest to a literal. -/
def toNumber (literal : DecimalLiteral) : Number :=
  let fraction := literal.fraction.getD []
  Number.ofDecimal (literal.sign = some '-') (digitsValue (literal.whole ++ fraction))
    (literal.exponent.getD 0 - fraction.length)

end DecimalLiteral

/-- The integer that a text of an optional sign and digits stands for. -/
def readInteger? (text : List Char) : Option Int :=
  let (sign, digits) := splitSign text
  if digits.isEmpty || !digits.all Char.isDigit then none
  else if sign = some '-' then some (-(digitsValue digits : Int))
  else some (digitsValue digits)

/-- An integer of 64 bits with a sign. -/
def readInt64? (text : List Char) : Option Int :=
  (readInteger? text).filter fun n => -(2 ^ 63) ≤ n && n < 2 ^ 63

/-- An integer of 64 bits without a sign.  A plus may stand in front. -/
def readUInt64? (text : List Char) : Option Nat :=
  if text.head? = some '-' then none
  else (readInteger? text).bind fun n => if n < 2 ^ 64 then some n.toNat else none

namespace Number

/-- The words for numbers that have no digits, in any case. -/
def ofWord? (negative : Bool) (word : List Char) : Option Number :=
  match String.ofList (word.map Char.toLower) with
  | "inf" => some (infinity negative)
  | "infinity" => some (infinity negative)
  | "nan" => some nan
  | _ => none

/-- Reads a number: digits before or behind the point or both, and an optional
exponent, or one of the words `inf`, `infinity` and `nan`. -/
def read? (text : List Char) : Option Number :=
  let (sign, unsigned) := splitSign text
  match ofWord? (sign = some '-') unsigned with
  | some x => some x
  | none =>
      (DecimalLiteral.read? text).bind fun literal =>
        if literal.whole.isEmpty && (literal.fraction.getD []).isEmpty then none
        else some literal.toNumber

end Number

end FormDesigner
