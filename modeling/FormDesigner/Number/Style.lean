import FormDesigner.Number.Digits

/-!
The text of a number.

Every text starts from the shortest digits that identify the number.  What
remains is layout: a record names the decisions of one format, and one
function lays the digits out by them.
-/

namespace FormDesigner

/-- How one format lays out the digits of a number. -/
structure NumberStyle where
  /-- Whether a number whose leading digit has this decimal exponent is written
  with its point in place, and without an exponent. -/
  positional : Int → Bool
  /-- Whether a whole number keeps one zero behind its point. -/
  pointZero : Bool
  /-- Whether an exponent above zero carries its sign. -/
  plusSign : Bool
  /-- Which of two equally near digit strings is taken. -/
  tie : Tie
  /-- The text of infinity. -/
  infinite : String

namespace NumberStyle

/-- The digits of `decimal` in place, without an exponent. -/
def inPlace (style : NumberStyle) (digits : List Char) (exponent : Int) : List Char :=
  let lead := (digits.length : Int) + exponent
  if 0 ≤ exponent then
    digits ++ List.replicate exponent.toNat '0' ++ (if style.pointZero then ['.', '0'] else [])
  else if 0 < lead then
    digits.take lead.toNat ++ '.' :: digits.drop lead.toNat
  else
    '0' :: '.' :: (List.replicate (-lead).toNat '0' ++ digits)

/-- The digits with one digit before the point, and the exponent behind them. -/
def withExponent (style : NumberStyle) (digits : List Char) (lead : Int) : List Char :=
  let mantissa := match digits with
    | first :: second :: rest => first :: '.' :: second :: rest
    | short => short
  let sign := if lead < 0 then ['-'] else if style.plusSign then ['+'] else []
  mantissa ++ 'e' :: (sign ++ Nat.toDigits 10 lead.natAbs)

def layout (style : NumberStyle) (decimal : Decimal) : List Char :=
  let digits := Nat.toDigits 10 decimal.digits
  let lead := (digits.length : Int) - 1 + decimal.exponent
  if style.positional lead then style.inPlace digits decimal.exponent
  else style.withExponent digits lead

/-- The text of a number in a style. -/
def write (style : NumberStyle) (x : Number) : List Char :=
  if x.isNaN then ['N', 'a', 'N']
  else
    let sign := if x.negative then ['-'] else []
    if x.isInfinite then sign ++ style.infinite.toList
    else sign ++ style.layout (x.shortest style.tie)

end NumberStyle

namespace Number

/-- Numbers in plain text are always positional. -/
def plainStyle : NumberStyle where
  positional := fun _ => true
  pointZero := false
  plusSign := false
  tie := .up
  infinite := "Infinity"

/-- The plain text of a number. -/
def plainText (x : Number) : String := String.ofList (plainStyle.write x)

end Number

end FormDesigner
