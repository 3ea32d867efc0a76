import ClassMetrics.Decimal.Shortest

/-!
The text of floating-point numbers. The digits are the shortest ones; a style says which numbers
are written without an exponent and how the others and the special values look.
-/

namespace ClassMetrics.Decimal

/-- How numbers are written. -/
structure FloatStyle where
  /-- The least and the greatest decade written without an exponent. -/
  leastPlain : Int
  greatestPlain : Int
  /-- Whether a positive exponent has a sign. -/
  signedExponent : Bool
  tie : Tie
  notANumber : String
  infinite : String

/-- Digits without the zeros at their end, and how many there were. -/
def stripZeros : List Char → List Char :=
  fun digits => (digits.reverse.dropWhile (· = '0')).reverse

/-- Puts the decimal point behind the given number of digits, with zeros where digits lack and at
least one digit on each side. -/
def plainText (digits : List Char) (whole : Int) : List Char :=
  if whole ≤ 0 then
    '0' :: '.' :: List.replicate (-whole).toNat '0' ++ digits
  else
    let padded := digits ++ List.replicate (whole.toNat - digits.length) '0'
    let fraction := padded.drop whole.toNat
    padded.take whole.toNat ++ '.' :: if fraction.isEmpty then ['0'] else fraction

/-- One digit, the others behind a point if there are any, and the exponent. -/
def exponentText (style : FloatStyle) (digits : List Char) (exponent : Int) : List Char :=
  let mantissa := match digits with
    | [] => []
    | [digit] => [digit]
    | digit :: others => digit :: '.' :: others
  let sign := if exponent < 0 then ['-'] else if style.signedExponent then ['+'] else []
  mantissa ++ 'e' :: sign ++ Nat.toDigits 10 exponent.natAbs

/-- The text of a positive number. -/
def magnitudeText (style : FloatStyle) (number : Binary) : List Char :=
  let decimal := shortest style.tie number
  let all := Nat.toDigits 10 decimal.digits
  let first := decimal.scale + all.length - 1
  let digits := stripZeros all
  if style.leastPlain ≤ first ∧ first ≤ style.greatestPlain then
    plainText digits (first + 1)
  else
    exponentText style digits first

def signed (negative : Bool) (text : String) : String :=
  if negative then "-" ++ text else text

/-- The text of a number. -/
def FloatStyle.text (style : FloatStyle) : FloatValue → String
  | .notANumber => style.notANumber
  | .infinite negative => signed negative style.infinite
  | .zero negative => signed negative "0.0"
  | .finite negative magnitude => signed negative (String.ofList (magnitudeText style magnitude))

end ClassMetrics.Decimal
