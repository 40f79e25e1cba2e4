import Depot.Number.Shortest

/-!
# Number layouts — the text of a double-precision number

A **`NumberFormat`** holds what a format decides: which decimal exponents are written positionally,
what follows a whole number, and which way a tie between two shortest decimals goes. All others are
written with one digit before the point and a signed exponent.
-/

namespace Depot

/-- What a format decides about the text of a number. -/
structure NumberFormat where
  tie : Tie
  positional : Int → Bool
  wholeMark : String
  notANumber : String
  infinity : String

namespace Decimal

/-- The digits of a coefficient. -/
def digits (d : Decimal) : List Char := Nat.toDigits 10 d.coefficient

/-- The exponent that the number has with one digit before its point. -/
def leadingExponent (d : Decimal) : Int := d.exponent + (d.digits.length : Int) - 1

/-- A decimal written with all its places. -/
def positionalText (wholeMark : List Char) (d : Decimal) : List Char :=
  if 0 ≤ d.exponent then d.digits ++ List.replicate d.exponent.toNat '0' ++ wholeMark
  else
    let places := (-d.exponent).toNat
    let padded := List.replicate (places + 1 - d.digits.length) '0' ++ d.digits
    padded.take (padded.length - places) ++ '.' :: padded.drop (padded.length - places)

/-- A decimal written with one digit before the point and a signed exponent. -/
def scientificText (d : Decimal) : List Char :=
  let e := d.leadingExponent
  let fraction := match d.digits with
    | [] => []
    | [c] => [c]
    | c :: rest => c :: '.' :: rest
  fraction ++ 'e' :: (if e < 0 then '-' else '+') :: Nat.toDigits 10 e.natAbs

/-- The text of a decimal in a format. -/
def text (f : NumberFormat) (d : Decimal) : List Char :=
  if f.positional d.leadingExponent then d.positionalText f.wholeMark.toList else d.scientificText

end Decimal

/-- The text of a number in a format. -/
def Double.text (f : NumberFormat) : Double → String
  | .nan => f.notANumber
  | .infinite negative => if negative then "-" ++ f.infinity else f.infinity
  | .finite negative mantissa exponent =>
    let sign := if negative then "-" else ""
    let size := if mantissa = 0 then '0' :: f.wholeMark.toList
      else (Decimal.shortest f.tie mantissa exponent).text f
    sign ++ String.ofList size

end Depot
