import Depot.Json.Basic
import Depot.Json.Literal
import Depot.Number.Layout

/-!
# Printing JSON — compact text

`Json.render` writes a document without blanks, the members of an object in their order. Numbers
that are not integers keep at least one place; very large and very small ones have an exponent.
-/

namespace Depot.Json

/-- Numbers have a decimal place, are written positionally when their decimal exponent is at least
-5 and at most 15, and a tie goes to the even digit. What is not finite has no number and is
null. -/
def numberFormat : NumberFormat where
  tie := .toEven
  positional := fun e => decide (-5 ≤ e) && decide (e ≤ 15)
  wholeMark := ".0"
  notANumber := "null"
  infinity := "null"

/-- The text of a number, null where it is not finite. -/
def numberText (x : Double) : String := if x.isFinite then x.text numberFormat else "null"

/-- The digits of an integer, with a sign when it is negative. -/
def integerText (n : Int) : List Char :=
  if n < 0 then '-' :: Nat.toDigits 10 n.natAbs else Nat.toDigits 10 n.natAbs

mutual

/-- The characters of a document. -/
def chars : Json → List Char
  | .null => "null".toList
  | .boolean b => if b then "true".toList else "false".toList
  | .integer n => integerText n
  | .float x => (numberText x).toList
  | .text s => Literal.quote s
  | .array [] => "[]".toList
  | .array (j :: rest) => '[' :: (chars j ++ elementChars rest)
  | .object [] => ['{', '}']
  | .object ((name, j) :: rest) => '{' :: (Literal.quote name ++ ':' :: (chars j ++ memberChars rest))

/-- The elements after the first, each behind a comma, and the end of the array. -/
def elementChars : List Json → List Char
  | [] => [']']
  | j :: rest => ',' :: (chars j ++ elementChars rest)

/-- The members after the first, each behind a comma, and the end of the object. -/
def memberChars : List (String × Json) → List Char
  | [] => ['}']
  | (name, j) :: rest => ',' :: (Literal.quote name ++ ':' :: (chars j ++ memberChars rest))

end

/-- The compact text of a document. -/
def render (j : Json) : String := String.ofList j.chars

end Depot.Json
