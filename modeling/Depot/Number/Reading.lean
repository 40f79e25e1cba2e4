import Depot.Number.Double

/-!
# Reading numbers — integers and decimals from text

Integers are an optional sign and digits. Decimals are an optional sign, then digits with at most
one point and an optional exponent, or the words inf, infinity and nan in any letter case. Neither
reader skips blanks.
-/

namespace Depot.Number

/-- The value of a decimal digit. -/
def digit? (c : Char) : Option Nat :=
  if c.isDigit then some (c.toNat - '0'.toNat) else none

/-- The number that a list of digits denotes after the digits read so far. -/
def digitsFrom (read : Nat) : List Char → Option Nat
  | [] => some read
  | c :: rest => match digit? c with
    | some d => digitsFrom (10 * read + d) rest
    | none => none

/-- The number that a list of at least one digit denotes. -/
def natural? : List Char → Option Nat
  | [] => none
  | c :: rest => digitsFrom 0 (c :: rest)

/-- A sign in front of a text, true for minus, and what follows it. -/
def splitSign : List Char → Bool × List Char
  | '-' :: rest => (true, rest)
  | '+' :: rest => (false, rest)
  | rest => (false, rest)

/-- The integer that a text denotes: an optional sign and at least one digit. -/
def integer? (cs : List Char) : Option Int :=
  let (negative, size) := splitSign cs
  (natural? size).map fun n => if negative then -(n : Int) else n

/-- The digits, the exponent and the rest of a mantissa: digits with at most one point, and at least
one digit. -/
def splitMantissa (cs : List Char) : Option (List Char × Int × List Char) :=
  let whole := cs.takeWhile Char.isDigit
  let afterWhole := cs.dropWhile Char.isDigit
  let (fraction, rest) := match afterWhole with
    | '.' :: tail => (tail.takeWhile Char.isDigit, tail.dropWhile Char.isDigit)
    | _ => ([], afterWhole)
  let ds := whole ++ fraction
  if ds.isEmpty then none else some (ds, -(fraction.length : Int), rest)

/-- The exponent at the end of a decimal: nothing, or an e and an integer. -/
def exponent? : List Char → Option Int
  | [] => some 0
  | c :: rest => if c = 'e' ∨ c = 'E' then integer? rest else none

/-- The word of an infinity or of what is not a number, in any letter case. -/
def special? (negative : Bool) (cs : List Char) : Option Double :=
  let word := String.ofList (cs.map Char.toLower)
  if word = "inf" ∨ word = "infinity" then some (.infinite negative)
  else if word = "nan" then some .nan
  else none

/-- The double-precision number that a text denotes. -/
def double? (cs : List Char) : Option Double :=
  let (negative, size) := splitSign cs
  match special? negative size with
  | some x => some x
  | none => do
    let (ds, shift, rest) ← splitMantissa size
    let e ← exponent? rest
    let coefficient ← natural? ds
    let significant := (ds.dropWhile (· == '0')).length
    some (Double.ofDecimal negative coefficient significant (shift + e))

example : integer? "-007".toList = some (-7) ∧ integer? "+".toList = none := by decide

example : double? "1_0".toList = none ∧ double? ".".toList = none := by decide

example : double? "-.5E+0".toList = some (.finite true (2 ^ 52) (-53)) := by decide +kernel

end Depot.Number
