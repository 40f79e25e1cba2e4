/-!
# Double-precision numbers — rounding a decimal to the nearest binary64

A **`Double`** is a binary64 value as data: not a number, an infinity, or ± mantissa · 2 ^ exponent
with at most 53 bits of mantissa and no exponent below -1074. `Double.ofRatio` rounds a quotient of
natural numbers to the nearest such value, a half going to the even mantissa, and
`Double.ofDecimal` does so for a decimal with an exponent of any size.
-/

namespace Depot

/-- A binary64 value: `finite negative m e` is ± m · 2 ^ e. -/
inductive Double where
  | nan
  | infinite (negative : Bool)
  | finite (negative : Bool) (mantissa : Nat) (exponent : Int)
  deriving DecidableEq, Repr, Inhabited

namespace Double

/-- How many bits a mantissa has. -/
def mantissaBits : Nat := 53

/-- The exponent of the smallest positive value. -/
def minExponent : Int := -1074

/-- The largest exponent of a finite value. -/
def maxExponent : Int := 971

/-- A quotient as a pair of natural numbers, multiplied by 2 ^ (-e). -/
def scale (num den : Nat) (e : Int) : Nat × Nat :=
  if 0 ≤ e then (num, den * Nat.pow 2 e.toNat) else (num * Nat.pow 2 (-e).toNat, den)

/-- The natural number nearest to a quotient, a half going to the even neighbour. -/
def roundHalfEven (num den : Nat) : Nat :=
  let q := num / den
  let r := num % den
  if 2 * r < den then q
  else if den < 2 * r then q + 1
  else if q % 2 = 0 then q else q + 1

/-- The exponent at which a quotient keeps all the bits that a mantissa has room for. -/
def exponentOf (num den : Nat) : Int :=
  let guess := (Nat.log2 num : Int) - (Nat.log2 den : Int) - (mantissaBits : Int)
  let low := max guess minExponent
  let scaled := scale num den low
  if scaled.1 / scaled.2 < Nat.pow 2 mantissaBits then low else low + 1

/-- The value nearest to ± num / den, a half going to the even mantissa; beyond the largest finite
value it is an infinity. -/
def ofRatio (negative : Bool) (num den : Nat) : Double :=
  if num = 0 then .finite negative 0 minExponent
  else
    let e := exponentOf num den
    let scaled := scale num den e
    let m := roundHalfEven scaled.1 scaled.2
    let m' := if m = Nat.pow 2 mantissaBits then Nat.pow 2 (mantissaBits - 1) else m
    let e' := if m = Nat.pow 2 mantissaBits then e + 1 else e
    if maxExponent < e' then .infinite negative else .finite negative m' e'

/-- The value nearest to ± coefficient · 10 ^ exponent, where the coefficient has the given number
of digits. An exponent so large or so small that the outcome is settled is not raised to a power. -/
def ofDecimal (negative : Bool) (coefficient digits : Nat) (exponent : Int) : Double :=
  if coefficient = 0 then .finite negative 0 minExponent
  else if 400 < exponent then .infinite negative
  else if exponent + (digits : Int) < -400 then .finite negative 0 minExponent
  else if 0 ≤ exponent then ofRatio negative (coefficient * Nat.pow 10 exponent.toNat) 1
  else ofRatio negative coefficient (Nat.pow 10 (-exponent).toNat)

/-- Whether a value is neither an infinity nor not a number. -/
def isFinite : Double → Bool
  | .finite .. => true
  | _ => false

/-- The integer that a value is, if it is one. -/
def integer? : Double → Option Int
  | .finite negative m e =>
    let (num, den) := if 0 ≤ e then (m * Nat.pow 2 e.toNat, 1) else (m, Nat.pow 2 (-e).toNat)
    if num % den = 0 then some (if negative then -(num / den : Nat) else (num / den : Nat))
    else none
  | _ => none

example : ofDecimal false 1 1 (-1) = .finite false 7205759403792794 (-56) := by decide

example : ofDecimal false 17976931348623159 17 292 = .infinite false := by decide +kernel

example : ofDecimal true 5 1 (-324) = .finite true 1 (-1074) := by decide +kernel

end Double

end Depot
