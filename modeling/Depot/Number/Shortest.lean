import Depot.Number.Double

/-!
# Shortest decimals — the fewest digits that read back

Every decimal strictly between the midpoints to the two neighbours of a binary64 value reads back
as that value, and the midpoints themselves do when its mantissa is even. **`Decimal.shortest`**
looks at the decimals of one digit, of two digits and so on next to the exact value, and takes the
first that lies in that interval; of two it takes the nearer one, and a **`Tie`** decides when they
are equally near. All comparisons are between natural numbers.
-/

namespace Depot

/-- The number coefficient · 10 ^ exponent. -/
structure Decimal where
  coefficient : Nat
  exponent : Int
  deriving DecidableEq, Repr, Inhabited

/-- Which of two equally near decimals is taken. -/
inductive Tie where
  | up
  | toEven
  deriving DecidableEq, Repr

namespace Decimal

/-- The same number without zeros at the end of its coefficient. -/
def normalize (coefficient : Nat) (exponent : Int) : Decimal :=
  if coefficient ≠ 0 ∧ coefficient % 10 = 0 then normalize (coefficient / 10) (exponent + 1)
  else ⟨coefficient, exponent⟩
termination_by coefficient
decreasing_by omega

/-- How many decimal digits a natural number has. -/
def digitCount (n : Nat) : Nat := (Nat.toDigits 10 n).length

/-- The decimal exponent of a positive quotient: the e with 10 ^ e ≤ num / den < 10 ^ (e + 1). -/
def exponentOf (num den : Nat) : Int :=
  let guess := (digitCount num : Int) - (digitCount den : Int)
  let atLeast := if 0 ≤ guess then decide (den * Nat.pow 10 guess.toNat ≤ num)
    else decide (den ≤ num * Nat.pow 10 (-guess).toNat)
  if atLeast then guess else guess - 1

/-- The rounding interval of a binary64 value, in quarters of the unit of its mantissa. -/
structure Interval where
  low : Nat
  value : Nat
  high : Nat
  closed : Bool

/-- The rounding interval of mantissa · 2 ^ exponent. Below a power of two the neighbours are half
as far apart. -/
def Interval.around (mantissa : Nat) (exponent : Int) : Interval where
  low := if mantissa = Nat.pow 2 (Double.mantissaBits - 1) ∧ Double.minExponent < exponent
    then 4 * mantissa - 1 else 4 * mantissa - 2
  value := 4 * mantissa
  high := 4 * mantissa + 2
  closed := mantissa % 2 == 0

/-- Whether p lies in the interval scaled by a factor. -/
def Interval.holds (i : Interval) (factor p : Nat) : Bool :=
  if i.closed then decide (i.low * factor ≤ p) && decide (p ≤ i.high * factor)
  else decide (i.low * factor < p) && decide (p < i.high * factor)

/-- The multiple of 10 ^ grid next to the value that lies in its rounding interval, if one does. The
interval is given in units of 2 ^ unit. -/
def Interval.onGrid? (i : Interval) (unit grid : Int) (tie : Tie) : Option Nat :=
  let step := Nat.pow 10 grid.toNat * Nat.pow 2 (-unit).toNat
  let factor := Nat.pow 10 (-grid).toNat * Nat.pow 2 unit.toNat
  let below := i.value * factor / step
  let fromBelow := i.value * factor - below * step
  let fromAbove := (below + 1) * step - i.value * factor
  match i.holds factor (below * step), i.holds factor ((below + 1) * step) with
  | false, false => none
  | true, false => some below
  | false, true => some (below + 1)
  | true, true =>
    if fromBelow < fromAbove then some below
    else if fromAbove < fromBelow then some (below + 1)
    else match tie with
      | .up => some (below + 1)
      | .toEven => some (if below % 2 = 0 then below else below + 1)

/-- The number of digits that always suffices. -/
def maxDigits : Nat := 17

/-- The decimal with the fewest digits that reads back as mantissa · 2 ^ exponent, the nearest of
those, for a mantissa that is not zero. -/
def shortest (tie : Tie) (mantissa : Nat) (exponent : Int) : Decimal :=
  let exact := Double.scale mantissa 1 (-exponent)
  let top := exponentOf exact.1 exact.2
  let interval := Interval.around mantissa exponent
  let found := (List.range maxDigits).findSome? fun (n : Nat) =>
    let grid := top - (n : Int)
    (interval.onGrid? (exponent - 2) grid tie).map fun c => normalize c grid
  found.getD ⟨mantissa, 0⟩

end Decimal

end Depot
