import Mathlib.Algebra.Order.Field.Power
import Mathlib.Data.Rat.Cast.Order
import Mathlib.Tactic.FieldSimp
import Mathlib.Tactic.Linarith
import Mathlib.Tactic.NormNum
import Mathlib.Tactic.Positivity
import Mathlib.Tactic.Ring
import Depot.Number.Shortest

/-!
# Shortest decimals — what is found reads back

A decimal reads back as a binary64 value when it lies between the midpoints to the two neighbours of
that value, the midpoints included if its mantissa is even: **`Double.RoundsFrom`**. The search for
the shortest such decimal compares natural numbers. Here the comparisons are related to the rational
numbers that they stand for, and the search is shown never to come back empty-handed, because
seventeen digits are finer than the rounding interval is wide (`Interval.isSome_onGrid?`). The result is
**`Decimal.shortest_roundsFrom`**.
-/

namespace Depot

/-! ## Values -/

/-- The number that a decimal stands for. -/
def Decimal.value (d : Decimal) : ℚ := d.coefficient * 10 ^ d.exponent

/-- The number that a mantissa and an exponent stand for. -/
def Double.size (mantissa : Nat) (exponent : Int) : ℚ := mantissa * 2 ^ exponent

/-- How far below a value the midpoint to its lower neighbour is, in units of its mantissa. Below a
    power of two the neighbour is half as far away, except at the smallest exponent. -/
def Double.lowerGap (mantissa : Nat) (exponent : Int) : ℚ :=
  if mantissa = 2 ^ 52 ∧ -1074 < exponent then 1 / 4 else 1 / 2

/-- A number that is rounded to mantissa · 2 ^ exponent: it lies between the midpoints to the two
    neighbours, and on one of them only if the mantissa is even. -/
structure Double.RoundsFrom (mantissa : Nat) (exponent : Int) (q : ℚ) : Prop where
  lower : (mantissa - lowerGap mantissa exponent) * 2 ^ exponent ≤ q
  upper : q ≤ (mantissa + 1 / 2) * 2 ^ exponent
  odd : mantissa % 2 = 1 →
    (mantissa - lowerGap mantissa exponent) * 2 ^ exponent < q ∧
      q < (mantissa + 1 / 2) * 2 ^ exponent

/-- The midpoint below is at most half a unit away, and never the value itself. -/
theorem Double.lowerGap_pos_le (mantissa : Nat) (exponent : Int) :
    0 < lowerGap mantissa exponent ∧ lowerGap mantissa exponent ≤ 1 / 2 := by
  unfold lowerGap
  split <;> norm_num

/-- Zero is rounded to zero. -/
theorem Double.RoundsFrom.zero (exponent : Int) : RoundsFrom 0 exponent 0 where
  lower := by
    have hgap := (lowerGap_pos_le 0 exponent).1
    rw [Nat.cast_zero, zero_sub, neg_mul, neg_nonpos]
    positivity
  upper := by positivity
  odd := nofun

/-- Only positive numbers are rounded to a positive value. -/
theorem Double.RoundsFrom.pos {mantissa : Nat} {exponent : Int} {q : ℚ} (h : 0 < mantissa)
    (hq : RoundsFrom mantissa exponent q) : 0 < q := by
  have hmantissa : (1 : ℚ) ≤ mantissa := by exact_mod_cast h
  have hgap := (lowerGap_pos_le mantissa exponent).2
  have hlower : (0 : ℚ) < (mantissa - lowerGap mantissa exponent) * 2 ^ exponent :=
    mul_pos (by linarith) (by positivity)
  exact hlower.trans_le hq.lower

namespace Decimal

/-- Without the zeros at the end of its coefficient a decimal is the same number. -/
theorem value_normalize (coefficient : Nat) (exponent : Int) :
    (normalize coefficient exponent).value = coefficient * 10 ^ exponent := by
  induction coefficient, exponent using normalize.induct with
  | case1 c e h ih =>
      have hc : (c : ℚ) = (c / 10 : Nat) * 10 := by
        have hten : c = c / 10 * 10 := by omega
        exact_mod_cast congrArg (Nat.cast (R := ℚ)) hten
      rw [normalize, if_pos h, ih, zpow_add_one₀ (by norm_num), hc]
      ring
  | case2 c e h =>
      rw [normalize, if_neg h]
      rfl

/-! ## Scaled quotients -/

/-- A power with an integer exponent, as two natural powers of which one is 1. -/
theorem pow_toNat {b : ℚ} (hb : b ≠ 0) (e : Int) : b ^ e.toNat = b ^ e * b ^ (-e).toNat := by
  rw [← zpow_natCast, ← zpow_natCast, ← zpow_add₀ hb]
  congr 1
  omega

/-- The exact value as a quotient of natural numbers. -/
theorem scale_div (mantissa : Nat) (exponent : Int) :
    ((Double.scale mantissa 1 (-exponent)).1 : ℚ) / (Double.scale mantissa 1 (-exponent)).2
      = Double.size mantissa exponent := by
  have hpow := pow_toNat (b := 2) (by norm_num) exponent
  unfold Double.scale Double.size
  split
  · rename_i he
    have hzero : exponent.toNat = 0 := by omega
    rw [hzero, pow_zero] at hpow
    simp only [Nat.pow_eq, one_mul, Nat.cast_pow, Nat.cast_ofNat]
    rw [div_eq_iff (by positivity), mul_assoc, ← hpow, mul_one]
  · rename_i he
    have hzero : (-exponent).toNat = 0 := by omega
    rw [hzero, pow_zero, mul_one] at hpow
    simp only [neg_neg, Nat.pow_eq, Nat.cast_mul, Nat.cast_pow, Nat.cast_ofNat, Nat.cast_one,
      div_one, hpow]

theorem scale_pos (mantissa : Nat) (exponent : Int) (h : 0 < mantissa) :
    0 < (Double.scale mantissa 1 (-exponent)).1 ∧ 0 < (Double.scale mantissa 1 (-exponent)).2 := by
  unfold Double.scale
  split
  · exact ⟨h, Nat.mul_pos Nat.one_pos (Nat.pow_pos (by decide))⟩
  · exact ⟨Nat.mul_pos h (Nat.pow_pos (by decide)), Nat.one_pos⟩

/-! ## The decimal exponent -/

/-- A natural number lies between two powers of ten by the number of its digits. -/
theorem pow_digitCount {n : Nat} (h : 0 < n) :
    10 ^ (digitCount n - 1) ≤ n ∧ n < 10 ^ digitCount n := by
  have hpos : 0 < digitCount n := Nat.length_toDigits_pos
  constructor
  · rcases Nat.eq_or_lt_of_le hpos with hone | hmore
    · rw [← hone]
      exact h
    · refine Nat.not_lt.mp fun hlt => ?_
      have hle : digitCount n ≤ digitCount n - 1 :=
        (Nat.length_toDigits_le_iff (by decide) (Nat.le_sub_one_of_lt hmore)).mpr hlt
      omega
  · exact (Nat.length_toDigits_le_iff (by decide) hpos).mp le_rfl

/-- A power of ten against a quotient, compared in natural numbers. -/
theorem zpow_le_div_iff {num den : Nat} (hden : 0 < den) (e : Int) :
    (10 : ℚ) ^ e ≤ num / den ↔ den * 10 ^ e.toNat ≤ num * 10 ^ (-e).toNat := by
  have hden' : (0 : ℚ) < den := by exact_mod_cast hden
  have hpow : (0 : ℚ) < 10 ^ (-e).toNat := by positivity
  rw [le_div_iff₀ hden', ← mul_le_mul_iff_left₀ hpow, mul_right_comm,
    ← pow_toNat (by norm_num) e, mul_comm _ (den : ℚ)]
  exact_mod_cast Iff.rfl

/-- The decimal exponent of a quotient is not too large. -/
theorem pow_exponentOf_le {num den : Nat} (hnum : 0 < num) (hden : 0 < den) :
    (10 : ℚ) ^ exponentOf num den ≤ num / den := by
  unfold exponentOf
  generalize hguess : (digitCount num : Int) - (digitCount den : Int) = guess
  have hatLeast : (if 0 ≤ guess then decide (den * Nat.pow 10 guess.toNat ≤ num)
        else decide (den ≤ num * Nat.pow 10 (-guess).toNat))
      = decide ((10 : ℚ) ^ guess ≤ num / den) := by
    simp only [zpow_le_div_iff hden, Nat.pow_eq]
    split
    · rename_i hle
      have hzero : (-guess).toNat = 0 := by omega
      rw [hzero, pow_zero, mul_one]
    · rename_i hlt
      have hzero : guess.toNat = 0 := by omega
      rw [hzero, pow_zero, mul_one]
  simp only [hatLeast, decide_eq_true_eq]
  split
  · assumption
  · -- One less than the guess is low enough for whatever the digits are.
    have hnum' : (10 : ℚ) ^ (digitCount num - 1) ≤ num := by
      exact_mod_cast (pow_digitCount hnum).1
    have hden' : (den : ℚ) ≤ 10 ^ digitCount den := by
      exact_mod_cast (pow_digitCount hden).2.le
    have hpos : 0 < digitCount num := Nat.length_toDigits_pos
    rw [le_div_iff₀ (by exact_mod_cast hden)]
    calc (10 : ℚ) ^ (guess - 1) * den ≤ 10 ^ (guess - 1) * 10 ^ digitCount den :=
          mul_le_mul_of_nonneg_left hden' (by positivity)
      _ = 10 ^ (digitCount num - 1) := by
          rw [← zpow_natCast, ← zpow_natCast, ← zpow_add₀ (by norm_num)]
          congr 1
          omega
      _ ≤ num := hnum'

/-! ## The search -/

section

variable {step factor : Nat} {unit grid : ℚ}

/-- Natural numbers compare as the rational numbers do to which they are proportional. -/
theorem le_iff_of_scaled (hfactor : 0 < factor) (hunit : 0 < unit) {a b : Nat} {q r : ℚ}
    (ha : a * unit = factor * q) (hb : b * unit = factor * r) : a ≤ b ↔ q ≤ r := by
  have hfactor' : (0 : ℚ) < factor := by exact_mod_cast hfactor
  rw [← Nat.cast_le (α := ℚ), ← mul_le_mul_iff_left₀ hunit, ha, hb,
    mul_le_mul_iff_right₀ hfactor']

theorem cast_mul_factor (n : Nat) : ((n * factor : Nat) : ℚ) * unit = factor * (n * unit) := by
  push_cast
  ring

theorem cast_mul_step (hscale : step * unit = factor * grid) (c : Nat) :
    ((c * step : Nat) : ℚ) * unit = factor * (c * grid) := by
  rw [Nat.cast_mul, mul_assoc, hscale]
  ring

/-- A multiple lies in an interval as the rational number does that it stands for. -/
theorem Interval.holds_iff (i : Interval) (hfactor : 0 < factor)
    (hscale : step * unit = factor * grid) (hunit : 0 < unit) (c : Nat) :
    i.holds factor (c * step) = true ↔
      (i.low * unit ≤ c * grid ∧ c * grid ≤ i.high * unit) ∧
        (i.closed = false → i.low * unit < c * grid ∧ c * grid < i.high * unit) := by
  have hlower (n : Nat) : n * factor ≤ c * step ↔ n * unit ≤ c * grid :=
    le_iff_of_scaled hfactor hunit (cast_mul_factor n) (cast_mul_step hscale c)
  have hupper (n : Nat) : c * step ≤ n * factor ↔ c * grid ≤ n * unit :=
    le_iff_of_scaled hfactor hunit (cast_mul_step hscale c) (cast_mul_factor n)
  unfold Interval.holds
  cases i.closed with
  | true =>
      simp only [↓reduceIte, Bool.and_eq_true, decide_eq_true_eq, reduceCtorEq, false_implies,
        and_true, hlower, hupper]
  | false =>
      simp only [Bool.false_eq_true, ↓reduceIte, Bool.and_eq_true, decide_eq_true_eq, forall_const,
        ← Nat.not_le, hlower, hupper, not_le]
      exact ⟨fun h => ⟨⟨h.1.le, h.2.le⟩, h⟩, fun h => h.2⟩

end

/-- The two scales of a search, by the sizes of the unit and of the grid. -/
theorem step_mul_eq (unit grid : Int) :
    ((Nat.pow 10 grid.toNat * Nat.pow 2 (-unit).toNat : Nat) : ℚ) * 2 ^ unit
      = (Nat.pow 10 (-grid).toNat * Nat.pow 2 unit.toNat : Nat) * 10 ^ grid := by
  have htwo := pow_toNat (b := 2) (by norm_num) unit
  have hten := pow_toNat (b := 10) (by norm_num) grid
  simp only [Nat.pow_eq]
  push_cast
  rw [htwo, hten]
  ring

/-- What is found on a grid lies in the interval. -/
theorem Interval.holds_of_onGrid? {i : Interval} {unit grid : Int} {tie : Tie} {c : Nat}
    (h : i.onGrid? unit grid tie = some c) :
    i.holds (Nat.pow 10 (-grid).toNat * Nat.pow 2 unit.toNat)
      (c * (Nat.pow 10 grid.toNat * Nat.pow 2 (-unit).toNat)) = true := by
  unfold Interval.onGrid? at h
  dsimp only at h
  -- Which of the two candidates lie in the interval, and which of them is taken.
  split at h
  · cases h
  · rename_i hbelow _
    obtain rfl := Option.some.inj h
    exact hbelow
  · rename_i _ habove
    obtain rfl := Option.some.inj h
    exact habove
  · rename_i hbelow habove
    split at h
    · obtain rfl := Option.some.inj h
      exact hbelow
    · split at h
      · obtain rfl := Option.some.inj h
        exact habove
      · split at h
        · obtain rfl := Option.some.inj h
          exact habove
        · obtain rfl := Option.some.inj h
          split
          · exact hbelow
          · exact habove

/-- Of two neighbours around a value one lies in an interval that is wider than they are apart. -/
theorem Interval.holds_or {i : Interval} {factor step below : Nat}
    (hbelow : below < i.high * factor) (habove : i.low * factor < below + step)
    (hwide : i.low * factor + step < i.high * factor) :
    i.holds factor below = true ∨ i.holds factor (below + step) = true := by
  unfold Interval.holds
  cases i.closed with
  | true =>
      simp only [↓reduceIte, Bool.and_eq_true, decide_eq_true_eq]
      omega
  | false =>
      simp only [Bool.false_eq_true, ↓reduceIte, Bool.and_eq_true, decide_eq_true_eq]
      omega

/-- **A grid finer than the interval is wide** has a multiple in it. -/
theorem Interval.isSome_onGrid? {i : Interval} {unit grid : Int} (tie : Tie)
    (hlow : i.low ≤ i.value) (hhigh : i.value < i.high)
    (hfine : (10 : ℚ) ^ grid < (i.high - i.low) * 2 ^ unit) :
    (i.onGrid? unit grid tie).isSome = true := by
  have hscale := step_mul_eq unit grid
  have hfactor : 0 < Nat.pow 10 (-grid).toNat * Nat.pow 2 unit.toNat :=
    Nat.mul_pos (Nat.pow_pos (by decide)) (Nat.pow_pos (by decide))
  have hstep : 0 < Nat.pow 10 grid.toNat * Nat.pow 2 (-unit).toNat :=
    Nat.mul_pos (Nat.pow_pos (by decide)) (Nat.pow_pos (by decide))
  unfold Interval.onGrid?
  dsimp only
  generalize Nat.pow 10 (-grid).toNat * Nat.pow 2 unit.toNat = factor at *
  generalize Nat.pow 10 grid.toNat * Nat.pow 2 (-unit).toNat = step at *
  generalize hbelow : i.value * factor / step = below
  have hwide : i.low * factor + step < i.high * factor := by
    have hfactor' : (0 : ℚ) < factor := by exact_mod_cast hfactor
    have hunit : (0 : ℚ) < 2 ^ unit := by positivity
    have hlt : (step : ℚ) * 2 ^ unit < factor * (i.high - i.low) * 2 ^ unit := by
      rw [hscale, mul_assoc]
      exact mul_lt_mul_of_pos_left hfine hfactor'
    have hlt' : (i.low * factor + step : ℚ) < i.high * factor := by
      linarith [lt_of_mul_lt_mul_right hlt hunit.le]
    exact_mod_cast hlt'
  have hle : below * step ≤ i.value * factor := hbelow ▸ Nat.div_mul_le_self _ _
  have hlt : i.value * factor < (below + 1) * step :=
    (Nat.div_lt_iff_lt_mul hstep).mp (hbelow ▸ Nat.lt_succ_self below)
  have hlow' : i.low * factor ≤ i.value * factor := Nat.mul_le_mul_right factor hlow
  have hhigh' : i.value * factor < i.high * factor := Nat.mul_lt_mul_of_pos_right hhigh hfactor
  have hor : i.holds factor (below * step) = true ∨ i.holds factor ((below + 1) * step) = true := by
    rw [Nat.succ_mul] at hlt ⊢
    exact holds_or (by omega) (by omega) hwide
  split
  · rename_i hnone hnone'
    rw [hnone, hnone'] at hor
    exact absurd hor (by decide)
  · rfl
  · rfl
  · split
    · rfl
    · split
      · rfl
      · split <;> rfl

/-! ## The interval around a value -/

variable {mantissa : Nat} {exponent : Int}

/-- The lower limit of an interval is the midpoint to the lower neighbour, in quarters of a unit. -/
theorem Interval.low_around (h : 0 < mantissa) (exponent : Int) :
    ((around mantissa exponent).low : ℚ)
      = 4 * (mantissa - Double.lowerGap mantissa exponent) := by
  show ((if mantissa = 2 ^ 52 ∧ -1074 < exponent then 4 * mantissa - 1 else 4 * mantissa - 2 : Nat)
    : ℚ) = 4 * (mantissa - if mantissa = 2 ^ 52 ∧ -1074 < exponent then 1 / 4 else 1 / 2)
  split
  · rw [Nat.cast_sub (by omega)]
    push_cast
    ring
  · rw [Nat.cast_sub (by omega)]
    push_cast
    ring

theorem Interval.low_le_value (mantissa : Nat) (exponent : Int) :
    (around mantissa exponent).low ≤ (around mantissa exponent).value := by
  unfold around
  dsimp only
  split <;> omega

/-- The upper limit of an interval is the midpoint to the upper neighbour, in quarters of a unit. -/
theorem Interval.high_around (mantissa : Nat) (exponent : Int) :
    ((around mantissa exponent).high : ℚ) = 4 * (mantissa + 1 / 2) := by
  unfold around
  push_cast
  ring

/-- The unit of an interval is a quarter of the unit of the mantissa. -/
theorem four_mul_unit (q : ℚ) (exponent : Int) :
    4 * q * 2 ^ (exponent - 2) = q * 2 ^ exponent := by
  rw [zpow_sub₀ (by norm_num)]
  ring

/-- Seventeen digits are finer than the rounding interval is wide. -/
theorem pow_lt_width (h : 0 < mantissa) (hbits : mantissa < 2 ^ 53) {top : Int}
    (htop : (10 : ℚ) ^ top ≤ Double.size mantissa exponent) :
    (10 : ℚ) ^ (top - 16)
      < (((Interval.around mantissa exponent).high : ℚ) - (Interval.around mantissa exponent).low)
        * 2 ^ (exponent - 2) := by
  have hunit : (0 : ℚ) < 2 ^ exponent := by positivity
  have hwidth : (mantissa : ℚ) / 10 ^ 16 < 1 / 2 + Double.lowerGap mantissa exponent := by
    unfold Double.lowerGap
    split
    · rename_i hpower
      rw [hpower.1]
      norm_num
    · have hbits' : (mantissa : ℚ) < 2 ^ 53 := by exact_mod_cast hbits
      rw [div_lt_iff₀ (by positivity)]
      linarith
  rw [Interval.high_around, Interval.low_around h, ← mul_sub, four_mul_unit]
  calc (10 : ℚ) ^ (top - 16) = 10 ^ top / 10 ^ 16 := by
        rw [zpow_sub₀ (by norm_num)]
        norm_num
    _ ≤ mantissa * 2 ^ exponent / 10 ^ 16 := by
        exact div_le_div_of_nonneg_right htop (by positivity)
    _ = mantissa / 10 ^ 16 * 2 ^ exponent := by ring
    _ < (1 / 2 + Double.lowerGap mantissa exponent) * 2 ^ exponent :=
        mul_lt_mul_of_pos_right hwidth hunit
    _ = (mantissa + 1 / 2 - (mantissa - Double.lowerGap mantissa exponent)) * 2 ^ exponent := by
        ring

/-- What is found on a grid is rounded to the value. -/
theorem roundsFrom_of_onGrid? {tie : Tie} {grid : Int} {c : Nat} (h : 0 < mantissa)
    (hc : (Interval.around mantissa exponent).onGrid? (exponent - 2) grid tie = some c) :
    Double.RoundsFrom mantissa exponent (normalize c grid).value := by
  have hholds := (Interval.holds_iff _
    (Nat.mul_pos (Nat.pow_pos (by decide)) (Nat.pow_pos (by decide)))
    (step_mul_eq _ _) (by positivity) c).mp (Interval.holds_of_onGrid? hc)
  rw [Interval.high_around, Interval.low_around h, four_mul_unit, four_mul_unit,
    ← value_normalize] at hholds
  obtain ⟨⟨hlower, hupper⟩, hopen⟩ := hholds
  refine ⟨hlower, hupper, fun hodd => hopen ?_⟩
  show (mantissa % 2 == 0) = false
  rw [hodd]
  rfl

/-- The coefficient of the shortest decimal is never zero. -/
theorem coefficient_shortest_pos (tie : Tie) (h : 0 < mantissa) (exponent : Int) :
    0 < (shortest tie mantissa exponent).coefficient := by
  unfold shortest
  dsimp only
  generalize hfound : List.findSome? _ _ = found
  cases found with
  | none => exact h
  | some d =>
      obtain ⟨n, -, hn⟩ := List.exists_of_findSome?_eq_some hfound
      obtain ⟨c, hc, rfl⟩ := Option.map_eq_some_iff.mp hn
      refine Nat.pos_of_ne_zero fun hzero => ?_
      have hpos := (roundsFrom_of_onGrid? h hc).pos h
      rw [value, show (normalize c _).coefficient = 0 from hzero, Nat.cast_zero, zero_mul] at hpos
      exact lt_irrefl _ hpos

/-- **The shortest decimal is rounded to the value it was found for**, whichever way ties go. -/
theorem shortest_roundsFrom (tie : Tie) (h : 0 < mantissa) (hbits : mantissa < 2 ^ 53)
    (exponent : Int) :
    Double.RoundsFrom mantissa exponent (shortest tie mantissa exponent).value := by
  obtain ⟨hnum, hden⟩ := scale_pos mantissa exponent h
  have htop := pow_exponentOf_le hnum hden
  rw [scale_div] at htop
  unfold shortest
  dsimp only
  generalize exponentOf (Double.scale mantissa 1 (-exponent)).1
    (Double.scale mantissa 1 (-exponent)).2 = top at htop ⊢
  generalize hfound : List.findSome? _ _ = found
  cases found with
  | none =>
      -- The grid of seventeen digits is among those that are searched.
      rw [List.findSome?_eq_none_iff] at hfound
      have hnone := Option.map_eq_none_iff.mp (hfound 16 (List.mem_range.mpr (by decide)))
      have hsome := (Interval.around mantissa exponent).isSome_onGrid? tie
        (Interval.low_le_value mantissa exponent) (Nat.lt_add_of_pos_right (by decide))
        (pow_lt_width h hbits htop)
      exact absurd (hnone ▸ hsome) (by decide)
  | some d =>
      obtain ⟨n, -, hn⟩ := List.exists_of_findSome?_eq_some hfound
      obtain ⟨c, hc, rfl⟩ := Option.map_eq_some_iff.mp hn
      exact roundsFrom_of_onGrid? h hc

end Decimal

end Depot
