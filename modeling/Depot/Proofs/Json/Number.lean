import Depot.Json.Printer
import Depot.Proofs.Number.Shortest
import Depot.Proofs.Placeholder

/-!
# A grammar of numbers — which texts spell integers and floating-point numbers

The text of a number is a sign, whole digits without a zero in front of others, a fraction and an
exponent, of which only the whole digits are always there. **`SizeText`** gives it the rational
number that it denotes, so nothing is said about how it is read.

An integer is spelled by a sign and whole digits (**`integerText_spells`**). A floating-point number is
spelled by a number with a fraction or an exponent that is rounded to it
(**`numberText_spells`**).
-/

namespace Depot.Json

/-! ## The grammar -/

/-- At least one decimal digit. -/
structure Digits (cs : List Char) : Prop where
  nonempty : cs ≠ []
  digit : ∀ c ∈ cs, c.isDigit = true

/-- Whole digits: a zero stands in front of no others. -/
structure WholeDigits (cs : List Char) : Prop extends Digits cs where
  zero : cs.head? = some '0' → cs = ['0']

/-- Nothing, or a point and the digits behind it. -/
inductive Fraction : List Char → List Char → Prop where
  | none : Fraction [] []
  | places {ds : List Char} : Digits ds → Fraction ('.' :: ds) ds

/-- The sign of an exponent, which may be left out when it is not negative. -/
inductive ExponentSign : List Char → Int → Prop where
  | none : ExponentSign [] 1
  | plus : ExponentSign ['+'] 1
  | minus : ExponentSign ['-'] (-1)

/-- Nothing, or an e in either case, a sign and digits. -/
inductive ExponentText : List Char → Int → Prop where
  | none : ExponentText [] 0
  | power {e : Char} {sign ds : List Char} {s : Int} :
      e = 'e' ∨ e = 'E' → ExponentSign sign s → Digits ds →
      ExponentText (e :: (sign ++ ds)) (s * Nat.ofDigitChars 10 ds 0)

/-- A number without its sign, with its value: each place behind the point is worth a tenth of the
    one in front of it. -/
inductive SizeText : List Char → ℚ → Prop where
  | mk {whole fraction places exponent : List Char} {e : Int} :
      WholeDigits whole → Fraction fraction places → ExponentText exponent e →
      SizeText (whole ++ (fraction ++ exponent))
        (Nat.ofDigitChars 10 (whole ++ places) 0 * 10 ^ (e - places.length))

/-- A sign and whole digits, with the integer that they denote. -/
inductive IntegerText : List Char → Int → Prop where
  | plain {ds : List Char} : WholeDigits ds → IntegerText ds (Nat.ofDigitChars 10 ds 0)
  | minus {ds : List Char} : WholeDigits ds → IntegerText ('-' :: ds) (-Nat.ofDigitChars 10 ds 0)

/-- A number with a fraction or an exponent, with the value to which it is rounded, for a mantissa of
    the 53 bits that there are. What is not finite has no number and is null. -/
inductive FloatText : List Char → Double → Prop where
  | finite {size : List Char} {q : ℚ} {mantissa : Nat} {exponent : Int} (negative : Bool) :
      SizeText size q → (∃ c ∈ size, c.isDigit = false) →
      (mantissa < 2 ^ 53 → Double.RoundsFrom mantissa exponent q) →
      FloatText ((if negative then ['-'] else []) ++ size) (.finite negative mantissa exponent)
  | null {x : Double} : x.isFinite = false → FloatText "null".toList x

/-! ## Digits -/

theorem digits_toDigits (n : Nat) : Digits (Nat.toDigits 10 n) :=
  ⟨Nat.toDigits_ne_nil, isDigit_toDigits n⟩

/-- The digits of a positive number do not start with a zero. -/
theorem head?_toDigits_ne {n : Nat} (h : 0 < n) : (Nat.toDigits 10 n).head? ≠ some '0' := by
  induction n using Nat.strongRecOn with
  | ind n ih =>
      by_cases hlt : n < 10
      · have hall : ∀ n < 10, 0 < n → [Nat.digitChar n].head? ≠ some '0' := by decide
        rw [Nat.toDigits_of_lt_base hlt]
        exact hall n hlt h
      · have hne : Nat.toDigits 10 (n / 10) ≠ [] := Nat.toDigits_ne_nil
        rw [Nat.toDigits_of_base_le (by decide) (by omega), List.head?_append_of_ne_nil _ hne]
        exact ih (n / 10) (by omega) (by omega)

/-- The digits of a natural number are whole digits, and those of zero are one zero. -/
theorem wholeDigits_toDigits (n : Nat) : WholeDigits (Nat.toDigits 10 n) where
  toDigits := digits_toDigits n
  zero := by
    rcases Nat.eq_zero_or_pos n with rfl | hpos
    · exact fun _ => rfl
    · exact fun h => absurd h (head?_toDigits_ne hpos)

/-- **The text of an integer** spells it. -/
theorem integerText_spells (n : Int) : IntegerText (integerText n) n := by
  unfold integerText
  split
  · have hspells := IntegerText.minus (wholeDigits_toDigits n.natAbs)
    rwa [Nat.ofDigitChars_ten_toDigits, Int.natCast_natAbs, abs_of_neg ‹_›, neg_neg] at hspells
  · have hspells := IntegerText.plain (wholeDigits_toDigits n.natAbs)
    rwa [Nat.ofDigitChars_ten_toDigits, Int.natCast_natAbs, abs_of_nonneg (by omega)] at hspells

/-! ## Layouts -/

/-- One digit is whole digits, a zero among them. -/
theorem wholeDigits_singleton {c : Char} (h : c.isDigit = true) : WholeDigits [c] where
  nonempty := List.cons_ne_nil _ _
  digit := fun _ hc => List.mem_singleton.mp hc ▸ h
  zero := fun hc => by rw [Option.some.inj hc]

theorem Digits.append_zeros {cs : List Char} (h : Digits cs) (k : Nat) :
    Digits (cs ++ List.replicate k '0') where
  nonempty := List.append_ne_nil_of_left_ne_nil h.nonempty _
  digit := by
    intro c hc
    rcases List.mem_append.mp hc with hc | hc
    · exact h.digit c hc
    · rw [List.eq_of_mem_replicate hc]
      rfl

theorem exponentText_spells (e : Int) :
    ExponentText ('e' :: (if e < 0 then '-' else '+') :: Nat.toDigits 10 e.natAbs) e := by
  split
  · have htext := ExponentText.power (.inl rfl) .minus (digits_toDigits e.natAbs)
    rwa [Nat.ofDigitChars_ten_toDigits, Int.natCast_natAbs, abs_of_neg ‹_›, neg_one_mul,
      neg_neg] at htext
  · have htext := ExponentText.power (.inl rfl) .plus (digits_toDigits e.natAbs)
    rwa [Nat.ofDigitChars_ten_toDigits, Int.natCast_natAbs, abs_of_nonneg (by omega),
      one_mul] at htext

section

variable {d : Decimal}

theorem digits_digits (d : Decimal) : Digits d.digits := digits_toDigits _

theorem ofDigitChars_digits (d : Decimal) : Nat.ofDigitChars 10 d.digits 0 = d.coefficient :=
  Nat.ofDigitChars_ten_toDigits

/-- Digits with zeros behind them, and a place. -/
theorem sizeText_zeros (h : 0 < d.coefficient) (he : 0 ≤ d.exponent) :
    SizeText (d.digits ++ List.replicate d.exponent.toNat '0' ++ ".0".toList) d.value := by
  have hwhole : WholeDigits (d.digits ++ List.replicate d.exponent.toNat '0') := by
    refine ⟨(digits_digits d).append_zeros _, fun hzero => ?_⟩
    rw [List.head?_append_of_ne_nil _ (digits_digits d).nonempty] at hzero
    exact absurd hzero (head?_toDigits_ne h)
  have hplace : Fraction ".0".toList ['0'] := .places (wholeDigits_singleton rfl).toDigits
  have htext := SizeText.mk hwhole hplace .none
  have hvalue : ((Nat.ofDigitChars 10 (d.digits ++ List.replicate d.exponent.toNat '0' ++ ['0']) 0
      : Nat) : ℚ) * 10 ^ ((0 : Int) - (['0'] : List Char).length) = d.value := by
    have hpow : (10 : ℚ) ^ d.exponent.toNat = 10 ^ d.exponent := by
      rw [← zpow_natCast, Int.toNat_of_nonneg he]
    rw [Nat.ofDigitChars_append, Nat.ofDigitChars_append, ofDigitChars_digits,
      Nat.ofDigitChars_replicate_zero, Decimal.value, ← hpow]
    simp [Nat.ofDigitChars_cons]
    ring
  rwa [List.append_nil, hvalue] at htext

/-- Digits with a point among them, padded with zeros in front of them. -/
theorem sizeText_point (h : 0 < d.coefficient) {places : Nat} (hplaces : 0 < places)
    (he : d.exponent = -places) {padded : List Char}
    (hpadded : padded = List.replicate (places + 1 - d.digits.length) '0' ++ d.digits) :
    SizeText (padded.take (padded.length - places) ++ '.' ::
      padded.drop (padded.length - places)) d.value := by
  have hlength : padded.length = places + 1 - d.digits.length + d.digits.length := by
    rw [hpadded, List.length_append, List.length_replicate]
  have hdigit : ∀ c ∈ padded, c.isDigit = true := by
    intro c hc
    rw [hpadded] at hc
    rcases List.mem_append.mp hc with hc | hc
    · rw [List.eq_of_mem_replicate hc]
      rfl
    · exact (digits_digits d).digit c hc
  have hvalue : Nat.ofDigitChars 10 padded 0 = d.coefficient := by
    rw [hpadded, Nat.ofDigitChars_append, Nat.ofDigitChars_replicate_zero, Nat.mul_zero,
      ofDigitChars_digits]
  have hwhole : WholeDigits (padded.take (padded.length - places)) := by
    refine ⟨⟨?_, fun c hc => hdigit c (List.mem_of_mem_take hc)⟩, fun hzero => ?_⟩
    · rw [← List.length_pos_iff, List.length_take]
      omega
    · -- Either one padding zero stands in front of the point, or there is none.
      by_cases hshort : d.digits.length ≤ places
      · have hone : padded.length - places = 1 := by omega
        rw [hone] at hzero ⊢
        obtain ⟨c, cs, rfl⟩ := List.exists_cons_of_length_pos (show 0 < padded.length by omega)
        obtain rfl := Option.some.inj hzero
        rfl
      · have hnone : places + 1 - d.digits.length = 0 := by omega
        rw [hnone, List.replicate_zero, List.nil_append] at hpadded
        rw [List.head?_take, if_neg (by omega), hpadded] at hzero
        exact absurd hzero (head?_toDigits_ne h)
  have hplace : Fraction ('.' :: padded.drop (padded.length - places))
      (padded.drop (padded.length - places)) := by
    refine .places ⟨?_, fun c hc => hdigit c (List.mem_of_mem_drop hc)⟩
    rw [← List.length_pos_iff, List.length_drop]
    omega
  have htext := SizeText.mk hwhole hplace .none
  have hshift : (0 : Int) - (padded.drop (padded.length - places)).length = d.exponent := by
    rw [List.length_drop]
    omega
  rwa [List.append_nil, List.take_append_drop, hvalue, hshift] at htext

/-- All places of a number, with a point among them or behind them. -/
theorem sizeText_positionalText (h : 0 < d.coefficient) :
    SizeText (d.positionalText ".0".toList) d.value := by
  unfold Decimal.positionalText
  split
  · exact sizeText_zeros h ‹_›
  · exact sizeText_point h (by omega) (by omega) rfl

/-- One digit in front of the point, the others behind it, and an exponent. -/
theorem sizeText_scientificText (d : Decimal) : SizeText d.scientificText d.value := by
  have hdigits := digits_digits d
  have hexponent := exponentText_spells d.leadingExponent
  unfold Decimal.scientificText Decimal.value
  rw [← ofDigitChars_digits d]
  unfold Decimal.leadingExponent at hexponent ⊢
  generalize d.digits = ds at *
  rcases ds with _ | ⟨c, _ | ⟨c', rest⟩⟩
  · exact absurd rfl hdigits.nonempty
  · have htext := SizeText.mk (wholeDigits_singleton (hdigits.digit c List.mem_cons_self)) .none
      hexponent
    have hshift : d.exponent + (([c] : List Char).length : Int) - 1 - ([] : List Char).length
        = d.exponent := by simp
    rwa [List.append_nil, hshift] at htext
  · have hplaces : Digits (c' :: rest) :=
      ⟨List.cons_ne_nil _ _, fun x hx => hdigits.digit x (List.mem_cons_of_mem c hx)⟩
    have htext := SizeText.mk (wholeDigits_singleton (hdigits.digit c List.mem_cons_self))
      (.places hplaces) hexponent
    have hshift : d.exponent + ((c :: c' :: rest).length : Int) - 1 - (c' :: rest).length
        = d.exponent := by
      simp only [List.length_cons]
      omega
    rwa [hshift] at htext

end

/-- A layout is no text of digits alone, and denotes the number that is laid out. -/
theorem sizeText_text {d : Decimal} (h : 0 < d.coefficient) :
    SizeText (d.text numberFormat) d.value ∧ ∃ c ∈ d.text numberFormat, c.isDigit = false := by
  unfold Decimal.text
  split
  · refine ⟨sizeText_positionalText h, '.', ?_, rfl⟩
    unfold Decimal.positionalText
    split
    · exact List.mem_append_right _ (by decide)
    · exact List.mem_append_right _ List.mem_cons_self
  · refine ⟨sizeText_scientificText d, 'e', ?_, rfl⟩
    unfold Decimal.scientificText
    exact List.mem_append_right _ List.mem_cons_self

theorem sizeText_zero : SizeText "0.0".toList 0 := by
  have htext := SizeText.mk (wholeDigits_singleton (c := '0') rfl)
    (.places (wholeDigits_singleton (c := '0') rfl).toDigits) .none
  have hvalue : Nat.ofDigitChars 10 (['0'] ++ ['0']) 0 = 0 := by decide
  rwa [hvalue, Nat.cast_zero, zero_mul] at htext

/-- **The text of a floating-point number** spells it. -/
theorem numberText_spells (x : Double) : FloatText (numberText x).toList x := by
  unfold numberText
  cases x with
  | nan => exact .null rfl
  | infinite negative => exact .null rfl
  | finite negative mantissa exponent =>
      show FloatText (Double.text numberFormat (.finite negative mantissa exponent)).toList _
      have hsign : (if negative then "-" else "").toList = if negative then ['-'] else [] := by
        cases negative <;> rfl
      unfold Double.text
      rw [String.toList_append, String.toList_ofList, hsign]
      by_cases hzero : mantissa = 0
      · rw [if_pos hzero, hzero]
        exact .finite negative sizeText_zero ⟨'.', by decide, rfl⟩ fun _ => .zero exponent
      · have hpos := Nat.pos_of_ne_zero hzero
        obtain ⟨hsize, hmark⟩ :=
          sizeText_text (Decimal.coefficient_shortest_pos .toEven hpos exponent)
        rw [if_neg hzero]
        exact .finite negative hsize hmark fun hbits =>
          Decimal.shortest_roundsFrom .toEven hpos hbits exponent

end Depot.Json
