import Depot.Json.Printer
import Depot.Json.Token

/-!
# Printed texts as tokens — scanning undoes quoting

A character that is written into a literal is read as itself, be it as it is, in a short escape or in
hexadecimal digits (**`scanFrom_escapeChar`**). Hence a quoted text is one token
(**`scanFrom_quote`**), whatever its characters are.
-/

namespace Depot.Json.Token

open Literal

/-! ## Literals -/

theorem hexValue?_hexDigit {n : Nat} (h : n < 16) : hexValue? (hexDigit n) = some n := by
  have hall : ∀ n < 16, hexValue? (hexDigit n) = some n := by decide
  exact hall n h

/-- The two digits that are written for a control character are read as its number. -/
theorem hexUnit?_of_lt {n : Nat} (h : n < 0x20) :
    hexUnit? '0' '0' (hexDigit (n / 16)) (hexDigit (n % 16)) = some n := by
  have hzero : hexValue? '0' = some 0 := by decide
  rw [hexUnit?, hzero, hexValue?_hexDigit (by omega), hexValue?_hexDigit (by omega)]
  show some _ = some n
  rw [Option.some.injEq]
  omega

/-- A short escape is read as the character that it was written for, and is no unit. -/
theorem unescape?_of_shortEscape? {c e : Char} (h : shortEscape? c = some e) :
    unescape? e = some c ∧ e ≠ 'u' := by
  unfold shortEscape? at h
  -- One case for each of the seven short escapes, and the last one without any.
  repeat' split at h
  all_goals
    first
    | obtain rfl := Option.some.inj h
      rename_i hc
      subst hc
      exact ⟨by decide, by decide⟩
    | exact nomatch h

/-- A character without a short escape is neither a quotation mark nor a backslash. -/
theorem ne_of_shortEscape?_eq_none {c : Char} (h : shortEscape? c = none) : c ≠ '"' ∧ c ≠ '\\' := by
  refine ⟨?_, ?_⟩ <;> rintro rfl <;> exact absurd h (by decide)

/-- A character that needs no escape is read as itself. -/
theorem scanFrom_plain {c : Char} (hquote : c ≠ '"') (hbackslash : c ≠ '\\')
    (hcontrol : ¬ c.toNat < 0x20) (read rest : List Char) :
    scanFrom (some read) (c :: rest) = scanFrom (some (c :: read)) rest := by
  rw [scanFrom.eq_def (some read)]
  show (if c = '"' then _ else if c = '\\' then _ else if c.toNat < 0x20 then _ else _) = _
  rw [if_neg hquote, if_neg hbackslash, if_neg hcontrol]

/-- A short escape is read as the character that it stands for. -/
theorem scanFrom_short {c e : Char} (h : unescape? e = some c) (hne : e ≠ 'u')
    (read rest : List Char) :
    scanFrom (some read) ('\\' :: e :: rest) = scanFrom (some (c :: read)) rest := by
  rw [scanFrom.eq_def (some read)]
  simp only [if_neg (show ¬ '\\' = '"' by decide), ↓reduceIte]
  -- The first branch is that of a unit, the last one that of a text which ends here.
  split
  · rename_i heq
    exact absurd (List.cons.inj heq).1 hne
  · rename_i heq
    obtain ⟨rfl, rfl⟩ := List.cons.inj heq
    rw [h]
  · rename_i heq
    exact nomatch heq

/-- A unit that is no half of a pair is read as its character. -/
theorem scanFrom_unit {h₁ h₂ h₃ h₄ : Char} {u : Nat} (h : hexUnit? h₁ h₂ h₃ h₄ = some u)
    (hleading : isLeading u = false) (htrailing : isTrailing u = false) (read rest : List Char) :
    scanFrom (some read) ('\\' :: 'u' :: h₁ :: h₂ :: h₃ :: h₄ :: rest)
      = scanFrom (some (Char.ofNat u :: read)) rest := by
  rw [scanFrom.eq_def (some read)]
  simp only [if_neg (show ¬ '\\' = '"' by decide), ↓reduceIte, h, hleading, htrailing]
  rfl

/-- **What is written for a character** is read as that character. -/
theorem scanFrom_escapeChar (c : Char) (read rest : List Char) :
    scanFrom (some read) (escapeChar c ++ rest) = scanFrom (some (c :: read)) rest := by
  unfold escapeChar
  cases hshort : shortEscape? c with
  | some e =>
      obtain ⟨hunescape, hne⟩ := unescape?_of_shortEscape? hshort
      exact scanFrom_short hunescape hne read rest
  | none =>
      obtain ⟨hquote, hbackslash⟩ := ne_of_shortEscape?_eq_none hshort
      by_cases hcontrol : c.toNat < 0x20
      · have hunit := scanFrom_unit (hexUnit?_of_lt hcontrol) (by simp [isLeading]; omega)
          (by simp [isTrailing]; omega) read rest
        rw [Char.ofNat_toNat] at hunit
        simp only [if_pos hcontrol]
        exact hunit
      · simp only [if_neg hcontrol]
        exact scanFrom_plain hquote hbackslash hcontrol read rest

theorem scanFrom_escape (cs read rest : List Char) :
    scanFrom (some read) (escape cs ++ rest) = scanFrom (some (cs.reverse ++ read)) rest := by
  induction cs generalizing read with
  | nil => rfl
  | cons c cs ih =>
      rw [escape, List.append_assoc, scanFrom_escapeChar, ih, List.reverse_cons, List.append_assoc,
        List.singleton_append]

/-- **A quoted text is one token**, whatever its characters are. -/
theorem scanFrom_quote (s : String) (rest : List Char) :
    scanFrom none (quote s ++ rest) = (scanFrom none rest).map (.text s :: ·) := by
  have hopen (cs : List Char) : scanFrom none ('"' :: cs) = scanFrom (some []) cs := by
    rw [scanFrom, if_neg (by decide), if_pos rfl]
  have hclose (cs : List Char) : scanFrom (some s.toList.reverse) ('"' :: cs)
      = (scanFrom none cs).map (.text s :: ·) := by
    rw [scanFrom.eq_def (some _)]
    simp only [↓reduceIte, List.reverse_reverse, String.ofList_toList]
  rw [quote, List.cons_append, hopen, List.append_assoc, scanFrom_escape, List.append_nil,
    List.singleton_append, hclose]

/-! ## Marks -/

theorem scanFrom_mark {c : Char} {t : Token} (hblank : isBlank c = false) (hquote : c ≠ '"')
    (h : mark? c = some t) (rest : List Char) :
    scanFrom none (c :: rest) = (scanFrom none rest).map (t :: ·) := by
  rw [scanFrom, if_neg (by simp [hblank]), if_neg hquote, h]

theorem scanFrom_opening (rest : List Char) :
    scanFrom none ('{' :: rest) = (scanFrom none rest).map (.opening :: ·) :=
  scanFrom_mark (by decide) (by decide) (by decide) rest

theorem scanFrom_closing (rest : List Char) :
    scanFrom none ('}' :: rest) = (scanFrom none rest).map (.closing :: ·) :=
  scanFrom_mark (by decide) (by decide) (by decide) rest

theorem scanFrom_colon (rest : List Char) :
    scanFrom none (':' :: rest) = (scanFrom none rest).map (.colon :: ·) :=
  scanFrom_mark (by decide) (by decide) (by decide) rest

theorem scanFrom_comma (rest : List Char) :
    scanFrom none (',' :: rest) = (scanFrom none rest).map (.comma :: ·) :=
  scanFrom_mark (by decide) (by decide) (by decide) rest

end Depot.Json.Token
