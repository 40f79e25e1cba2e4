import Depot.Json.Printer
import Depot.Json.Token
import Depot.Proofs.Placeholder

/-!
# Compact text — no blank outside a literal

Text is **`Compact`** when every blank in it stands inside a string literal. The text of a number has
neither blanks nor quotation marks (`plain_numberText`), and the marks between the parts of a document
are single characters, so every document is printed compactly (**`compact_render`**).
-/

namespace Depot.Json

/-- Whether a character is neither a blank nor a quotation mark. -/
def isPlain (c : Char) : Bool := !Token.isBlank c && c != '"'

/-- Text in which a blank stands only inside a literal. -/
inductive Compact : List Char → Prop where
  | nil : Compact []
  | plain {c : Char} {cs : List Char} : isPlain c = true → Compact cs → Compact (c :: cs)
  | literal (s : String) {cs : List Char} : Compact cs → Compact (Literal.quote s ++ cs)

/-- Compact texts are compact one behind the other. -/
theorem Compact.append {cs ds : List Char} (h : Compact cs) (h' : Compact ds) :
    Compact (cs ++ ds) := by
  induction h with
  | nil => exact h'
  | plain hc _ ih => exact .plain hc ih
  | literal s _ ih =>
      rw [List.append_assoc]
      exact .literal s ih

/-- Text without blanks and quotation marks is compact. -/
theorem compact_of_plain {cs : List Char} (h : cs.all isPlain = true) : Compact cs := by
  induction cs with
  | nil => exact .nil
  | cons c cs ih =>
      rw [List.all_cons, Bool.and_eq_true] at h
      exact .plain h.1 (ih h.2)

/-! ## Numbers -/

theorem isPlain_of_isDigit {c : Char} (h : c.isDigit = true) : isPlain c = true := by
  have hblank : Token.isBlank c = false := by
    rw [Bool.eq_false_iff]
    intro hblank
    simp only [Token.isBlank, Bool.or_eq_true, decide_eq_true_eq] at hblank
    rcases hblank with ((rfl | rfl) | rfl) | rfl <;> exact nomatch h
  have hquote : c ≠ '"' := by
    rintro rfl
    exact nomatch h
  rw [isPlain, hblank, bne_iff_ne.mpr hquote]
  rfl

theorem plain_toDigits (n : Nat) : (Nat.toDigits 10 n).all isPlain = true :=
  List.all_eq_true.mpr fun c hc => isPlain_of_isDigit (isDigit_toDigits n c hc)

theorem plain_integerText (n : Int) : (integerText n).all isPlain = true := by
  unfold integerText
  split
  · rw [List.all_cons, plain_toDigits]
    rfl
  · exact plain_toDigits _

theorem plain_positionalText {mark : List Char} (hmark : mark.all isPlain = true) (d : Decimal) :
    (d.positionalText mark).all isPlain = true := by
  have hzeros (k : Nat) : (List.replicate k '0').all isPlain = true := by
    rw [List.all_eq_true]
    intro c hc
    rw [List.eq_of_mem_replicate hc]
    rfl
  have hdigits : d.digits.all isPlain = true := plain_toDigits _
  unfold Decimal.positionalText
  split
  · rw [List.all_append, List.all_append, hdigits, hzeros, hmark]
    rfl
  · -- The point is put somewhere into the padded digits.
    have hpadded (k : Nat) : ∀ c ∈ List.replicate k '0' ++ d.digits, isPlain c = true := by
      rw [← List.all_eq_true, List.all_append, hzeros, hdigits]
      rfl
    have htake (k m : Nat) : ((List.replicate k '0' ++ d.digits).take m).all isPlain = true :=
      List.all_eq_true.mpr fun c hc => hpadded k c (List.mem_of_mem_take hc)
    have hdrop (k m : Nat) : ((List.replicate k '0' ++ d.digits).drop m).all isPlain = true :=
      List.all_eq_true.mpr fun c hc => hpadded k c (List.mem_of_mem_drop hc)
    rw [List.all_append, List.all_cons, htake, hdrop]
    rfl

theorem plain_scientificText (d : Decimal) : d.scientificText.all isPlain = true := by
  have hdigits : d.digits.all isPlain = true := plain_toDigits _
  unfold Decimal.scientificText
  rw [List.all_append, List.all_cons, List.all_cons, plain_toDigits, Bool.and_eq_true]
  constructor
  · split
    · rfl
    · rename_i c heq
      rwa [heq] at hdigits
    · rename_i c rest _ heq
      rw [heq, List.all_cons] at hdigits
      rw [List.all_cons, List.all_cons]
      exact hdigits
  · split <;> rfl

theorem plain_text (d : Decimal) : (d.text numberFormat).all isPlain = true := by
  unfold Decimal.text
  split
  · exact plain_positionalText (by decide) d
  · exact plain_scientificText d

/-- **The text of a number** has neither blanks nor quotation marks. -/
theorem plain_numberText (x : Double) : (numberText x).toList.all isPlain = true := by
  have hnull : "null".toList.all isPlain = true := by decide
  unfold numberText
  split
  · cases x with
    | nan => exact hnull
    | infinite negative => cases negative <;> decide
    | finite negative mantissa exponent =>
        have hsign : (if negative then "-" else "").toList.all isPlain = true := by
          cases negative <;> decide
        unfold Double.text
        rw [String.toList_append, String.toList_ofList, List.all_append, hsign, Bool.true_and]
        split
        · decide
        · exact plain_text _
  · exact hnull

/-! ## Documents -/

mutual

/-- Every kind of document is printed compactly, by the recursion that prints it. -/
theorem compact_chars : ∀ j : Json, Compact j.chars
  | .null => compact_of_plain (by decide)
  | .boolean true => compact_of_plain (by decide)
  | .boolean false => compact_of_plain (by decide)
  | .integer n => compact_of_plain (plain_integerText n)
  | .float x => compact_of_plain (plain_numberText x)
  | .text s => by
      have hquote : Compact (Literal.quote s ++ []) := .literal s .nil
      rwa [List.append_nil] at hquote
  | .array [] => compact_of_plain (by decide)
  | .array (j :: rest) => .plain rfl ((compact_chars j).append (compact_elementChars rest))
  | .object [] => compact_of_plain (by decide)
  | .object ((name, j) :: rest) =>
      .plain rfl (.literal name (.plain rfl ((compact_chars j).append (compact_memberChars rest))))

theorem compact_elementChars : ∀ js : List Json, Compact (elementChars js)
  | [] => compact_of_plain (by decide)
  | j :: rest => .plain rfl ((compact_chars j).append (compact_elementChars rest))

theorem compact_memberChars : ∀ ms : List (String × Json), Compact (memberChars ms)
  | [] => compact_of_plain (by decide)
  | (name, j) :: rest =>
      .plain rfl (.literal name (.plain rfl ((compact_chars j).append (compact_memberChars rest))))

end

/-- **Documents are printed compactly.** -/
theorem compact_render (j : Json) : Compact j.render.toList := by
  rw [render, String.toList_ofList]
  exact compact_chars j

end Depot.Json
