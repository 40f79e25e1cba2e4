import Depot.Condition
import Depot.Clauses

/-!
# Placeholders — their form, their numbers and where they stand

A placeholder is a colon and a non-empty word of ASCII letters, digits and underscores
(**`Placeholder`**). **`placeholdersIn`** reads off a text the placeholders that stand in it, each of
them a colon with the longest word behind it, so that no placeholder is taken for the beginning of
another one.

Every placeholder ends in a number, and what stands in front of the number does not end in a digit,
so that the number can be told from the name in front of it (`append_toDigits_inj`). Therefore

* **`operandPlaceholder_index`** — operands with different numbers have different placeholders,
  whatever the names of their attributes are;
* **`ValuedClause.placeholder_inj`** — so have the entries of the clauses of an update;
* **`operandPlaceholder_ne_placeholder`** — and an operand never has the placeholder of an entry,
  since only the first has an underscore.
-/

namespace Depot

/-- Whether a character may stand in a placeholder behind the colon. -/
def isWordChar (c : Char) : Bool := c.isAlphanum || c == '_'

/-- A text that is a colon and a non-empty word. -/
def Placeholder (s : String) : Prop :=
  ∃ word : List Char, word ≠ [] ∧ word.all isWordChar = true ∧ s = String.ofList (':' :: word)

/-- The placeholders that stand in a text: for each colon, the longest word behind it. -/
def placeholdersIn : List Char → List String
  | [] => []
  | c :: rest =>
      if c = ':' then String.ofList (':' :: rest.takeWhile isWordChar) :: placeholdersIn rest
      else placeholdersIn rest

/-- What is ahead does not make a word longer that ends here. -/
def WordEnds (rest : List Char) : Prop := ∀ c ∈ rest.head?, isWordChar c = false

theorem isWordChar_of_isBlank {c : Char} (h : Text.isBlank c = true) : isWordChar c = false := by
  rw [Bool.eq_false_iff]
  intro hw
  -- Both as ranges of code points, which do not meet.
  have hword : (48 ≤ c.toNat ∧ c.toNat ≤ 57) ∨ (65 ≤ c.toNat ∧ c.toNat ≤ 90) ∨ c.toNat = 95 ∨
      (97 ≤ c.toNat ∧ c.toNat ≤ 122) := by
    have hranges : (((decide (65 ≤ c.val ∧ c.val ≤ 90) || (97 ≤ c.val && c.val ≤ 122)) ||
        (48 ≤ c.val && c.val ≤ 57)) || c == '_') = true := hw
    simp only [Bool.or_eq_true, Bool.and_eq_true, decide_eq_true_eq, beq_iff_eq,
      UInt32.le_iff_toNat_le] at hranges
    rcases hranges with ((hw | hw) | hw) | rfl
    · exact .inr (.inl hw)
    · exact .inr (.inr (.inr hw))
    · exact .inl hw
    · exact .inr (.inr (.inl rfl))
  simp only [Text.isBlank, Bool.or_eq_true, Bool.and_eq_true, decide_eq_true_eq, beq_iff_eq] at h
  omega

/-! ## Reading placeholders off a text -/

theorem wordEnds_cons {c : Char} (h : isWordChar c = false) (rest : List Char) :
    WordEnds (c :: rest) := by
  intro d hd
  obtain rfl : c = d := Option.some.inj hd
  exact h

/-- A word that ends is not read on. -/
theorem takeWhile_append_of_wordEnds {rest : List Char} (h : WordEnds rest) (cs : List Char) :
    (cs ++ rest).takeWhile isWordChar = cs.takeWhile isWordChar := by
  induction cs with
  | nil =>
      cases rest with
      | nil => rfl
      | cons c rest => simp [h c rfl]
  | cons c cs ih =>
      rw [List.cons_append, List.takeWhile_cons, List.takeWhile_cons, ih]

/-- Two texts are read one after the other where no word goes over from the first to the
    second. -/
theorem placeholdersIn_append {rest : List Char} (h : WordEnds rest) (cs : List Char) :
    placeholdersIn (cs ++ rest) = placeholdersIn cs ++ placeholdersIn rest := by
  induction cs with
  | nil => rfl
  | cons c cs ih =>
      rw [List.cons_append, placeholdersIn, placeholdersIn, ih, takeWhile_append_of_wordEnds h]
      by_cases hc : c = ':'
      · rw [if_pos hc, if_pos hc, List.cons_append]
      · rw [if_neg hc, if_neg hc]

/-- A text without a colon has no placeholder. -/
theorem placeholdersIn_of_not_mem {cs : List Char} (h : ':' ∉ cs) : placeholdersIn cs = [] := by
  induction cs with
  | nil => rfl
  | cons c cs ih =>
      rw [List.mem_cons, not_or] at h
      rw [placeholdersIn, if_neg (Ne.symm h.1)]
      exact ih h.2

/-- A text without a colon adds no placeholder in front of another text. -/
theorem placeholdersIn_append_of_not_mem {cs : List Char} (h : ':' ∉ cs) (rest : List Char) :
    placeholdersIn (cs ++ rest) = placeholdersIn rest := by
  induction cs with
  | nil => rfl
  | cons c cs ih =>
      rw [List.mem_cons, not_or] at h
      rw [List.cons_append, placeholdersIn, if_neg (Ne.symm h.1)]
      exact ih h.2

theorem colon_not_mem_of_word {word : List Char} (h : word.all isWordChar = true) :
    ':' ∉ word := by
  intro hm
  exact absurd (List.all_eq_true.mp h ':' hm) (by decide)

/-- A placeholder is found in itself, and nothing else is. -/
theorem Placeholder.placeholdersIn {s : String} (h : Placeholder s) :
    placeholdersIn s.toList = [s] := by
  obtain ⟨word, -, hword, rfl⟩ := h
  have hall : word.takeWhile isWordChar = word := by
    have : (word ++ []).takeWhile isWordChar = word ++ [].takeWhile isWordChar :=
      List.takeWhile_append_of_pos (List.all_eq_true.mp hword)
    rwa [List.takeWhile_nil, List.append_nil] at this
  rw [String.toList_ofList, Depot.placeholdersIn, if_pos rfl, hall,
    placeholdersIn_of_not_mem (colon_not_mem_of_word hword)]

theorem flatMap_placeholdersIn {ps : List String} (h : ∀ p ∈ ps, Placeholder p) :
    (ps.flatMap fun p => placeholdersIn p.toList) = ps := by
  induction ps with
  | nil => rfl
  | cons p ps ih =>
      rw [List.flatMap_cons, (h p List.mem_cons_self).placeholdersIn,
        ih fun q hq => h q (List.mem_cons_of_mem p hq), List.singleton_append]

/-! ## Texts put together -/

/-- Whether a text may stand between two others without joining or hiding their placeholders. -/
def Separator (sep : String) : Prop :=
  ':' ∉ sep.toList ∧ sep.toList.head?.any (fun c => !isWordChar c) = true

instance (sep : String) : Decidable (Separator sep) :=
  inferInstanceAs (Decidable (_ ∧ _))

theorem separator_space : Separator " " := by decide

theorem separator_comma : Separator ", " := by decide

theorem separator_closing : Separator ")" := by decide

theorem Separator.wordEnds {sep : String} (h : Separator sep) (rest : List Char) :
    WordEnds (sep.toList ++ rest) := by
  obtain ⟨-, hhead⟩ := h
  cases hsep : sep.toList with
  | nil =>
      rw [hsep] at hhead
      exact nomatch hhead
  | cons c cs =>
      rw [hsep] at hhead
      exact wordEnds_cons (by simpa using hhead) _

/-- A separator keeps the placeholders of two texts apart. -/
theorem placeholdersIn_separated {sep : String} (h : Separator sep) (left right : List Char) :
    placeholdersIn (left ++ (sep.toList ++ right))
      = placeholdersIn left ++ placeholdersIn right := by
  rw [placeholdersIn_append (h.wordEnds right), placeholdersIn_append_of_not_mem h.1]

/-- Separators keep the placeholders of any number of texts apart. -/
theorem placeholdersIn_intercalate {sep : String} (h : Separator sep) (texts : List String) :
    placeholdersIn (String.intercalate sep texts).toList
      = texts.flatMap fun text => placeholdersIn text.toList := by
  induction texts with
  | nil => simp [placeholdersIn]
  | cons text rest ih =>
      cases rest with
      | nil => simp
      | cons next rest =>
          rw [String.intercalate_cons_cons, String.toList_append, String.toList_append,
            List.append_assoc, placeholdersIn_separated h, ih]
          rfl

/-- Joined texts have the placeholders of both, also when one of them is empty. -/
theorem placeholdersIn_join {op : String} (h : Separator op) (left right : String) :
    placeholdersIn (Fragment.join op left right).toList
      = placeholdersIn left.toList ++ placeholdersIn right.toList := by
  rw [Fragment.join]
  by_cases hl : left = ""
  · rw [if_pos hl, hl]
    rfl
  · by_cases hr : right = ""
    · rw [if_neg hl, if_pos hr, hr]
      exact (List.append_nil _).symm
    · rw [if_neg hl, if_neg hr, String.toList_append, String.toList_append, List.append_assoc,
        placeholdersIn_separated h]

/-! ## Numbers at the end -/

theorem isDigit_toDigits (n : Nat) : ∀ c ∈ Nat.toDigits 10 n, c.isDigit = true := by
  intro c hc
  exact Nat.isDigit_of_mem_toDigits (by decide) (by decide) hc

theorem word_toDigits (n : Nat) : (Nat.toDigits 10 n).all isWordChar = true := by
  refine List.all_eq_true.mpr fun c hc => ?_
  simp [isWordChar, Char.isAlphanum, isDigit_toDigits n c hc]

theorem toDigits_inj {i j : Nat} (h : Nat.toDigits 10 i = Nat.toDigits 10 j) : i = j := by
  have hi := Nat.ofDigitChars_ten_toDigits (n := i)
  rw [h, Nat.ofDigitChars_ten_toDigits] at hi
  exact hi.symm

private theorem takeWhile_reverse_toDigits {xs : List Char}
    (hx : ∀ c ∈ xs.getLast?, c.isDigit = false) (i : Nat) :
    (xs ++ Nat.toDigits 10 i).reverse.takeWhile Char.isDigit = (Nat.toDigits 10 i).reverse := by
  -- Read from the end, the digits stop where the text in front of them begins.
  rw [List.reverse_append, List.takeWhile_append_of_pos
    (fun c hc => isDigit_toDigits i c (List.mem_reverse.mp hc))]
  have hnil : xs.reverse.takeWhile Char.isDigit = [] := by
    cases h : xs.reverse with
    | nil => rfl
    | cons c rest =>
        have hlast : xs.getLast? = some c := by
          rw [List.getLast?_eq_head?_reverse, h]
          rfl
        rw [List.takeWhile_cons, hx c hlast]
        rfl
  rw [hnil, List.append_nil]

/-- **A number at the end** can be told from a text in front of it that does not end in a digit. -/
theorem append_toDigits_inj {xs ys : List Char} {i j : Nat}
    (hx : ∀ c ∈ xs.getLast?, c.isDigit = false) (hy : ∀ c ∈ ys.getLast?, c.isDigit = false)
    (h : xs ++ Nat.toDigits 10 i = ys ++ Nat.toDigits 10 j) : xs = ys ∧ i = j := by
  have hdigits : Nat.toDigits 10 i = Nat.toDigits 10 j := by
    have := takeWhile_reverse_toDigits hx i
    rw [h, takeWhile_reverse_toDigits hy j] at this
    exact (List.reverse_inj.mp this).symm
  rw [hdigits] at h
  exact ⟨List.append_cancel_right h, toDigits_inj hdigits⟩

/-! ## Placeholders of operands -/

/-- The tags of the placeholders of operands. -/
def operandTags : List String :=
  ["eq", "ne", "lt", "lte", "gt", "gte", "contains", "begins_with", "start", "end", "in"]

theorem Comparison.tag_mem (comparison : Comparison) : comparison.tag ∈ operandTags := by
  cases comparison <;> decide

private theorem operandTags_word :
    ∀ tag ∈ operandTags, tag.toList.all isWordChar = true ∧ tag.toList ≠ [] := by
  decide

private theorem operandTags_getLast :
    ∀ tag ∈ operandTags, ∀ c ∈ tag.toList.getLast?, c.isDigit = false := by
  have hall : ∀ tag ∈ operandTags, tag.toList.getLast?.any Char.isDigit = false := by decide
  intro tag htag c hc
  have := hall tag htag
  rwa [hc] at this

theorem isWordChar_placeholderChar (c : Char) : isWordChar (placeholderChar c) = true := by
  unfold placeholderChar
  by_cases h : c.isAlphanum = true
  · rw [if_pos h]
    simp [isWordChar, h]
  · rw [if_neg h]
    rfl

theorem toList_operandPlaceholder (name tag : String) (index : Nat) :
    (operandPlaceholder name tag index).toList
      = (':' :: (name.toList.map placeholderChar ++ '_' :: tag.toList))
        ++ Nat.toDigits 10 index := by
  simp [operandPlaceholder, namePlaceholder, placeholderWord, Nat.toList_repr]

theorem placeholder_operandPlaceholder (name : String) {tag : String} (htag : tag ∈ operandTags)
    (index : Nat) : Placeholder (operandPlaceholder name tag index) := by
  refine ⟨name.toList.map placeholderChar ++ '_' :: tag.toList ++ Nat.toDigits 10 index, ?_, ?_, ?_⟩
  · simp
  · have hname : (name.toList.map placeholderChar).all isWordChar = true := by
      rw [List.all_map]
      exact List.all_eq_true.mpr fun c _ => isWordChar_placeholderChar c
    rw [List.all_append, List.all_append, List.all_cons, hname, (operandTags_word tag htag).1,
      word_toDigits]
    rfl
  · rw [← String.toList_inj, toList_operandPlaceholder, String.toList_ofList, List.cons_append]

private theorem operand_getLast (name : String) {tag : String} (htag : tag ∈ operandTags) :
    ∀ c ∈ (':' :: (name.toList.map placeholderChar ++ '_' :: tag.toList)).getLast?,
      c.isDigit = false := by
  intro c hc
  have happend : ':' :: (name.toList.map placeholderChar ++ '_' :: tag.toList)
      = (':' :: name.toList.map placeholderChar ++ ['_']) ++ tag.toList := by
    simp
  rw [happend, List.getLast?_append, List.getLast?_eq_some_getLast (operandTags_word tag htag).2,
    Option.some_or, ← List.getLast?_eq_some_getLast] at hc
  exact operandTags_getLast tag htag c hc

/-- **Different numbers, different placeholders**, whatever the attributes and tags are. -/
theorem operandPlaceholder_index {name name' tag tag' : String} (htag : tag ∈ operandTags)
    (htag' : tag' ∈ operandTags) {i j : Nat}
    (h : operandPlaceholder name tag i = operandPlaceholder name' tag' j) : i = j := by
  rw [← String.toList_inj, toList_operandPlaceholder, toList_operandPlaceholder] at h
  exact (append_toDigits_inj (operand_getLast name htag) (operand_getLast name' htag') h).2

/-! ## Placeholders of entries -/

/-- What stands in front of the number in the placeholder of an entry. -/
def ValuedClause.stem : ValuedClause → String
  | .set => ":uniqueId"
  | .add => ":ADD"
  | .delete => ":DELETE"

/-- The placeholder of an entry is the stem of its clause with the digits of its index. -/
theorem ValuedClause.toList_placeholder (k : ValuedClause) (index : Nat) :
    (k.placeholder index).toList = k.stem.toList ++ Nat.toDigits 10 index := by
  have h : k.placeholder index = k.stem ++ index.repr := by cases k <;> rfl
  rw [h, String.toList_append, Nat.toList_repr]

private theorem stem_getLast (k : ValuedClause) :
    ∀ c ∈ k.stem.toList.getLast?, c.isDigit = false := by
  intro c hc
  have hlast : k.stem.toList.getLast?.any Char.isDigit = false := by cases k <;> decide
  rwa [hc] at hlast

/-- **Different entries, different placeholders**, within a clause and across clauses. -/
theorem ValuedClause.placeholder_inj {k k' : ValuedClause} {i j : Nat}
    (h : k.placeholder i = k'.placeholder j) : k = k' ∧ i = j := by
  rw [← String.toList_inj, toList_placeholder, toList_placeholder] at h
  obtain ⟨hstem, hij⟩ := append_toDigits_inj (stem_getLast k) (stem_getLast k') h
  refine ⟨?_, hij⟩
  have htext : k.stem = k'.stem := String.toList_inj.mp hstem
  revert htext
  cases k <;> cases k' <;> decide

/-- The placeholder of an entry has the shape of one. -/
theorem ValuedClause.placeholder_placeholder (k : ValuedClause) (index : Nat) :
    Placeholder (k.placeholder index) := by
  refine ⟨k.stem.toList.tail ++ Nat.toDigits 10 index, by simp, ?_, ?_⟩
  · rw [List.all_append, word_toDigits, Bool.and_true]
    cases k <;> decide
  · have hcolon : k.stem.toList = ':' :: k.stem.toList.tail := by cases k <;> decide
    rw [← String.toList_inj, toList_placeholder, String.toList_ofList, ← List.cons_append,
      ← hcolon]

private theorem underscore_not_mem_placeholder (k : ValuedClause) (index : Nat) :
    '_' ∉ (k.placeholder index).toList := by
  rw [k.toList_placeholder, List.mem_append, not_or]
  refine ⟨?_, Nat.underscore_not_in_toDigits⟩
  cases k <;> decide

/-- **No operand has the placeholder of an entry.** -/
theorem operandPlaceholder_ne_placeholder (name tag : String) (i : Nat) (k : ValuedClause)
    (j : Nat) : operandPlaceholder name tag i ≠ k.placeholder j := by
  intro h
  have hmem : '_' ∈ (operandPlaceholder name tag i).toList := by
    rw [toList_operandPlaceholder]
    simp
  rw [h] at hmem
  exact underscore_not_mem_placeholder k j hmem

end Depot
