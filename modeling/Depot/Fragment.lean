import Depot.Attribute.Basic

/-!
# Fragments — expression text with the values of its placeholders

A **`Fragment`** is a piece of an expression and the values that its placeholders stand for. Joining
two texts with an operator leaves the operator out when one of them is empty, so joining is
associative with the empty text as its unit (`Fragment.join_assoc`), and **`Fragment.merge`** joins
the fragments of a list in order. A placeholder is a colon and a word of ASCII letters, digits and
underscores.
-/

namespace Depot

/-- A character that may stand in a placeholder as it is, and an underscore for any other. -/
def placeholderChar (c : Char) : Char := if c.isAlphanum then c else '_'

/-- The placeholder word of a name. -/
def placeholderWord (name : String) : String := String.ofList (name.toList.map placeholderChar)

/-- The placeholder that is named after an attribute alone. -/
def namePlaceholder (name : String) : String := ":" ++ placeholderWord name

/-- The placeholder of an operand, told apart by a tag and a number. -/
def operandPlaceholder (name tag : String) (index : Nat) : String :=
  namePlaceholder name ++ "_" ++ tag ++ index.repr

/-- A piece of an expression and the values of its placeholders. -/
structure Fragment where
  text : String
  values : Attributes

namespace Fragment

/-- Two texts with an operator between them, unless one of them is empty. -/
def join (op left right : String) : String :=
  if left = "" then right
  else if right = "" then left
  else left ++ op ++ right

/-- The fragment without text. -/
def empty : Fragment := ⟨"", .empty⟩

/-- Two fragments with an operator between them. -/
def append (op : String) (f g : Fragment) : Fragment :=
  ⟨join op f.text g.text, f.values.union g.values⟩

/-- The fragments of a list with an operator between each two of them. -/
def merge (op : String) : List Fragment → Fragment
  | [] => empty
  | f :: rest => f.append op (merge op rest)

/-- A fragment in parentheses, unless it has no text. -/
def parenthesize (f : Fragment) : Fragment :=
  if f.text = "" then f else ⟨"(" ++ f.text ++ ")", f.values⟩

@[simp] theorem join_empty_left (op right : String) : join op "" right = right := rfl

/-- Nothing is put behind a text by joining it with the empty one. -/
@[simp] theorem join_empty_right (op left : String) : join op left "" = left := by
  by_cases h : left = "" <;> simp [join, h]

/-- A joined text is empty only when both its parts are. -/
theorem join_eq_empty_iff {op left right : String} :
    join op left right = "" ↔ left = "" ∧ right = "" := by
  by_cases hl : left = ""
  · simp [join, hl]
  · by_cases hr : right = ""
    · simp [join, hl, hr]
    · simp [join, hl, hr, String.append_eq_empty_iff]

/-- Joining is associative. -/
theorem join_assoc (op a b c : String) : join op (join op a b) c = join op a (join op b c) := by
  by_cases ha : a = ""
  · simp [ha]
  · by_cases hb : b = ""
    · simp [hb]
    · by_cases hc : c = ""
      · simp [hc]
      · have hab : join op a b ≠ "" := fun h => ha (join_eq_empty_iff.1 h).1
        have hbc : join op b c ≠ "" := fun h => hb (join_eq_empty_iff.1 h).1
        rw [join, if_neg hab, if_neg hc, join, if_neg ha, if_neg hb]
        rw [join, if_neg ha, if_neg hbc, join, if_neg hb, if_neg hc]
        simp [String.append_assoc]

end Fragment

end Depot
