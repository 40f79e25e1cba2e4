import Depot.Fragment
import Depot.Proofs.Mapping

/-!
# Merged fragments — the texts that are not empty, in order

Putting an operator between two fragments is associative, and the fragment without text and values is
its unit. So merging two lists one after the other is putting the operator between what each of them
merges to (**`merge_append`**). The text of merged fragments is that of the non-empty texts with the
operator between each two of them (**`merge_text`**), and every text that is put together stays part
of the whole (`part_merge`).
-/

namespace Depot.Fragment

/-! ## The monoid of an operator -/

@[simp] theorem empty_append (op : String) (f : Fragment) : empty.append op f = f := by
  rw [append, empty, join_empty_left, Mapping.empty_union]

@[simp] theorem append_empty (op : String) (f : Fragment) : f.append op empty = f := by
  rw [append, empty, join_empty_right, Mapping.union_empty]

/-- Fragments that are put behind one another are the same in whatever order they are joined. -/
theorem append_assoc (op : String) (f g h : Fragment) :
    (f.append op g).append op h = f.append op (g.append op h) := by
  rw [append, append, append, append, join_assoc, Mapping.union_assoc]

/-- **Lists one after the other** are merged each on its own. -/
theorem merge_append (op : String) (fs gs : List Fragment) :
    merge op (fs ++ gs) = (merge op fs).append op (merge op gs) := by
  induction fs with
  | nil => exact (empty_append op _).symm
  | cons f fs ih => rw [List.cons_append, merge, merge, ih, append_assoc]

/-- The text of two lists merged is that of the first one joined with that of the second one. -/
theorem merge_append_text (op : String) (fs gs : List Fragment) :
    (merge op (fs ++ gs)).text = join op (merge op fs).text (merge op gs).text :=
  congrArg text (merge_append op fs gs)

/-! ## Texts -/

theorem merge_cons_text (op : String) (f : Fragment) (fs : List Fragment) :
    (merge op (f :: fs)).text = join op f.text (merge op fs).text := rfl

/-- Merged fragments have no text exactly when none of them has. -/
theorem merge_text_eq_empty_iff {op : String} {fs : List Fragment} :
    (merge op fs).text = "" ↔ ∀ f ∈ fs, f.text = "" := by
  induction fs with
  | nil => simp [merge, empty]
  | cons f fs ih =>
      rw [merge_cons_text, join_eq_empty_iff, ih]
      simp

/-- **The text of merged fragments**: the texts that are not empty with the operator between. -/
theorem merge_text (op : String) (fs : List Fragment) :
    (merge op fs).text = String.intercalate op ((fs.map (·.text)).filter (· ≠ "")) := by
  induction fs with
  | nil => simp [merge, empty]
  | cons f fs ih =>
      rw [merge_cons_text, List.map_cons]
      by_cases hf : f.text = ""
      · rw [List.filter_cons_of_neg (by simp [hf]), hf, join_empty_left, ih]
      · rw [List.filter_cons_of_pos (by simp [hf])]
        -- The operator stands between two texts only when something is left to join.
        by_cases hrest : (merge op fs).text = ""
        · have hnil : (fs.map (·.text)).filter (· ≠ "") = [] := by
            rw [List.filter_eq_nil_iff]
            intro text htext
            obtain ⟨g, hg, rfl⟩ := List.mem_map.mp htext
            simp [merge_text_eq_empty_iff.mp hrest g hg]
          rw [hnil, hrest, join_empty_right, String.intercalate_singleton]
        · have hne : (fs.map (·.text)).filter (· ≠ "") ≠ [] := by
            intro hnil
            rw [hnil, String.intercalate_nil] at ih
            exact hrest ih
          rw [String.intercalate_cons_of_ne_nil hne, ← ih, join, if_neg hf, if_neg hrest]

theorem parenthesize_text_eq_empty_iff {f : Fragment} : f.parenthesize.text = "" ↔ f.text = "" := by
  rw [parenthesize]
  split
  · rfl
  · rename_i h
    simp [h, String.append_eq_empty_iff]

/-! ## Parts of texts -/

/-- Whether a text stands somewhere in another one. -/
def Part (part whole : String) : Prop := part.toList <:+: whole.toList

theorem Part.trans {a b c : String} (hab : Part a b) (hbc : Part b c) : Part a c :=
  List.IsInfix.trans hab hbc

theorem part_append_left (left right : String) : Part left (left ++ right) := by
  rw [Part, String.toList_append]
  exact (List.prefix_append _ _).isInfix

theorem part_append_right (left right : String) : Part right (left ++ right) := by
  rw [Part, String.toList_append]
  exact (List.suffix_append _ _).isInfix

/-- The left text is a part of a join, be the right one empty or not. -/
theorem part_join_left (op left right : String) : Part left (join op left right) := by
  rw [join]
  split
  · rename_i h
    rw [h]
    exact List.nil_infix
  · split
    · exact List.infix_rfl
    · exact (part_append_left left op).trans (part_append_left _ right)

/-- The right text is a part of a join, be the left one empty or not. -/
theorem part_join_right (op left right : String) : Part right (join op left right) := by
  rw [join]
  split
  · exact List.infix_rfl
  · split
    · rename_i h
      rw [h]
      exact List.nil_infix
    · exact part_append_right _ right

/-- Every fragment has its text in that of the merged ones. -/
theorem part_merge (op : String) {f : Fragment} {fs : List Fragment} (hf : f ∈ fs) :
    Part f.text (merge op fs).text := by
  induction fs with
  | nil => exact nomatch hf
  | cons g fs ih =>
      rw [merge_cons_text]
      rcases List.mem_cons.mp hf with rfl | hf
      · exact part_join_left op f.text _
      · exact (ih hf).trans (part_join_right op g.text _)

theorem part_parenthesize (f : Fragment) : Part f.text f.parenthesize.text := by
  rw [parenthesize]
  split
  · exact List.infix_rfl
  · exact (part_append_right "(" f.text).trans (part_append_left _ ")")

theorem part_intercalate (sep : String) {text : String} {texts : List String}
    (h : text ∈ texts) : Part text (String.intercalate sep texts) := by
  induction texts with
  | nil => exact nomatch h
  | cons first rest ih =>
      cases rest with
      | nil =>
          rw [String.intercalate_singleton, List.mem_singleton.mp h]
          exact List.infix_rfl
      | cons next rest =>
          rw [String.intercalate_cons_cons]
          rcases List.mem_cons.mp h with rfl | h
          · exact (part_append_left text sep).trans (part_append_left _ _)
          · exact (ih h).trans (part_append_right _ _)

end Depot.Fragment
