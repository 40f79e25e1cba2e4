import Depot.Proofs.Fragment

/-!
# Merging — fragments in any grouping

A list of fragments may be cut anywhere and its pieces merged on their own, and it is the same to merge
it from its first fragment on (**`merge_eq_foldl`**). A fragment without text does not show in the text
of the others, wherever it stands.

Of two values under one name the later one stays. When no two fragments have a name in common,
nothing is overwritten: what is found is what one of the fragments has (**`find?_merge_eq_some_iff`**),
whatever their order. **`merge_laws`** says all of it of every operator and every list.
-/

namespace Depot.Fragment

/-! ## From either end -/

theorem merge_pair (op : String) (f g : Fragment) : merge op [f, g] = f.append op g := by
  rw [merge, merge, merge, append_empty]

/-- Appending from the left onto a fragment is appending the merged ones to it. -/
theorem foldl_append (op : String) (f : Fragment) (fs : List Fragment) :
    fs.foldl (append op) f = f.append op (merge op fs) := by
  induction fs generalizing f with
  | nil => exact (append_empty op f).symm
  | cons g gs ih => rw [List.foldl_cons, ih, merge, append_assoc]

/-- **A list is merged from its first fragment on**, with one more fragment at each turn. -/
theorem merge_eq_foldl (op : String) (fs : List Fragment) :
    merge op fs = fs.foldl (append op) empty := by
  rw [foldl_append, empty_append]

/-! ## Fragments that are left out -/

theorem merge_text_insert (op : String) (fs gs : List Fragment) {f : Fragment} (h : f.text = "") :
    (merge op (fs ++ f :: gs)).text = (merge op (fs ++ gs)).text := by
  rw [merge_append_text, merge_cons_text, h, join_empty_left, merge_append_text]

theorem merge_insert_empty (op : String) (fs gs : List Fragment) :
    merge op (fs ++ empty :: gs) = merge op (fs ++ gs) := by
  rw [merge_append, merge, empty_append, merge_append]

/-! ## Values -/

/-- No name has a value in both fragments. -/
def Apart (f g : Fragment) : Prop :=
  ∀ name, f.values.find? name = none ∨ g.values.find? name = none

theorem Apart.symm {f g : Fragment} (h : Apart f g) : Apart g f := fun name => (h name).symm

theorem find?_merge_cons (op : String) (f : Fragment) (fs : List Fragment) (name : String) :
    (merge op (f :: fs)).values.find? name
      = ((merge op fs).values.find? name).or (f.values.find? name) :=
  Mapping.find?_union f.values (merge op fs).values name

theorem find?_merge_eq_none_iff {op : String} {fs : List Fragment} {name : String} :
    (merge op fs).values.find? name = none ↔ ∀ f ∈ fs, f.values.find? name = none := by
  induction fs with
  | nil => exact ⟨fun _ f hf => (nomatch hf), fun _ => rfl⟩
  | cons f fs ih => rw [find?_merge_cons, Option.or_eq_none_iff, ih, List.forall_mem_cons, and_comm]

/-- **The values of merged fragments** are those of the fragments, when no two have a name in
    common. -/
theorem find?_merge_eq_some_iff (op : String) {fs : List Fragment} (h : fs.Pairwise Apart)
    {name : String} {value : AttributeValue} : (merge op fs).values.find? name = some value ↔
      ∃ f ∈ fs, f.values.find? name = some value := by
  induction fs with
  | nil => exact ⟨fun hvalue => (nomatch hvalue), fun ⟨_, hf, _⟩ => (nomatch hf)⟩
  | cons f fs ih =>
      obtain ⟨hf, hfs⟩ := List.pairwise_cons.mp h
      rw [find?_merge_cons, Option.or_eq_some_iff, ih hfs]
      simp only [List.mem_cons, exists_eq_or_imp]
      constructor
      · rintro (hlater | ⟨-, hvalue⟩)
        · exact .inr hlater
        · exact .inl hvalue
      · rintro (hvalue | hlater)
        · -- The first fragment has the name, so none of the later ones overwrites it.
          refine .inr ⟨find?_merge_eq_none_iff.mpr fun g hg => ?_, hvalue⟩
          rcases hf g hg name with hnone | hnone
          · exact nomatch hvalue.symm.trans hnone
          · exact hnone
        · exact .inl hlater

/-- Fragments that share no name have the same values in whatever order they are merged. -/
theorem values_merge_eq_of_perm (op : String) {fs gs : List Fragment} (h : fs.Pairwise Apart)
    (hperm : fs.Perm gs) : (merge op gs).values = (merge op fs).values := by
  have hgs : gs.Pairwise Apart := (hperm.pairwise_iff fun hfg => hfg.symm).mp h
  apply Mapping.ext_find?
  intro name
  apply Option.ext
  intro value
  rw [find?_merge_eq_some_iff op hgs, find?_merge_eq_some_iff op h]
  simp only [hperm.mem_iff]

/-! ## The laws of an operator -/

/-- What holds of merging with an operator, for all lists. -/
structure Laws (op : String) : Prop where
  /-- A list is merged from its first fragment on. -/
  turns : ∀ fs, merge op fs = fs.foldl (append op) empty
  /-- Two lists one after the other are merged like what each of them is merged to. -/
  append : ∀ fs gs, merge op (fs ++ gs) = merge op [merge op fs, merge op gs]
  /-- The texts that are not empty stand in order, with the operator between each two of them. -/
  text : ∀ fs, (merge op fs).text
    = String.intercalate op ((fs.map (·.text)).filter fun text => text ≠ "")
  /-- A fragment without text may stand anywhere without a change of the text. -/
  blank : ∀ fs gs f, f.text = "" → (merge op (fs ++ f :: gs)).text = (merge op (fs ++ gs)).text
  /-- Where it has no values either, nothing at all is changed. -/
  neutral : ∀ fs gs, merge op (fs ++ empty :: gs) = merge op (fs ++ gs)
  /-- Fragments without a common name keep all their values, and there are no others. -/
  union : ∀ fs, fs.Pairwise Apart → ∀ name value,
    (merge op fs).values.find? name = some value ↔ ∃ f ∈ fs, f.values.find? name = some value
  /-- The order of such fragments does not matter to the values. -/
  order : ∀ fs gs, fs.Pairwise Apart → fs.Perm gs → (merge op gs).values = (merge op fs).values

/-- **Merging is compositional**, with every operator. -/
theorem merge_laws (op : String) : Laws op := by
  constructor
  case turns => exact merge_eq_foldl op
  case append => exact fun fs gs => (merge_append op fs gs).trans (merge_pair op _ _).symm
  case text => exact merge_text op
  case blank => exact fun fs gs f h => merge_text_insert op fs gs h
  case neutral => exact merge_insert_empty op
  case union => exact fun fs h name value => find?_merge_eq_some_iff op h
  case order => exact fun fs gs h hperm => values_merge_eq_of_perm op h hperm

/-- A test of a rank and the value of its placeholder. -/
def rankTest : Fragment := ⟨"rank > :rank_gt0", .ofList [(":rank_gt0", .number "1")]⟩

/-- A test of a name and the value of its placeholder. -/
def nameTest : Fragment := ⟨"name = :name_eq1", .ofList [(":name_eq1", .text "a")]⟩

theorem merge_laws_twoTests :
    (merge " and " [rankTest, empty, nameTest]).text = "rank > :rank_gt0 and name = :name_eq1" ∧
      (merge " and " [nameTest, rankTest]).values = (merge " and " [rankTest, nameTest]).values ∧
      (merge " and " [rankTest, nameTest]).values.find? ":rank_gt0" = some (.number "1") := by
  have hlaws : Laws " and " := merge_laws " and "
  have hapart : Apart rankTest nameTest := by
    intro name
    by_cases hname : name = ":rank_gt0"
    · subst hname
      exact .inr rfl
    · left
      show Mapping.lookup name [(":rank_gt0", AttributeValue.number "1")] = none
      rw [Mapping.lookup, if_neg (Ne.symm hname), Mapping.lookup]
  have hpair : [rankTest, nameTest].Pairwise Apart := List.pairwise_pair.mpr hapart
  refine ⟨?_, hlaws.order _ _ hpair (.swap ..), ?_⟩
  · exact (congrArg text (hlaws.neutral [rankTest] [nameTest])).trans (by decide)
  · exact (hlaws.union _ hpair _ _).mpr ⟨rankTest, List.mem_cons_self, rfl⟩

end Depot.Fragment
