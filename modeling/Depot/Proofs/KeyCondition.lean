import Depot.Query
import Depot.Proofs.Encoding
import Depot.Proofs.Fragment
import Depot.Proofs.Mapping

/-!
# Key conditions — placeholders that are kept apart

The placeholders of a key condition are named after the two attributes alone, so those of the sort
key have to step aside when the partition key has one of them. A placeholder of the sort key is the
common stem of its test with one of three endings (`SortKey.suffixes`), and stepping aside makes the
stem longer by `_1`, which is the beginning of none of the endings. So one step aside is enough for
every two names (**`SortKey.ne_placeholder_append`**), whatever endings the names have themselves,
and **`KeyCondition.kept_apart`** says what a compiled key condition is: every value stands under a
placeholder of its own, and the text uses each of them where its value belongs.
-/

namespace Depot

namespace SortKey

/-- What follows the stem in the placeholders of the tests of a sort key. -/
def suffixes : List String := ["", "_start", "_end"]

/-- A placeholder collides with another one when that is it with a suffix of a sort condition behind
    it. -/
theorem collides_iff {plain partition : String} :
    collides plain partition = true ↔ ∃ suffix ∈ suffixes, partition = plain ++ suffix := by
  simp [collides, suffixes, or_assoc]

/-- **Both stems that a sort key can have**: the plain one when it leads to no placeholder of the
    partition key, and the longer one otherwise. -/
theorem placeholder_cases (k : SortKey) (partition : String) :
    ((∀ suffix ∈ suffixes, partition ≠ namePlaceholder k.name ++ suffix) ∧
      k.placeholder partition = namePlaceholder k.name) ∨
    ((∃ suffix ∈ suffixes, partition = namePlaceholder k.name ++ suffix) ∧
      k.placeholder partition = namePlaceholder k.name ++ "_1") := by
  by_cases h : collides (namePlaceholder k.name) partition = true
  · exact .inr ⟨collides_iff.mp h, if_pos h⟩
  · refine .inl ⟨fun suffix hsuffix heq => ?_, if_neg h⟩
    exact h (collides_iff.mpr ⟨suffix, hsuffix, heq⟩)

/-- The endings are told from each other even when one of them stands behind `_1`. -/
private theorem suffix_ne : ∀ suffix ∈ suffixes, ∀ other ∈ suffixes, suffix ≠ "_1" ++ other := by
  decide

/-- **One step aside is enough**: with none of the endings is the stem the placeholder of the
    partition key. -/
theorem ne_placeholder_append (k : SortKey) (partition : String) {suffix : String}
    (h : suffix ∈ suffixes) : partition ≠ k.placeholder partition ++ suffix := by
  obtain ⟨hfree, hstem⟩ | ⟨⟨taken, htaken, hpartition⟩, hstem⟩ := k.placeholder_cases partition
  · rw [hstem]
    exact hfree suffix h
  · intro heq
    rw [hstem, String.append_assoc] at heq
    have hsame : taken = "_1" ++ suffix :=
      (String.append_right_inj _).mp (hpartition.symm.trans heq)
    exact suffix_ne taken htaken suffix h hsame

end SortKey

namespace SortTest

/-- The endings of the placeholders of a test. -/
def suffixes : SortTest → List String
  | .compare _ _ => [""]
  | .beginsWith _ => [""]
  | .between _ _ => ["_start", "_end"]

theorem suffixes_subset (test : SortTest) : test.suffixes ⊆ SortKey.suffixes := by
  cases test <;> simp [suffixes, SortKey.suffixes]

theorem nodup_suffixes (test : SortTest) : test.suffixes.Nodup := by
  cases test <;> simp [suffixes]

/-- The text in which a test of a name uses placeholders, the lower bound before the upper one. -/
inductive Reads (name : String) : SortTest → List String → String → Prop
  | compare (comparison : SortComparison) (operand : Value) (p : String) :
      Reads name (.compare comparison operand) [p]
        (name ++ " " ++ comparison.symbol ++ " " ++ p)
  | beginsWith (operand : Value) (p : String) :
      Reads name (.beginsWith operand) [p] ("begins_with(" ++ name ++ "  ," ++ p ++ ")")
  | between (low high : Value) (lowest highest : String) :
      Reads name (.between low high) [lowest, highest]
        (name ++ " between " ++ lowest ++ " and " ++ highest)

end SortTest

namespace SortKey

theorem placeholders_eq_map (k : SortKey) (partition : String) :
    k.placeholders partition = k.test.suffixes.map (k.placeholder partition ++ ·) := by
  rw [placeholders]
  cases k.test <;> simp [SortTest.suffixes]

/-- A sort condition has one placeholder for each of its operands. -/
theorem length_placeholders (k : SortKey) (partition : String) :
    (k.placeholders partition).length = k.operands.length := by
  rw [placeholders, operands]
  cases k.test <;> rfl

/-- **The placeholders of a key condition** are all different. -/
theorem nodup_placeholders (k : SortKey) (partition : String) :
    (partition :: k.placeholders partition).Nodup := by
  rw [placeholders_eq_map, List.nodup_cons]
  constructor
  · intro hmem
    obtain ⟨suffix, hsuffix, heq⟩ := List.mem_map.mp hmem
    exact k.ne_placeholder_append partition (k.test.suffixes_subset hsuffix) heq.symm
  · refine List.pairwise_map.mpr (k.test.nodup_suffixes.imp fun hne heq => hne ?_)
    exact (String.append_right_inj _).mp heq

example : (SortKey.mk "sk" (.between .null .null)).placeholders ":sk_start"
    = [":sk_1_start", ":sk_1_end"] := by
  decide

/-- The text of a sort condition says that condition about its name and its placeholders. -/
theorem reads_text (k : SortKey) (partition : String) :
    k.test.Reads k.name (k.placeholders partition) (k.text partition) := by
  rw [placeholders, text]
  cases k.test with
  | compare comparison operand => exact .compare ..
  | beginsWith operand => exact .beginsWith ..
  | between low high =>
      have hreads : (SortTest.between low high).Reads k.name _ _ :=
        .between low high (k.placeholder partition ++ "_start") (k.placeholder partition ++ "_end")
      rwa [← String.append_assoc, ← String.append_assoc] at hreads

/-- A sort condition always has a text. -/
theorem text_ne_empty (k : SortKey) (partition : String) : k.text partition ≠ "" := by
  rw [text]
  cases k.test <;> simp [String.append_eq_empty_iff]

/-- A sort condition whose operands encode compiles to its text and to its operands under its
    placeholders. -/
theorem compile_eq_ok {k : SortKey} {operands : List AttributeValue}
    (h : Value.encodeList k.operands = .ok operands) (partition : String) :
    k.compile partition
      = .ok ⟨k.text partition, Mapping.ofList ((k.placeholders partition).zip operands)⟩ := by
  rw [compile, h]

end SortKey

namespace KeyCondition

/-- The values that the test of the sort key mentions, in order. -/
def operands (c : KeyCondition) : List Value :=
  match c.sort with
  | none => []
  | some k => k.operands

/-- Without a sort condition the key condition is the equality of the partition key. -/
theorem compile_none {key : Key} {value : AttributeValue} (hvalue : key.value.encode = .ok value) :
    compile ⟨key, none⟩
      = .ok ⟨key.name ++ " = " ++ namePlaceholder key.name,
          Mapping.ofList [(namePlaceholder key.name, value)]⟩ := by
  rw [compile, hvalue]
  simp only [placeholder]
  exact congrArg (fun text => Except.ok (Fragment.mk text _)) (Fragment.join_empty_right _ _)

/-- Both fragments have a text, so the operator stands between them. -/
theorem compile_some {key : Key} {k : SortKey} {value : AttributeValue}
    {operands : List AttributeValue} (hvalue : key.value.encode = .ok value)
    (hoperands : Value.encodeList k.operands = .ok operands) :
    compile ⟨key, some k⟩
      = .ok ⟨key.name ++ " = " ++ namePlaceholder key.name ++ " and " ++
            k.text (namePlaceholder key.name),
          Mapping.ofList ((namePlaceholder key.name, value) ::
            (k.placeholders (namePlaceholder key.name)).zip operands)⟩ := by
  have hpartition : key.name ++ " = " ++ namePlaceholder key.name ≠ "" := by
    simp [String.append_eq_empty_iff]
  have htext : Fragment.join " and " (key.name ++ " = " ++ namePlaceholder key.name)
      (Fragment.join " and " (k.text (namePlaceholder key.name)) "")
      = key.name ++ " = " ++ namePlaceholder key.name ++ " and " ++
          k.text (namePlaceholder key.name) := by
    rw [Fragment.join_empty_right, Fragment.join, if_neg hpartition, if_neg (k.text_ne_empty _)]
  have hvalues := Mapping.ofList_append [(namePlaceholder key.name, value)]
    ((k.placeholders (namePlaceholder key.name)).zip operands)
  rw [List.singleton_append] at hvalues
  rw [← htext, hvalues, compile, sortFragments, hvalue]
  simp only [placeholder, SortKey.compile_eq_ok hoperands]
  rfl

/-- The text of a key condition whose test of the sort key uses the given placeholders. -/
inductive Reads : KeyCondition → List String → String → Prop
  | partition (key : Key) :
      Reads ⟨key, none⟩ [] (key.name ++ " = " ++ namePlaceholder key.name)
  | both {key : Key} {k : SortKey} {ps : List String} {text : String}
      (sort : k.test.Reads k.name ps text) :
      Reads ⟨key, some k⟩ ps (key.name ++ " = " ++ namePlaceholder key.name ++ " and " ++ text)

/-- **A key condition keeps its placeholders apart.** When its values are encoded it compiles, every
    value is found under a placeholder of its own and nothing else is found, and the text uses each
    placeholder where its value belongs. -/
theorem kept_apart (c : KeyCondition) {value : AttributeValue} {operands : List AttributeValue}
    (hvalue : c.partition.value.encode = .ok value)
    (hoperands : Value.encodeList c.operands = .ok operands) :
    ∃ f ps, c.compile = .ok f ∧ ps.length = operands.length ∧ (c.placeholder :: ps).Nodup ∧
      f.values.entries.Perm ((c.placeholder, value) :: ps.zip operands) ∧ c.Reads ps f.text := by
  obtain ⟨key, sort⟩ := c
  cases sort with
  | none =>
      obtain rfl : [] = operands := Except.ok.inj hoperands
      exact ⟨_, [], compile_none hvalue, rfl, by simp, List.Perm.refl _, .partition key⟩
  | some k =>
      have hoperands : Value.encodeList k.operands = .ok operands := hoperands
      have hlength : (k.placeholders (namePlaceholder key.name)).length = operands.length := by
        rw [k.length_placeholders, Value.length_of_encodeList hoperands]
      have hnodup := k.nodup_placeholders (namePlaceholder key.name)
      refine ⟨_, _, compile_some hvalue hoperands, hlength, hnodup, ?_, .both (k.reads_text _)⟩
      refine Mapping.ofList_entries_perm ?_
      rwa [List.map_cons, List.map_fst_zip (Nat.le_of_eq hlength)]

/-- A partition key that has the name of the lower bound of the sort key. -/
def bounded : KeyCondition :=
  ⟨⟨"sk_start", .text "a"⟩, some ⟨"sk", .between (.text "b") (.text "c")⟩⟩

theorem kept_apart_bounded :
    ∃ f ps, bounded.compile = .ok f ∧ ps.length = 2 ∧ (":sk_start" :: ps).Nodup ∧
      f.values.entries.Perm ((":sk_start", .text "a") :: ps.zip [.text "b", .text "c"]) ∧
      bounded.Reads ps f.text := by
  have hvalue : bounded.partition.value.encode = .ok (.text "a") := by
    rw [bounded, Value.encode]
  have hoperands : Value.encodeList bounded.operands = .ok [.text "b", .text "c"] := by
    simp [bounded, operands, SortKey.operands, Value.encodeList, Value.encode, bind, Except.bind]
  have hplaceholder : bounded.placeholder = ":sk_start" := by decide
  rw [← hplaceholder]
  exact kept_apart bounded hvalue hoperands

end KeyCondition

end Depot
