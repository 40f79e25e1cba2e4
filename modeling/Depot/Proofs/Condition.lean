import Depot.Proofs.Encoding
import Depot.Proofs.Fragment
import Depot.Proofs.Mapping
import Depot.Proofs.Placeholder

/-!
# Compiled conditions — one placeholder for each operand

What `Filter.compile` gives is described here once, so that no later proof has to follow it: the
operands of all conditions encode, in order, and the table of placeholders pairs the placeholders
of the filter with them (**`Filter.compile_eq_ok`**). The placeholders are numbered one after the
other through the whole filter, so no two of them are equal (**`Filter.nodup_placeholders`**).
-/

namespace Depot

namespace Condition

/-- The operands of conditions, in order. -/
def operandsOf (cs : List Condition) : List Value := cs.flatMap (·.test.operands)

/-- Conditions with the numbers of their first operands, counted on from the given number. -/
def indexed : List Condition → Nat → List (Condition × Nat)
  | [], _ => []
  | c :: rest, index => (c, index) :: indexed rest (index + c.test.operands.length)

/-- The placeholders of conditions whose operands are numbered on from the given number. -/
def placeholdersFrom (cs : List Condition) (index : Nat) : List String :=
  (indexed cs index).flatMap fun x => x.1.placeholders x.2

theorem placeholdersFrom_cons (c : Condition) (rest : List Condition) (index : Nat) :
    placeholdersFrom (c :: rest) index
      = c.placeholders index ++ placeholdersFrom rest (index + c.test.operands.length) := rfl

/-- The conditions of a second list are counted on from the operands of the first one. -/
theorem indexed_append (cs ds : List Condition) (index : Nat) :
    indexed (cs ++ ds) index = indexed cs index ++ indexed ds (index + operandCount cs) := by
  induction cs generalizing index with
  | nil => rfl
  | cons c rest ih =>
      rw [List.cons_append, indexed, indexed, ih, List.cons_append, operandCount, Nat.add_assoc]

/-! ## Numbered placeholders -/

/-- Placeholders of operands that are numbered one after the other from a number on. -/
inductive Numbered : Nat → List String → Prop where
  | nil (index : Nat) : Numbered index []
  | cons (name : String) {tag : String} {index : Nat} {rest : List String} :
      tag ∈ operandTags → Numbered (index + 1) rest →
      Numbered index (operandPlaceholder name tag index :: rest)

/-- Placeholders that are numbered on from others are numbered with them. -/
theorem Numbered.append {index : Nat} {ps qs : List String} (hp : Numbered index ps)
    (hq : Numbered (index + ps.length) qs) : Numbered index (ps ++ qs) := by
  induction hp with
  | nil index => exact hq
  | @cons name tag index rest htag _ ih =>
      refine Numbered.cons name htag (ih ?_)
      rwa [List.length_cons, Nat.add_comm rest.length 1, ← Nat.add_assoc] at hq

/-- A numbered placeholder is that of an operand, with a number no smaller than the first. -/
theorem Numbered.exists_of_mem {index : Nat} {ps : List String} (h : Numbered index ps)
    {p : String} (hp : p ∈ ps) :
    ∃ name tag i, tag ∈ operandTags ∧ index ≤ i ∧ p = operandPlaceholder name tag i := by
  induction h with
  | nil index => exact nomatch hp
  | @cons name tag index rest htag _ ih =>
      rcases List.mem_cons.mp hp with rfl | hp
      · exact ⟨name, tag, index, htag, Nat.le_refl index, rfl⟩
      · obtain ⟨name', tag', i, htag', hi, heq⟩ := ih hp
        exact ⟨name', tag', i, htag', by omega, heq⟩

/-- Numbered placeholders have the shape of a placeholder. -/
theorem Numbered.placeholder {index : Nat} {ps : List String} (h : Numbered index ps) {p : String}
    (hp : p ∈ ps) : Placeholder p := by
  obtain ⟨name, tag, i, htag, -, rfl⟩ := h.exists_of_mem hp
  exact placeholder_operandPlaceholder name htag i

/-- Numbered placeholders are different ones, since a number is at the end of each. -/
theorem Numbered.nodup {index : Nat} {ps : List String} (h : Numbered index ps) : ps.Nodup := by
  -- Every later placeholder has a larger number than the first one.
  induction h with
  | nil index => exact List.Pairwise.nil
  | @cons name tag index rest htag hrest ih =>
      refine List.nodup_cons.mpr ⟨?_, ih⟩
      intro hmem
      obtain ⟨name', tag', i, htag', hi, heq⟩ := hrest.exists_of_mem hmem
      have := operandPlaceholder_index htag htag' heq
      omega

theorem numbered_range (name : String) {tag : String} (htag : tag ∈ operandTags) (n index : Nat) :
    Numbered index ((List.range n).map fun i => operandPlaceholder name tag (index + i)) := by
  induction n generalizing index with
  | zero => exact Numbered.nil index
  | succ n ih =>
      rw [List.range_succ_eq_map, List.map_cons, List.map_map]
      refine Numbered.cons name htag ?_
      have := ih (index + 1)
      rwa [show (fun i => operandPlaceholder name tag (index + 1 + i))
        = (fun i => operandPlaceholder name tag (index + i)) ∘ Nat.succ from
          funext fun i => by simp [Nat.add_assoc, Nat.add_comm 1 i]] at this

/-! ## The placeholders of conditions -/

theorem length_placeholders (c : Condition) (index : Nat) :
    (c.placeholders index).length = c.test.operands.length := by
  unfold placeholders Test.operands
  cases c.test <;> simp

/-- The placeholders of a condition are numbered on from its index, with one for each operand. -/
theorem numbered_placeholders (c : Condition) (index : Nat) :
    Numbered index (c.placeholders index) := by
  unfold placeholders
  cases c.test with
  | compare comparison v => exact .cons _ comparison.tag_mem (.nil _)
  | contains v => exact .cons _ (by decide) (.nil _)
  | beginsWith v => exact .cons _ (by decide) (.nil _)
  | between low high => exact .cons _ (by decide) (.cons _ (by decide) (.nil _))
  | oneOf vs => exact numbered_range c.column (by decide) vs.length index
  | present => exact .nil index
  | absent => exact .nil index

theorem operandsOf_cons (c : Condition) (rest : List Condition) :
    operandsOf (c :: rest) = c.test.operands ++ operandsOf rest := rfl

theorem operandsOf_append (cs ds : List Condition) :
    operandsOf (cs ++ ds) = operandsOf cs ++ operandsOf ds :=
  List.flatMap_append

/-- The number by which the next condition is counted on is that of the operands. -/
theorem length_operandsOf (cs : List Condition) : (operandsOf cs).length = operandCount cs := by
  induction cs with
  | nil => rfl
  | cons c rest ih => rw [operandsOf_cons, List.length_append, ih, operandCount]

/-- Conditions have one placeholder for each of their operands. -/
theorem length_placeholdersFrom (cs : List Condition) (index : Nat) :
    (placeholdersFrom cs index).length = operandCount cs := by
  induction cs generalizing index with
  | nil => rfl
  | cons c rest ih =>
      rw [placeholdersFrom_cons, List.length_append, length_placeholders, ih, operandCount]

/-- The placeholders of a list of conditions are numbered through, whatever the columns are. -/
theorem numbered_placeholdersFrom (cs : List Condition) (index : Nat) :
    Numbered index (placeholdersFrom cs index) := by
  induction cs generalizing index with
  | nil => exact .nil index
  | cons c rest ih =>
      refine (c.numbered_placeholders index).append ?_
      rw [length_placeholders]
      exact ih _

/-- The placeholders of a second list are numbered on from the operands of the first one. -/
theorem placeholdersFrom_append (cs ds : List Condition) (index : Nat) :
    placeholdersFrom (cs ++ ds) index
      = placeholdersFrom cs index ++ placeholdersFrom ds (index + operandCount cs) := by
  rw [placeholdersFrom, indexed_append, List.flatMap_append]
  rfl

/-! ## The text of a condition -/

private theorem placeholdersIn_call (f column : String) {p : String} (hp : Placeholder p)
    (hf : ':' ∉ f.toList) (hc : ':' ∉ column.toList) :
    placeholdersIn (f ++ column ++ ", " ++ p ++ ")").toList = [p] := by
  have happend : (f ++ column ++ ", " ++ p ++ ")").toList
      = (f.toList ++ (column.toList ++ (", ".toList ++ p.toList))) ++ (")".toList ++ []) := by
    simp
  rw [happend, placeholdersIn_separated separator_closing, placeholdersIn_append_of_not_mem hf,
    placeholdersIn_append_of_not_mem hc, placeholdersIn_append_of_not_mem separator_comma.1,
    hp.placeholdersIn]
  rfl

/-- **The text of a condition** has the placeholders of its operands, when the name of its attribute
    adds no colon. -/
theorem placeholdersIn_text {c : Condition} (hc : ':' ∉ c.column.toList) (index : Nat) :
    placeholdersIn (c.text index).toList = c.placeholders index := by
  obtain ⟨column, test⟩ := c
  have hnumbered := fun p hp => (numbered_placeholders ⟨column, test⟩ index).placeholder (p := p) hp
  cases test with
  | compare comparison v =>
      have hp : Placeholder (operandPlaceholder column comparison.tag index) :=
        hnumbered _ List.mem_cons_self
      have hsymbol : ':' ∉ comparison.symbol.toList := by cases comparison <;> decide
      rw [text, String.toList_append, String.toList_append, String.toList_append,
        String.toList_append, List.append_assoc, List.append_assoc, List.append_assoc,
        placeholdersIn_append_of_not_mem hc, placeholdersIn_append_of_not_mem separator_space.1,
        placeholdersIn_append_of_not_mem hsymbol,
        placeholdersIn_append_of_not_mem separator_space.1, hp.placeholdersIn]
      rfl
  | contains v =>
      exact placeholdersIn_call "contains(" column (hnumbered _ List.mem_cons_self) (by decide) hc
  | beginsWith v =>
      exact placeholdersIn_call "begins_with(" column (hnumbered _ List.mem_cons_self) (by decide)
        hc
  | between low high =>
      have hlow : Placeholder (operandPlaceholder column "start" index) :=
        hnumbered _ List.mem_cons_self
      have hhigh : Placeholder (operandPlaceholder column "end" (index + 1)) :=
        hnumbered _ (List.mem_cons_of_mem _ List.mem_cons_self)
      have hbetween : ':' ∉ " between ".toList := by decide
      have hand : Separator " and " := by decide
      rw [text, String.toList_append, String.toList_append, List.append_assoc,
        placeholdersIn_separated hand, String.toList_append, String.toList_append,
        List.append_assoc, placeholdersIn_append_of_not_mem hc,
        placeholdersIn_append_of_not_mem hbetween, hlow.placeholdersIn, hhigh.placeholdersIn]
      rfl
  | oneOf vs =>
      have hin : ':' ∉ " in (".toList := by decide
      have hcomma : Separator "," := by decide
      have hall : (placeholders ⟨column, .oneOf vs⟩ index).flatMap
            (fun p => placeholdersIn p.toList)
          = placeholders ⟨column, .oneOf vs⟩ index :=
        flatMap_placeholdersIn hnumbered
      have happend : (text ⟨column, .oneOf vs⟩ index).toList
          = (column.toList ++ (" in (".toList ++
            (String.intercalate "," (placeholders ⟨column, .oneOf vs⟩ index)).toList))
            ++ (")".toList ++ []) := by
        simp [text]
      rw [happend, placeholdersIn_separated separator_closing, placeholdersIn_append_of_not_mem hc,
        placeholdersIn_append_of_not_mem hin, placeholdersIn_intercalate hcomma, hall]
      exact List.append_nil _
  | present =>
      refine placeholdersIn_of_not_mem ?_
      simp [text, hc]
  | absent =>
      refine placeholdersIn_of_not_mem ?_
      simp [text, hc]

/-- Every condition has a text, whatever it asks of whichever attribute. -/
theorem text_ne_empty (c : Condition) (index : Nat) : c.text index ≠ "" := by
  unfold text
  cases c.test <;> simp [String.append_eq_empty_iff]

/-! ## What compiles -/

/-- A condition compiles when it is not a membership in an empty list and its operands encode, to
    its text and to its operands under its own placeholders. -/
theorem compile_eq_ok {c : Condition} {index : Nat} {g : Fragment}
    (h : c.compile index = .ok g) :
    c.test ≠ .oneOf [] ∧ ∃ encoded, Value.encodeList c.test.operands = .ok encoded ∧
      g = ⟨c.text index, Mapping.ofList ((c.placeholders index).zip encoded)⟩ := by
  rw [compile] at h
  split at h
  · exact nomatch h
  · rename_i test hne
    refine ⟨hne, ?_⟩
    cases he : Value.encodeList c.test.operands with
    | error fault =>
        rw [he] at h
        exact nomatch h
    | ok encoded =>
        rw [he] at h
        exact ⟨encoded, rfl, (Except.ok.inj h).symm⟩

/-- A list of conditions compiles when the first one does and the others do, counted on from its
    operands. -/
theorem compileAll_cons_eq_ok {c : Condition} {rest : List Condition} {index : Nat}
    {fs : List Fragment} (h : compileAll (c :: rest) index = .ok fs) :
    ∃ f others, c.compile index = .ok f ∧
      compileAll rest (index + c.test.operands.length) = .ok others ∧ fs = f :: others := by
  rw [compileAll, bind_eq_ok] at h
  obtain ⟨f, hf, h⟩ := h
  obtain ⟨others, hothers, h⟩ := bind_eq_ok.mp h
  exact ⟨f, others, hf, hothers, (Except.ok.inj h).symm⟩

/-- Compiled conditions have no text only when there are none. -/
theorem merge_compileAll_text_eq_empty_iff {cs : List Condition} {index : Nat} {fs : List Fragment}
    (h : compileAll cs index = .ok fs) (op : String) :
    (Fragment.merge op fs).text = "" ↔ cs = [] := by
  cases cs with
  | nil =>
      obtain rfl : [] = fs := Except.ok.inj h
      exact iff_of_true rfl rfl
  | cons c rest =>
      obtain ⟨f, others, hc, -, rfl⟩ := compileAll_cons_eq_ok h
      obtain ⟨-, encoded, -, rfl⟩ := compile_eq_ok hc
      refine iff_of_false (fun hempty => ?_) (List.cons_ne_nil c rest)
      exact c.text_ne_empty index (Fragment.merge_text_eq_empty_iff.mp hempty _ List.mem_cons_self)

/-- The table of compiled conditions pairs their placeholders with their encoded operands. -/
theorem compileAll_values {cs : List Condition} {index : Nat} {fs : List Fragment}
    (h : compileAll cs index = .ok fs) (op : String) :
    ∃ encoded, Value.encodeList (operandsOf cs) = .ok encoded ∧
      (Fragment.merge op fs).values
        = Mapping.ofList ((placeholdersFrom cs index).zip encoded) := by
  induction cs generalizing index fs with
  | nil =>
      obtain rfl : [] = fs := Except.ok.inj h
      exact ⟨[], rfl, rfl⟩
  | cons c rest ih =>
      obtain ⟨f, others, hc, hrest, rfl⟩ := compileAll_cons_eq_ok h
      obtain ⟨-, encoded, he, rfl⟩ := compile_eq_ok hc
      obtain ⟨tail, htail, hvalues⟩ := ih hrest
      have hlength : (c.placeholders index).length = encoded.length := by
        rw [length_placeholders, Value.length_of_encodeList he]
      refine ⟨encoded ++ tail, Value.encodeList_append he htail, ?_⟩
      rw [placeholdersFrom_cons, List.zip_append hlength, Mapping.ofList_append, ← hvalues]
      rfl

/-- **Every condition finds its own operands**, when every placeholder finds the operand that it was
    made for. -/
theorem map_find?_indexed {values : Attributes} {cs : List Condition} {index : Nat}
    {encoded : List AttributeValue} (h : Value.encodeList (operandsOf cs) = .ok encoded)
    (hfind : (placeholdersFrom cs index).map values.find? = encoded.map some) :
    ∀ x ∈ indexed cs index, ∃ own, Value.encodeList x.1.test.operands = .ok own ∧
      (x.1.placeholders x.2).map values.find? = own.map some := by
  have hoperands : operandsOf cs = (indexed cs index).flatMap fun x => x.1.test.operands := by
    -- Only the numbers change along the list, so nothing else is kept for the induction.
    clear h hfind
    induction cs generalizing index with
    | nil => rfl
    | cons c rest ih => rw [operandsOf_cons, ih]; rfl
  rw [hoperands] at h
  exact Value.map_of_flatMap (fun x _ => length_placeholders x.1 x.2) h hfind

/-- Every condition of a compiled list has its text among the fragments, with its own index. -/
theorem exists_compileAll {cs : List Condition} {index : Nat} {fs : List Fragment}
    (h : compileAll cs index = .ok fs) :
    ∀ x ∈ indexed cs index, ∃ f ∈ fs, f.text = x.1.text x.2 := by
  induction cs generalizing index fs with
  | nil => exact fun x hx => nomatch hx
  | cons c rest ih =>
      obtain ⟨f, others, hc, hrest, rfl⟩ := compileAll_cons_eq_ok h
      obtain ⟨-, encoded, -, rfl⟩ := compile_eq_ok hc
      intro x hx
      rcases List.mem_cons.mp hx with rfl | hx
      · exact ⟨_, List.mem_cons_self, rfl⟩
      · obtain ⟨f, hf, htext⟩ := ih hrest x hx
        exact ⟨f, List.mem_cons_of_mem _ hf, htext⟩

/-- The placeholders that are found in joined conditions are their own ones in order, as long as no
    column has a colon. -/
theorem placeholdersIn_compileAll {op : String} (hop : Separator op) {cs : List Condition}
    {index : Nat} {fs : List Fragment} (h : compileAll cs index = .ok fs)
    (hc : ∀ c ∈ cs, ':' ∉ c.column.toList) :
    placeholdersIn (Fragment.merge op fs).text.toList = placeholdersFrom cs index := by
  induction cs generalizing index fs with
  | nil =>
      obtain rfl : [] = fs := Except.ok.inj h
      rfl
  | cons c rest ih =>
      obtain ⟨f, others, hf, hrest, rfl⟩ := compileAll_cons_eq_ok h
      obtain ⟨-, encoded, -, rfl⟩ := compile_eq_ok hf
      rw [Fragment.merge_cons_text, placeholdersIn_join hop, placeholdersFrom_cons,
        placeholdersIn_text (hc c List.mem_cons_self),
        ih hrest fun d hd => hc d (List.mem_cons_of_mem c hd)]

end Condition

namespace Filter

/-- All conditions of a filter, those that must hold before those of which one must hold. -/
def conditions (f : Filter) : List Condition := f.all ++ f.any

/-- The operands of a filter, in order. -/
def operands (f : Filter) : List Value := Condition.operandsOf f.conditions

/-- The placeholders of a filter, in order. -/
def placeholders (f : Filter) : List String := Condition.placeholdersFrom f.conditions 0

theorem length_placeholders (f : Filter) : f.placeholders.length = f.operands.length := by
  rw [placeholders, Condition.length_placeholdersFrom, operands, Condition.length_operandsOf]

/-- **No two operands of a filter have one placeholder.** -/
theorem nodup_placeholders (f : Filter) : f.placeholders.Nodup :=
  (Condition.numbered_placeholdersFrom f.conditions 0).nodup

/-- **What a compiled filter is**: the two groups joined, and the table that pairs the placeholders
    of the filter with its encoded operands. -/
theorem compile_eq_ok {f : Filter} {g : Fragment} (h : f.compile = .ok g) :
    ∃ all any encoded, Condition.compileAll f.all 0 = .ok all ∧
      Condition.compileAll f.any (Condition.operandCount f.all) = .ok any ∧
      Value.encodeList f.operands = .ok encoded ∧
      g.text = Fragment.join " and " (Fragment.merge " and " all).text
        (Fragment.merge " or " any).parenthesize.text ∧
      g.values = Mapping.ofList (f.placeholders.zip encoded) := by
  rw [compile, bind_eq_ok] at h
  obtain ⟨all, hall, h⟩ := h
  obtain ⟨any, hany, h⟩ := bind_eq_ok.mp h
  obtain rfl := Except.ok.inj h
  obtain ⟨left, hleft, hvl⟩ := Condition.compileAll_values hall " and "
  obtain ⟨right, hright, hvr⟩ := Condition.compileAll_values hany " or "
  have hlength : (Condition.placeholdersFrom f.all 0).length = left.length := by
    rw [Condition.length_placeholdersFrom, Value.length_of_encodeList hleft,
      Condition.length_operandsOf]
  refine ⟨all, any, left ++ right, hall, hany, ?_, ?_, ?_⟩
  · rw [operands, conditions, Condition.operandsOf_append]
    exact Value.encodeList_append hleft hright
  · simp [Fragment.merge, Fragment.append, Fragment.empty]
  · have hparens : (Fragment.merge " or " any).parenthesize.values
        = (Fragment.merge " or " any).values := by
      unfold Fragment.parenthesize
      split <;> rfl
    rw [placeholders, conditions, Condition.placeholdersFrom_append, Nat.zero_add,
      List.zip_append hlength, Mapping.ofList_append, ← hvl, ← hvr, ← hparens]
    rfl

/-- **A compiled filter has no text only when the filter has no condition.** -/
theorem compile_text_eq_empty_iff {f : Filter} {g : Fragment} (h : f.compile = .ok g) :
    g.text = "" ↔ f.conditions = [] := by
  obtain ⟨all, any, encoded, hall, hany, -, htext, -⟩ := compile_eq_ok h
  rw [htext, Fragment.join_eq_empty_iff, Fragment.parenthesize_text_eq_empty_iff,
    Condition.merge_compileAll_text_eq_empty_iff hall, Condition.merge_compileAll_text_eq_empty_iff hany,
    conditions, List.append_eq_nil_iff]

/-- **The text of a filter** has its placeholders in order, when no name adds a colon. -/
theorem placeholdersIn_compile {f : Filter} {g : Fragment} (h : f.compile = .ok g)
    (hc : ∀ c ∈ f.conditions, ':' ∉ c.column.toList) :
    placeholdersIn g.text.toList = f.placeholders := by
  obtain ⟨all, any, encoded, hall, hany, -, htext, -⟩ := compile_eq_ok h
  have hand : Separator " and " := by decide
  have hor : Separator " or " := by decide
  have hparens : placeholdersIn (Fragment.merge " or " any).parenthesize.text.toList
      = placeholdersIn (Fragment.merge " or " any).text.toList := by
    have hopening : ':' ∉ "(".toList := by decide
    rw [Fragment.parenthesize]
    split
    · rfl
    · rw [String.toList_append, String.toList_append, List.append_assoc,
        placeholdersIn_append_of_not_mem hopening, ← List.append_nil ")".toList,
        placeholdersIn_separated separator_closing]
      exact List.append_nil _
  rw [htext, placeholdersIn_join hand, hparens,
    Condition.placeholdersIn_compileAll hand hall fun c hm => hc c (List.mem_append_left _ hm),
    Condition.placeholdersIn_compileAll hor hany fun c hm => hc c (List.mem_append_right _ hm),
    placeholders, conditions, Condition.placeholdersFrom_append, Nat.zero_add]

theorem part_compile {f : Filter} {g : Fragment} (h : f.compile = .ok g) :
    ∀ x ∈ Condition.indexed f.conditions 0, Fragment.Part (x.1.text x.2) g.text := by
  obtain ⟨all, any, encoded, hall, hany, -, htext, -⟩ := compile_eq_ok h
  intro x hx
  rw [conditions, Condition.indexed_append, Nat.zero_add, List.mem_append] at hx
  rw [htext]
  rcases hx with hx | hx
  · obtain ⟨f, hf, hfx⟩ := Condition.exists_compileAll hall x hx
    rw [← hfx]
    exact (Fragment.part_merge _ hf).trans (Fragment.part_join_left _ _ _)
  · obtain ⟨f, hf, hfx⟩ := Condition.exists_compileAll hany x hx
    rw [← hfx]
    exact ((Fragment.part_merge _ hf).trans (Fragment.part_parenthesize _)).trans
      (Fragment.part_join_right _ _ _)

/-- Each placeholder of a filter finds its own operand in the map of all of them. -/
theorem map_find?_placeholders {f : Filter} {encoded : List AttributeValue}
    (h : Value.encodeList f.operands = .ok encoded) :
    f.placeholders.map (Mapping.ofList (f.placeholders.zip encoded)).find?
      = encoded.map some := by
  have hlength : f.placeholders.length = encoded.length := by
    rw [f.length_placeholders, Value.length_of_encodeList h]
  exact Mapping.map_find?_zip f.nodup_placeholders hlength

end Filter

end Depot
