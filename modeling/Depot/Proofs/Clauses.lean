import Depot.Proofs.Encoding
import Depot.Proofs.Fragment
import Depot.Proofs.Mapping
import Depot.Proofs.Placeholder

/-!
# Compiled updates — one placeholder for each entry

The clauses that give a value to an attribute are SET, ADD and DELETE. What **`Clauses.compile`**
renders of them is said by **`Clauses.Renders`**: the text of the clauses without the blanks at its
ends, and the table that pairs the placeholders of their entries with the encoded values. The
placeholders of an update are those that stand in its text (**`Renders.placeholdersIn_text`**), no two
of them are equal (**`nodup_placeholders`**), and every entry stands in the text with its own one
(**`Renders.part_text`**).
-/

namespace Depot

namespace ValuedClause

/-- The clauses whose entries have values, in the order in which they are rendered. -/
def order : List ValuedClause := [.set, .add, .delete]

/-- The placeholders of the entries of a clause. -/
def placeholders (k : ValuedClause) (n : Nat) : List String := (List.range n).map k.placeholder

/-- The placeholders of one clause are numbered, so no two of them are the same. -/
theorem nodup_placeholders (k : ValuedClause) (n : Nat) : (k.placeholders n).Nodup := by
  rw [placeholders, List.Nodup, List.pairwise_map]
  exact List.nodup_range.imp fun hne h => hne (placeholder_inj h).2

/-- Different clauses have no placeholder in common. -/
theorem disjoint_placeholders {k k' : ValuedClause} (hne : k ≠ k') {n m : Nat} {p : String}
    (hp : p ∈ k.placeholders n) : p ∉ k'.placeholders m := by
  intro hp'
  obtain ⟨i, -, rfl⟩ := List.mem_map.mp hp
  obtain ⟨j, -, heq⟩ := List.mem_map.mp hp'
  exact hne (placeholder_inj heq).1.symm

end ValuedClause

namespace Clauses

/-- The entries of a clause. -/
def assignments (c : Clauses) : ValuedClause → Assignments
  | .set => c.set
  | .add => c.add
  | .delete => c.delete

/-- The names of all attributes of an update. -/
def names (c : Clauses) : List String :=
  c.remove ++ ValuedClause.order.flatMap fun k => (c.assignments k).names

/-- The values of all entries, in the order in which they are rendered. -/
def operands (c : Clauses) : List Value :=
  ValuedClause.order.flatMap fun k => (c.assignments k).values

/-- The placeholders of all entries, in the order in which they are rendered. -/
def placeholders (c : Clauses) : List String :=
  ValuedClause.order.flatMap fun k => k.placeholders (c.assignments k).entries.length

/-- The text of a clause whose entries have values. -/
def valuedText (c : Clauses) (k : ValuedClause) : String :=
  clauseText k.keyword ((c.assignments k).names.mapIdx k.entryText)

/-- The text of an update, with the blanks at its ends. -/
def text (c : Clauses) : String :=
  Fragment.join " " (c.valuedText .set) (Fragment.join " " (clauseText "REMOVE" c.remove)
    (Fragment.join " " (c.valuedText .add) (Fragment.join " " (c.valuedText .delete) "")))

/-- What an update is rendered as. -/
structure Renders (c : Clauses) (g : Fragment) : Prop where
  text : g.text = Text.trim c.text
  values : ∃ encoded, Value.encodeList c.operands = .ok encoded ∧
    g.values = Mapping.ofList (c.placeholders.zip encoded)

/-! ## Placeholders -/

/-- There is one placeholder for each operand of the clauses. -/
theorem length_placeholders (c : Clauses) : c.placeholders.length = c.operands.length := by
  simp [placeholders, operands, ValuedClause.order, ValuedClause.placeholders, Assignments.values]

/-- **No two entries of an update have one placeholder.** -/
theorem nodup_placeholders (c : Clauses) : c.placeholders.Nodup := by
  have hset := ValuedClause.nodup_placeholders .set c.set.entries.length
  have hadd := ValuedClause.nodup_placeholders .add c.add.entries.length
  have hdelete := ValuedClause.nodup_placeholders .delete c.delete.entries.length
  have happend : c.placeholders = ValuedClause.placeholders .set c.set.entries.length ++
      (ValuedClause.placeholders .add c.add.entries.length ++
        ValuedClause.placeholders .delete c.delete.entries.length) := by
    simp [placeholders, ValuedClause.order, assignments]
  rw [happend, List.nodup_append, List.nodup_append]
  refine ⟨hset, ⟨hadd, hdelete, ?_⟩, ?_⟩
  · rintro p hp q hq rfl
    exact ValuedClause.disjoint_placeholders (by decide) hp hq
  · rintro p hp q hq rfl
    rcases List.mem_append.mp hq with hq | hq
    · exact ValuedClause.disjoint_placeholders (by decide) hp hq
    · exact ValuedClause.disjoint_placeholders (by decide) hp hq

theorem placeholder_of_mem {c : Clauses} {p : String} (hp : p ∈ c.placeholders) :
    Placeholder p := by
  obtain ⟨k, -, hp⟩ := List.mem_flatMap.mp hp
  obtain ⟨i, -, rfl⟩ := List.mem_map.mp hp
  exact k.placeholder_placeholder i

/-! ## What compiles -/

/-- An update does nothing when each of its four lists is empty. -/
theorem isEmpty_iff {c : Clauses} : c.isEmpty = true ↔
    c.set.entries = [] ∧ c.remove = [] ∧ c.add.entries = [] ∧ c.delete.entries = [] := by
  simp only [isEmpty, Assignments.isEmpty, Bool.and_eq_true, List.isEmpty_iff, and_assoc]

/-- A clause with values compiles when its values encode, to its text and to its values under its
    numbered placeholders. -/
theorem compileValued_eq_ok {k : ValuedClause} {a : Assignments} {g : Fragment}
    (h : compileValued k a = .ok g) :
    ∃ encoded, Value.encodeList a.values = .ok encoded ∧
      g = ⟨clauseText k.keyword (a.names.mapIdx k.entryText),
        Mapping.ofList ((k.placeholders a.entries.length).zip encoded)⟩ := by
  unfold compileValued at h
  cases he : Value.encodeList a.values with
  | error fault =>
      rw [he] at h
      exact nomatch h
  | ok encoded =>
      rw [he] at h
      refine ⟨encoded, rfl, ?_⟩
      have hlength : encoded.length = a.entries.length := by
        rw [Value.length_of_encodeList he, Assignments.values, List.length_map]
      rw [← Except.ok.inj h, hlength]
      rfl

/-- Clauses compile when each clause with values does. The text is that of the four clauses in their
    order, and the values are those of the three that have any. -/
theorem compile_eq_ok {c : Clauses} {g : Fragment} (h : c.compile = .ok g) :
    ∃ set add delete, compileValued .set c.set = .ok set ∧ compileValued .add c.add = .ok add ∧
      compileValued .delete c.delete = .ok delete ∧
      g.text = Text.trim
        (Fragment.merge " " [set, compileRemove c.remove, add, delete]).text ∧
      g.values = set.values.union (add.values.union (delete.values.union .empty)) := by
  unfold compile at h
  split at h
  · exact nomatch h
  · obtain ⟨set, hset, h⟩ := bind_eq_ok.mp h
    obtain ⟨add, hadd, h⟩ := bind_eq_ok.mp h
    obtain ⟨delete, hdelete, h⟩ := bind_eq_ok.mp h
    rw [← Except.ok.inj h]
    refine ⟨set, add, delete, hset, hadd, hdelete, rfl, ?_⟩
    simp [Fragment.merge, Fragment.append, Fragment.empty, compileRemove]

/-- **What a compiled update is.** -/
theorem renders_of_compile {c : Clauses} {g : Fragment} (h : c.compile = .ok g) : c.Renders g := by
  obtain ⟨set, add, delete, hset, hadd, hdelete, htext, hvalues⟩ := compile_eq_ok h
  obtain ⟨sets, hsets, rfl⟩ := compileValued_eq_ok hset
  obtain ⟨adds, hadds, rfl⟩ := compileValued_eq_ok hadd
  obtain ⟨deletes, hdeletes, rfl⟩ := compileValued_eq_ok hdelete
  refine ⟨htext, sets ++ (adds ++ (deletes ++ [])), ?_, ?_⟩
  · exact Value.encodeList_append hsets (Value.encodeList_append hadds
      (Value.encodeList_append hdeletes rfl))
  · have hlength {k : ValuedClause} {a : Assignments} {encoded : List AttributeValue}
        (he : Value.encodeList a.values = .ok encoded) :
        (k.placeholders a.entries.length).length = encoded.length := by
      simp [ValuedClause.placeholders, Value.length_of_encodeList he, Assignments.values]
    have hplaceholders : c.placeholders
        = ValuedClause.placeholders .set c.set.entries.length ++
          (ValuedClause.placeholders .add c.add.entries.length ++
            (ValuedClause.placeholders .delete c.delete.entries.length ++ [])) := rfl
    rw [hvalues, hplaceholders, List.zip_append (hlength hsets), List.zip_append (hlength hadds),
      List.zip_append (hlength hdeletes), Mapping.ofList_append, Mapping.ofList_append,
      Mapping.ofList_append]
    rfl

/-- Each placeholder of the clauses finds its own operand in the map of all of them. -/
theorem map_find?_placeholders {c : Clauses} {encoded : List AttributeValue}
    (h : Value.encodeList c.operands = .ok encoded) :
    c.placeholders.map (Mapping.ofList (c.placeholders.zip encoded)).find? = encoded.map some := by
  have hlength : c.placeholders.length = encoded.length := by
    rw [c.length_placeholders, Value.length_of_encodeList h]
  exact Mapping.map_find?_zip c.nodup_placeholders hlength

/-- **Every entry finds its own value**, when every placeholder finds the value that it was made
    for. -/
theorem find?_placeholder {values : Attributes} {c : Clauses} {encoded : List AttributeValue}
    (h : Value.encodeList c.operands = .ok encoded)
    (hfind : c.placeholders.map values.find? = encoded.map some) {k : ValuedClause} {index : Nat}
    {name : String} {value : Value}
    (hentry : (c.assignments k).entries[index]? = some (name, value)) :
    ∃ own, Value.encode value = .ok own ∧ values.find? (k.placeholder index) = some own := by
  have hlength : ∀ k ∈ ValuedClause.order,
      (k.placeholders (c.assignments k).entries.length).length = (c.assignments k).values.length := by
    intro k _
    simp [ValuedClause.placeholders, Assignments.values]
  have hk : k ∈ ValuedClause.order := by cases k <;> decide
  obtain ⟨all, hall, hvalues⟩ := Value.map_of_flatMap hlength h hfind k hk
  have hvalue : (c.assignments k).values[index]? = some value := by
    rw [Assignments.values, List.getElem?_map, hentry]
    rfl
  obtain ⟨own, hown, hat⟩ := Value.getElem?_of_encodeList hall hvalue
  refine ⟨own, hown, ?_⟩
  obtain ⟨hindex, -⟩ := List.getElem?_eq_some_iff.mp hentry
  have hfound : ((k.placeholders (c.assignments k).entries.length).map values.find?)[index]?
      = (all.map some)[index]? := by rw [hvalues]
  rw [ValuedClause.placeholders, List.map_map, List.getElem?_map, List.getElem?_range hindex,
    List.getElem?_map, hat] at hfound
  exact Option.some.inj hfound

/-- No clause at all is rendered as the empty expression. -/
theorem renders_empty : empty.Renders Fragment.empty where
  text := by decide
  values := ⟨[], rfl, rfl⟩

/-! ## Trimmed texts -/

/-- What is trimmed off a text is blank. -/
theorem exists_trim (s : String) : ∃ front back, s.toList = front ++ ((Text.trim s).toList ++ back) ∧
    (∀ c ∈ front, Text.isBlank c = true) ∧ ∀ c ∈ back, Text.isBlank c = true := by
  have hend (cs : List Char) : cs = Text.trimEnd cs ++ (cs.reverse.takeWhile Text.isBlank).reverse := by
    rw [Text.trimEnd, ← List.reverse_append, List.takeWhile_append_dropWhile, List.reverse_reverse]
  refine ⟨s.toList.takeWhile Text.isBlank,
    ((s.toList.dropWhile Text.isBlank).reverse.takeWhile Text.isBlank).reverse, ?_, ?_, ?_⟩
  · rw [Text.trim, String.toList_ofList, ← hend, List.takeWhile_append_dropWhile]
  · exact List.all_eq_true.mp List.all_takeWhile
  · intro c hc
    exact List.all_eq_true.mp List.all_takeWhile c (List.mem_reverse.mp hc)

/-- There are no blanks in front of a text that does not begin with one. -/
theorem blanks_eq_nil {front rest : List Char} (hfront : ∀ c ∈ front, Text.isBlank c = true)
    (hhead : ∀ c ∈ (front ++ rest).head?, Text.isBlank c = false) : front = [] := by
  cases front with
  | nil => rfl
  | cons c cs =>
      have hplain := hhead c rfl
      rw [hfront c List.mem_cons_self] at hplain
      cases hplain

/-- A part that ends in a character that is not blank is not trimmed, behind one that is not blank
    either. -/
theorem part_trim {part s : String} (h : Fragment.Part part s)
    (hhead : ∀ c ∈ s.toList.head?, Text.isBlank c = false)
    {last : Char} (hlast : part.toList.getLast? = some last) (hplain : Text.isBlank last = false) :
    Fragment.Part part (Text.trim s) := by
  obtain ⟨front, back, hs, hfront, hback⟩ := exists_trim s
  -- The text starts with a character that is not blank, so nothing is trimmed off its front.
  obtain rfl : front = [] := blanks_eq_nil hfront (hs ▸ hhead)
  obtain ⟨before, after, heq⟩ := h
  rw [hs, List.nil_append] at heq
  rcases List.append_eq_append_iff.mp heq with ⟨rest, htrim, -⟩ | ⟨rest, htrim, hrest⟩
  · exact ⟨before, rest, htrim.symm⟩
  · -- What the part has in common with the blanks behind the trimmed text can only be nothing.
    obtain rfl : rest = [] := by
      cases hl : rest.getLast? with
      | none => exact List.getLast?_eq_none_iff.mp hl
      | some c =>
          have hpart : (before ++ part.toList).getLast? = some c := by
            rw [htrim, List.getLast?_append, hl, Option.some_or]
          rw [List.getLast?_append, hlast, Option.some_or] at hpart
          obtain rfl := Option.some.inj hpart
          have hmem : last ∈ back :=
            hrest ▸ List.mem_append_left after (List.mem_of_getLast? hl)
          rw [hback last hmem] at hplain
          exact nomatch hplain
    exact ⟨before, [], by rw [List.append_nil, htrim, List.append_nil]⟩

/-! ## The text -/

private theorem placeholdersIn_clauseText {keyword : String} (hk : ':' ∉ keyword.toList)
    (entries : List String) :
    placeholdersIn (clauseText keyword entries).toList
      = entries.flatMap fun entry => placeholdersIn entry.toList := by
  cases entries with
  | nil => rfl
  | cons entry rest =>
      rw [clauseText, if_neg (by simp), String.toList_append, String.toList_append,
        List.append_assoc, placeholdersIn_append_of_not_mem hk,
        placeholdersIn_append_of_not_mem separator_space.1,
        placeholdersIn_intercalate separator_comma]

theorem placeholdersIn_entryText {name : String} (hn : ':' ∉ name.toList) (k : ValuedClause)
    (index : Nat) : placeholdersIn (k.entryText index name).toList = [k.placeholder index] := by
  have hequals : ':' ∉ " = ".toList := by decide
  have hp := (k.placeholder_placeholder index).placeholdersIn
  cases k with
  | set =>
      rw [ValuedClause.entryText, String.toList_append, String.toList_append, List.append_assoc,
        placeholdersIn_append_of_not_mem hn, placeholdersIn_append_of_not_mem hequals, hp]
  | add =>
      rw [ValuedClause.entryText, String.toList_append, String.toList_append, List.append_assoc,
        placeholdersIn_append_of_not_mem hn, placeholdersIn_append_of_not_mem separator_space.1, hp]
  | delete =>
      rw [ValuedClause.entryText, String.toList_append, String.toList_append, List.append_assoc,
        placeholdersIn_append_of_not_mem hn, placeholdersIn_append_of_not_mem separator_space.1, hp]

private theorem flatMap_mapIdx {names : List String} {f : Nat → String → String}
    {p : Nat → String} (h : ∀ i, ∀ name ∈ names, placeholdersIn (f i name).toList = [p i]) :
    ((names.mapIdx f).flatMap fun entry => placeholdersIn entry.toList)
      = (List.range names.length).map p := by
  induction names generalizing f p with
  | nil => rfl
  | cons name rest ih =>
      have htail := ih (f := fun i => f (i + 1)) (p := p ∘ Nat.succ)
        fun i other hother => h (i + 1) other (List.mem_cons_of_mem name hother)
      rw [List.mapIdx_cons, List.flatMap_cons, h 0 name List.mem_cons_self, htail,
        List.length_cons, List.range_succ_eq_map, List.map_cons, List.map_map]
      rfl

/-- The placeholders that are found in the text of a clause are its own ones in order, as long as no
    name in it has a colon. -/
theorem placeholdersIn_valuedText {c : Clauses} {k : ValuedClause}
    (hn : ∀ name ∈ (c.assignments k).names, ':' ∉ name.toList) :
    placeholdersIn (c.valuedText k).toList = k.placeholders (c.assignments k).entries.length := by
  have hkeyword : ':' ∉ k.keyword.toList := by cases k <;> decide
  have hentries := flatMap_mapIdx (f := k.entryText) (p := k.placeholder)
    fun i name hname => placeholdersIn_entryText (hn name hname) k i
  rw [valuedText, placeholdersIn_clauseText hkeyword, hentries, Assignments.names, List.length_map]
  rfl

/-- The blanks at the ends of a text hide no placeholder. -/
theorem placeholdersIn_trim (s : String) :
    placeholdersIn (Text.trim s).toList = placeholdersIn s.toList := by
  obtain ⟨front, back, hs, hfront, hback⟩ := exists_trim s
  have hblank {cs : List Char} (hcs : ∀ c ∈ cs, Text.isBlank c = true) : ':' ∉ cs :=
    fun hmem => absurd (hcs ':' hmem) (by decide)
  have hword : WordEnds back :=
    fun c hc => isWordChar_of_isBlank (hback c (List.mem_of_mem_head? hc))
  rw [hs, placeholdersIn_append_of_not_mem (hblank hfront), placeholdersIn_append hword,
    placeholdersIn_of_not_mem (hblank hback), List.append_nil]

/-- **The text of an update** has its placeholders in order, when no name adds a colon. -/
theorem Renders.placeholdersIn_text {c : Clauses} {g : Fragment} (h : c.Renders g)
    (hn : ∀ name ∈ c.names, ':' ∉ name.toList) :
    placeholdersIn g.text.toList = c.placeholders := by
  have hvalued : ∀ k ∈ ValuedClause.order, placeholdersIn (c.valuedText k).toList
      = k.placeholders (c.assignments k).entries.length := by
    intro k hk
    refine placeholdersIn_valuedText fun name hname => hn name ?_
    exact List.mem_append_right _ (List.mem_flatMap.mpr ⟨k, hk, hname⟩)
  have hremove : placeholdersIn (clauseText "REMOVE" c.remove).toList = [] := by
    rw [placeholdersIn_clauseText (by decide), List.flatMap_eq_nil_iff]
    exact fun name hname => placeholdersIn_of_not_mem (hn name (List.mem_append_left _ hname))
  rw [h.text, placeholdersIn_trim, Clauses.text, placeholdersIn_join separator_space,
    placeholdersIn_join separator_space, placeholdersIn_join separator_space,
    placeholdersIn_join separator_space, hremove, hvalued .set (by decide),
    hvalued .add (by decide), hvalued .delete (by decide)]
  rfl

/-! ## Entries in the text -/

/-- A clause does not begin with a blank, since its keyword does not. -/
private theorem head_clauseText {keyword : String}
    (hk : keyword.toList.head?.any (fun c => !Text.isBlank c) = true) (entries : List String) :
    ∀ c ∈ (clauseText keyword entries).toList.head?, Text.isBlank c = false := by
  cases hhead : keyword.toList.head? with
  | none =>
      rw [hhead] at hk
      exact nomatch hk
  | some first =>
      rw [hhead] at hk
      cases entries with
      | nil => exact fun c hc => nomatch hc
      | cons entry rest =>
          intro c hc
          rw [clauseText, if_neg (by simp), String.toList_append, String.toList_append,
            List.append_assoc, List.head?_append, hhead, Option.some_or] at hc
          obtain rfl := Option.some.inj hc
          simpa using hk

private theorem head_join {op left right : String}
    (hl : ∀ c ∈ left.toList.head?, Text.isBlank c = false)
    (hr : ∀ c ∈ right.toList.head?, Text.isBlank c = false) :
    ∀ c ∈ (Fragment.join op left right).toList.head?, Text.isBlank c = false := by
  rw [Fragment.join]
  split
  · exact hr
  · rename_i hne
    split
    · exact hl
    · intro c hc
      rw [String.toList_append, String.toList_append, List.append_assoc, List.head?_append] at hc
      cases hhead : left.toList.head? with
      | none => exact absurd (String.toList_eq_nil_iff.mp (List.head?_eq_none_iff.mp hhead)) hne
      | some first =>
          rw [hhead, Option.some_or] at hc
          exact hl c (hhead ▸ hc)

/-- The text of all clauses does not begin with a blank, so nothing is trimmed off in front. -/
private theorem head_text (c : Clauses) :
    ∀ first ∈ c.text.toList.head?, Text.isBlank first = false := by
  refine head_join (head_clauseText (by decide) _) (head_join (head_clauseText (by decide) _)
    (head_join (head_clauseText (by decide) _) (head_join (head_clauseText (by decide) _) ?_)))
  exact fun first hfirst => nomatch hfirst

private theorem part_clauseText (keyword : String) {entry : String} {entries : List String}
    (h : entry ∈ entries) : Fragment.Part entry (clauseText keyword entries) := by
  have hne : entries.isEmpty ≠ true := by
    intro hempty
    rw [List.isEmpty_iff.mp hempty] at h
    exact nomatch h
  rw [clauseText, if_neg hne]
  exact (Fragment.part_intercalate ", " h).trans (Fragment.part_append_right _ _)

private theorem part_valuedText (c : Clauses) (k : ValuedClause) :
    Fragment.Part (c.valuedText k) c.text := by
  -- The clauses stand in the order set, remove, add, delete, each joined with all later ones.
  have hrest : Fragment.Part _ c.text := Fragment.part_join_right " " (c.valuedText .set) _
  have hlater := (Fragment.part_join_right " " (clauseText "REMOVE" c.remove) _).trans hrest
  cases k with
  | set => exact Fragment.part_join_left _ _ _
  | add => exact (Fragment.part_join_left _ _ _).trans hlater
  | delete =>
      exact (Fragment.part_join_left _ _ _).trans ((Fragment.part_join_right _ _ _).trans hlater)

/-- No entry ends with a blank, whatever its name is, so nothing is trimmed off at the end. -/
private theorem getLast_entryText (k : ValuedClause) (index : Nat) (name : String) :
    ∃ last, (k.entryText index name).toList.getLast? = some last ∧ Text.isBlank last = false := by
  have hentry : ∃ front, k.entryText index name = front ++ k.placeholder index := by
    cases k <;> exact ⟨_, rfl⟩
  obtain ⟨front, hfront⟩ := hentry
  have hne : Nat.toDigits 10 index ≠ [] := by simp
  have hdigit := isDigit_toDigits index _ (List.getLast_mem hne)
  refine ⟨(Nat.toDigits 10 index).getLast hne, ?_, ?_⟩
  · rw [hfront, String.toList_append, k.toList_placeholder, List.getLast?_append,
      List.getLast?_append, List.getLast?_eq_some_getLast hne]
    rfl
  · rw [Bool.eq_false_iff]
    intro hblank
    have hword := isWordChar_of_isBlank hblank
    simp [isWordChar, Char.isAlphanum, hdigit] at hword

/-- **Every entry stands in the text of its update** with its own placeholder. -/
theorem Renders.part_text {c : Clauses} {g : Fragment} (h : c.Renders g) {k : ValuedClause}
    {index : Nat} {name : String} (hname : (c.assignments k).names[index]? = some name) :
    Fragment.Part (k.entryText index name) g.text := by
  have hentry : k.entryText index name ∈ (c.assignments k).names.mapIdx k.entryText := by
    refine List.mem_of_getElem? (i := index) ?_
    rw [List.getElem?_mapIdx, hname]
    rfl
  obtain ⟨last, hlast, hplain⟩ := getLast_entryText k index name
  rw [h.text]
  exact part_trim ((part_clauseText _ hentry).trans (part_valuedText c k)) c.head_text hlast hplain

end Clauses

end Depot
