import Depot.Mapping

/-!
# Mappings from lists — what a filled table holds

A mapping filled from a list finds under a name what the list gives last, so filling it from two
lists one after the other is the union of the two tables (`ofList_append`). When no name of the
list is repeated, nothing is overwritten:

* **`find?_ofList_of_mem`** — every entry of the list is found under its name;
* **`ofList_entries_perm`** — the table holds the entries of the list and no other;
* **`ofList_eq_of_perm`** — every order of the list fills the same table.
-/

namespace Depot.Mapping

variable {α : Type}

theorem lookup_append (name : String) (l r : List (String × α)) :
    lookup name (l ++ r) = (lookup name l).or (lookup name r) := by
  induction l with
  | nil => rfl
  | cons hd tl ih =>
      obtain ⟨other, value⟩ := hd
      rw [List.cons_append]
      by_cases h : other = name
      · simp [lookup, h]
      · simp [lookup, h, ih]

/-- Where no name is there twice, what is found for a name is what stands beside it. -/
theorem lookup_eq_some_iff {l : List (String × α)} (hl : (l.map (·.1)).Nodup) {name : String}
    {value : α} : lookup name l = some value ↔ (name, value) ∈ l := by
  induction l with
  | nil => simp [lookup]
  | cons hd tl ih =>
      obtain ⟨other, old⟩ := hd
      rw [List.map_cons, List.nodup_cons] at hl
      by_cases h : other = name
      · subst h
        have hno : (other, value) ∉ tl := fun hm => hl.1 (List.mem_map.mpr ⟨_, hm, rfl⟩)
        simp [lookup, hno, eq_comm]
      · simp [lookup, h, ih hl.2, Ne.symm h]

/-- Ascending names are different ones. -/
theorem nodup_names_of_ascending {l : List (String × α)} (h : Ascending l) :
    (l.map (·.1)).Nodup := by
  rw [List.Nodup, List.pairwise_map]
  refine h.imp ?_
  intro a b hlt heq
  rw [heq] at hlt
  exact String.lt_irrefl b.1 hlt

/-- A mapping has no name twice. -/
theorem nodup_names (m : Mapping α) : m.names.Nodup := nodup_names_of_ascending m.ascending

/-- What a mapping finds for a name is the entry that it has for it. -/
theorem find?_eq_some_iff {m : Mapping α} {name : String} {value : α} :
    m.find? name = some value ↔ (name, value) ∈ m.entries :=
  lookup_eq_some_iff (nodup_names m)

/-- The last of the new entries counts, and behind them what was there before. -/
theorem find?_insertAll (m : Mapping α) (l : List (String × α)) (name : String) :
    (m.insertAll l).find? name = (lookup name l.reverse).or (m.find? name) := by
  induction l generalizing m with
  | nil => rfl
  | cons hd tl ih =>
      obtain ⟨other, value⟩ := hd
      rw [insertAll, ih, find?_insert, List.reverse_cons, lookup_append, Option.or_assoc]
      by_cases h : other = name
      · simp [lookup, h]
      · simp [lookup, h]

/-- Of several values for one name in a list the mapping keeps the last one. -/
theorem find?_ofList (l : List (String × α)) (name : String) :
    (ofList l).find? name = lookup name l.reverse := by
  rw [ofList, find?_insertAll, find?_empty, Option.or_none]

/-- Without a repeated name the order in which a list is read does not matter. -/
theorem lookup_reverse {l : List (String × α)} (hl : (l.map (·.1)).Nodup) (name : String) :
    lookup name l.reverse = lookup name l := by
  have hr : (l.reverse.map (·.1)).Nodup := by
    rw [List.map_reverse]
    exact (List.reverse_perm _).nodup_iff.mpr hl
  apply Option.ext
  intro value
  rw [lookup_eq_some_iff hr, lookup_eq_some_iff hl, List.mem_reverse]

theorem find?_ofList_map {β : Type} (f : α → β) (l : List (String × α)) (name : String) :
    (ofList (l.map fun x => (x.1, f x.2))).find? name = ((ofList l).find? name).map f := by
  have hlookup (l : List (String × α)) :
      lookup name (l.map fun x => (x.1, f x.2)) = (lookup name l).map f := by
    induction l with
    | nil => rfl
    | cons x rest ih =>
        rw [List.map_cons, lookup, lookup, ih]
        split <;> rfl
  rw [find?_ofList, find?_ofList, ← List.map_reverse, hlookup]

/-- Where no name is there twice, the mapping of a list finds every entry of it. -/
theorem find?_ofList_of_mem {l : List (String × α)} (hl : (l.map (·.1)).Nodup) {name : String}
    {value : α} (h : (name, value) ∈ l) : (ofList l).find? name = some value := by
  rw [find?_ofList, lookup_reverse hl, lookup_eq_some_iff hl]
  exact h

/-- **Names paired with values** find their values, in order, when no name is repeated. -/
theorem map_find?_zip {names : List String} {values : List α} (hn : names.Nodup)
    (hlength : names.length = values.length) :
    names.map (ofList (names.zip values)).find? = values.map some := by
  have hnames : (names.zip values).map (·.1) = names := List.map_fst_zip (Nat.le_of_eq hlength)
  refine List.ext_getElem (by simp [hlength]) fun i hi hi' => ?_
  rw [List.length_map] at hi hi'
  rw [List.getElem_map, List.getElem_map]
  apply find?_ofList_of_mem (by rwa [hnames])
  have hzip : i < (names.zip values).length := by
    rw [List.length_zip]
    omega
  exact List.getElem_zip (h := hzip) ▸ List.getElem_mem hzip

/-- **The order of a list** without a repeated name does not matter. -/
theorem ofList_eq_of_perm {l r : List (String × α)} (h : l.Perm r) (hl : (l.map (·.1)).Nodup) :
    ofList l = ofList r := by
  have hr : (r.map (·.1)).Nodup := (h.map (·.1)).nodup_iff.mp hl
  apply ext_find?
  intro name
  apply Option.ext
  intro value
  rw [find?_ofList, find?_ofList, lookup_reverse hl, lookup_reverse hr, lookup_eq_some_iff hl,
    lookup_eq_some_iff hr, h.mem_iff]

/-- A mapping is that of its own entries. -/
theorem ofList_entries (m : Mapping α) : ofList m.entries = m := by
  apply ext_find?
  intro name
  rw [find?_ofList, lookup_reverse (nodup_names m)]
  rfl

/-- A union finds what the second mapping has, and else what the first one has. -/
theorem find?_union (m n : Mapping α) (name : String) :
    (m.union n).find? name = (n.find? name).or (m.find? name) := by
  rw [union, find?_insertAll, lookup_reverse (nodup_names n)]
  rfl

@[simp] theorem empty_union (m : Mapping α) : empty.union m = m := ofList_entries m

@[simp] theorem union_empty (m : Mapping α) : m.union empty = m := rfl

/-- Three mappings have the same union in whichever order they are joined. -/
theorem union_assoc (m n k : Mapping α) : (m.union n).union k = m.union (n.union k) := by
  apply ext_find?
  intro name
  rw [find?_union, find?_union, find?_union, find?_union, Option.or_assoc]

/-- **Filling from two lists** one after the other is the union of their mappings. -/
theorem ofList_append (l r : List (String × α)) :
    ofList (l ++ r) = (ofList l).union (ofList r) := by
  apply ext_find?
  intro name
  rw [find?_union, find?_ofList, find?_ofList, find?_ofList, List.reverse_append, lookup_append]

theorem insertEntry_perm {name : String} (value : α) {l : List (String × α)}
    (h : name ∉ l.map (·.1)) : (insertEntry name value l).Perm ((name, value) :: l) := by
  induction l with
  | nil => exact List.Perm.refl _
  | cons hd tl ih =>
      obtain ⟨other, old⟩ := hd
      rw [List.map_cons, List.mem_cons, not_or] at h
      rw [insertEntry]
      split
      · exact List.Perm.refl _
      · rw [if_neg h.1]
        exact ((ih h.2).cons _).trans (List.Perm.swap ..)

/-- New names that are different ones are all added to the entries. -/
theorem insertAll_perm {l : List (String × α)} (hl : (l.map (·.1)).Nodup) :
    ∀ m : Mapping α, (∀ name ∈ l.map (·.1), name ∉ m.names) →
      (m.insertAll l).entries.Perm (l ++ m.entries) := by
  induction l with
  | nil => intro m _; exact List.Perm.refl _
  | cons hd tl ih =>
      intro m hm
      obtain ⟨name, value⟩ := hd
      rw [List.map_cons, List.nodup_cons] at hl
      have hname : name ∉ m.names := hm name List.mem_cons_self
      have hstep : (m.insert name value).entries.Perm ((name, value) :: m.entries) :=
        insertEntry_perm value hname
      -- The later names are still new when the first one is in.
      have hfresh : ∀ other ∈ tl.map (·.1), other ∉ (m.insert name value).names := by
        intro other ho hin
        rcases List.mem_cons.mp ((hstep.map (·.1)).mem_iff.mp hin) with heq | hin
        · subst heq
          exact hl.1 ho
        · exact hm other (List.mem_cons_of_mem _ ho) hin
      have htail := ih hl.2 (m.insert name value) hfresh
      exact htail.trans ((hstep.append_left tl).trans List.perm_middle)

/-- **Nothing is overwritten** when no name is repeated: the mapping of a list has its entries. -/
theorem ofList_entries_perm {l : List (String × α)} (hl : (l.map (·.1)).Nodup) :
    (ofList l).entries.Perm l := by
  have h := insertAll_perm hl empty (fun name _ hin => nomatch hin)
  rwa [show (empty : Mapping α).entries = [] from rfl, List.append_nil] at h

/-- A mapping that is left out when it is empty is the empty one where it is not there. -/
@[simp] theorem getD_nonempty? (m : Mapping α) : m.nonempty?.getD empty = m := by
  rw [nonempty?]
  by_cases h : m.isEmpty = true
  · have hm : m = empty := ext (List.isEmpty_iff.mp h)
    rw [if_pos h, hm]
    rfl
  · rw [if_neg h]
    rfl

/-- A mapping is left out of a request exactly when it has no entries. -/
theorem nonempty?_eq_none_iff {m : Mapping α} : m.nonempty? = none ↔ m.entries = [] := by
  rw [nonempty?, isEmpty]
  cases m.entries with
  | nil => simp
  | cons hd tl => simp

theorem nonempty?_of_ne_nil {m : Mapping α} (h : m.entries ≠ []) : m.nonempty? = some m := by
  rw [nonempty?, isEmpty, if_neg (by simpa using h)]

end Depot.Mapping
