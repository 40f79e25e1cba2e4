/-!
# Mappings — finite tables from names to values

A **`Mapping`** lists its entries by strictly increasing name, so two mappings that hold the same
entries are equal, whatever the order in which they were filled (`Mapping.ext_find?`). Names are
compared code point by code point.
-/

namespace Depot

/-- The entries of a mapping, each name smaller than all names after it. -/
def Ascending {α : Type} (entries : List (String × α)) : Prop :=
  entries.Pairwise (fun a b => a.1 < b.1)

/-- A finite table from names to values, sorted by name and without a repeated name. -/
structure Mapping (α : Type) where
  entries : List (String × α)
  ascending : Ascending entries

namespace Mapping

variable {α : Type}

/-- Two mappings with the same entries are the same mapping. -/
@[ext] theorem ext {m n : Mapping α} (h : m.entries = n.entries) : m = n := by
  cases m; cases n; cases h; rfl

/-- The mapping without entries. -/
def empty : Mapping α := ⟨[], List.Pairwise.nil⟩

instance : EmptyCollection (Mapping α) := ⟨empty⟩

instance : Inhabited (Mapping α) := ⟨empty⟩

/-- The value under a name in a list of entries, the first one where there are several. -/
def lookup (name : String) : List (String × α) → Option α
  | [] => none
  | (other, value) :: rest => if other = name then some value else lookup name rest

/-- The value a mapping holds under a name. -/
def find? (m : Mapping α) (name : String) : Option α := lookup name m.entries

/-- The sorted entries with one more, which replaces an entry of the same name. -/
def insertEntry (name : String) (value : α) : List (String × α) → List (String × α)
  | [] => [(name, value)]
  | (other, old) :: rest =>
    if name < other then (name, value) :: (other, old) :: rest
    else if name = other then (name, value) :: rest
    else (other, old) :: insertEntry name value rest

/-- An entry of the extended list is the new one or an old one. -/
theorem mem_insertEntry {name : String} {value : α} {e : String × α} {l : List (String × α)}
    (h : e ∈ insertEntry name value l) : e = (name, value) ∨ e ∈ l := by
  induction l with
  | nil => simpa [insertEntry] using h
  | cons hd tl ih =>
    obtain ⟨other, old⟩ := hd
    rw [insertEntry] at h
    split at h
    · simpa using h
    · split at h
      · rcases List.mem_cons.1 h with h | h
        · exact .inl h
        · exact .inr (List.mem_cons_of_mem _ h)
      · rcases List.mem_cons.1 h with h | h
        · exact .inr (h ▸ List.mem_cons_self)
        · exact (ih h).imp id (List.mem_cons_of_mem _)

/-- Of two names one is smaller, or they are equal. -/
theorem lt_of_not_lt_of_ne {a b : String} (h : ¬ a < b) (hne : a ≠ b) : b < a := by
  rcases Decidable.em (b < a) with h' | h'
  · exact h'
  · exact absurd (String.le_antisymm (String.not_lt.1 h') (String.not_lt.1 h)) hne

/-- Insertion keeps the entries sorted. -/
theorem ascending_insertEntry (name : String) (value : α) {l : List (String × α)}
    (h : Ascending l) : Ascending (insertEntry name value l) := by
  induction l with
  | nil => simp [insertEntry, Ascending]
  | cons hd tl ih =>
    obtain ⟨other, old⟩ := hd
    have htl : Ascending tl := List.Pairwise.of_cons h
    have hhd : ∀ e ∈ tl, other < e.1 := fun e he => List.rel_of_pairwise_cons h he
    rw [insertEntry]
    split
    · rename_i hlt
      refine List.Pairwise.cons (fun e he => ?_) h
      rcases List.mem_cons.1 he with rfl | he
      · exact hlt
      · exact String.lt_trans hlt (hhd e he)
    · rename_i hge
      split
      · rename_i heq
        exact List.Pairwise.cons (fun e he => heq ▸ hhd e he) htl
      · rename_i hne
        refine List.Pairwise.cons (fun e he => ?_) (ih htl)
        rcases mem_insertEntry he with rfl | he
        · exact lt_of_not_lt_of_ne hge hne
        · exact hhd e he

/-- The mapping with one more entry, which replaces an entry of the same name. -/
def insert (m : Mapping α) (name : String) (value : α) : Mapping α :=
  ⟨insertEntry name value m.entries, ascending_insertEntry name value m.ascending⟩

/-- The mapping without the entry of a name. -/
def erase (m : Mapping α) (name : String) : Mapping α :=
  ⟨m.entries.filter (fun e => e.1 ≠ name), List.Pairwise.filter _ m.ascending⟩

/-- The mapping extended by a list of entries, where a later entry replaces an earlier one. -/
def insertAll (m : Mapping α) : List (String × α) → Mapping α
  | [] => m
  | (name, value) :: rest => (m.insert name value).insertAll rest

/-- The mapping of a list of entries, where a later entry replaces an earlier one. -/
def ofList (entries : List (String × α)) : Mapping α := empty.insertAll entries

/-- The entries of both mappings, those of the second where both hold a name. -/
def union (m n : Mapping α) : Mapping α := m.insertAll n.entries

/-- How many entries a mapping holds. -/
def size (m : Mapping α) : Nat := m.entries.length

/-- Whether a mapping holds no entry. -/
def isEmpty (m : Mapping α) : Bool := m.entries.isEmpty

/-- The mapping itself, unless it is empty. -/
def nonempty? (m : Mapping α) : Option (Mapping α) := if m.isEmpty then none else some m

/-- The names a mapping holds, in order. -/
def names (m : Mapping α) : List String := m.entries.map (·.1)

/-! ## Lookups -/

@[simp] theorem find?_empty (name : String) : (empty : Mapping α).find? name = none := rfl

private theorem lookup_insertEntry (name other : String) (value : α) (l : List (String × α)) :
    lookup other (insertEntry name value l) =
      if name = other then some value else lookup other l := by
  induction l with
  | nil => rfl
  | cons hd tl ih =>
    obtain ⟨k, old⟩ := hd
    rw [insertEntry]
    split
    · rfl
    · split
      · rename_i heq
        subst heq
        by_cases h : name = other <;> simp [lookup, h]
      · rename_i hne
        by_cases h : k = other
        · subst h
          simp [lookup, hne]
        · simp [lookup, h, ih]

/-- A lookup after an insertion finds the new value under its name and nothing else new. -/
@[simp] theorem find?_insert (m : Mapping α) (name other : String) (value : α) :
    (m.insert name value).find? other = if name = other then some value else m.find? other :=
  lookup_insertEntry name other value m.entries

private theorem lookup_filter (name other : String) (l : List (String × α)) :
    lookup other (l.filter (fun e => e.1 ≠ name)) =
      if name = other then none else lookup other l := by
  induction l with
  | nil => simp [lookup]
  | cons hd tl ih =>
    obtain ⟨k, old⟩ := hd
    by_cases hk : k = name
    · subst hk
      by_cases h : k = other <;> simp_all [lookup]
    · by_cases h : k = other
      · subst h
        simp [lookup, hk, Ne.symm hk]
      · simp_all [lookup]

/-- A lookup after an erasure finds nothing under the erased name and all else as before. -/
@[simp] theorem find?_erase (m : Mapping α) (name other : String) :
    (m.erase name).find? other = if name = other then none else m.find? other :=
  lookup_filter name other m.entries

private theorem lookup_eq_none_of_lt {name : String} {l : List (String × α)}
    (h : ∀ e ∈ l, name < e.1) : lookup name l = none := by
  induction l with
  | nil => rfl
  | cons hd tl ih =>
    obtain ⟨k, v⟩ := hd
    have hk : k ≠ name := fun e => String.lt_irrefl name (e ▸ h (k, v) List.mem_cons_self)
    simp [lookup, hk, ih (fun e he => h e (List.mem_cons_of_mem _ he))]

/-- Sorted entries with the same lookups are the same entries. -/
theorem eq_of_lookup_eq {l r : List (String × α)} (hl : Ascending l) (hr : Ascending r)
    (h : ∀ name, lookup name l = lookup name r) : l = r := by
  induction l generalizing r with
  | nil =>
    cases r with
    | nil => rfl
    | cons hd tl => exact absurd (h hd.1) (by simp [lookup])
  | cons hd tl ih =>
    obtain ⟨k, v⟩ := hd
    cases r with
    | nil => exact absurd (h k) (by simp [lookup])
    | cons hd' tl' =>
      obtain ⟨k', v'⟩ := hd'
      have hkl : ∀ e ∈ tl, k < e.1 := fun e he => List.rel_of_pairwise_cons hl he
      have hkr : ∀ e ∈ tl', k' < e.1 := fun e he => List.rel_of_pairwise_cons hr he
      have hk : k = k' := by
        apply Decidable.byContradiction
        intro hne
        rcases Decidable.em (k < k') with hlt | hge
        · have : lookup k ((k', v') :: tl') = none :=
            lookup_eq_none_of_lt (fun e he => by
              rcases List.mem_cons.1 he with rfl | he
              · exact hlt
              · exact String.lt_trans hlt (hkr e he))
          exact absurd (h k) (by rw [this]; simp [lookup])
        · have hlt := lt_of_not_lt_of_ne hge hne
          have : lookup k' ((k, v) :: tl) = none :=
            lookup_eq_none_of_lt (fun e he => by
              rcases List.mem_cons.1 he with rfl | he
              · exact hlt
              · exact String.lt_trans hlt (hkl e he))
          exact absurd (h k') (by rw [this]; simp [lookup])
      subst hk
      have hv : v = v' := by simpa [lookup] using h k
      subst hv
      have ht : tl = tl' := by
        refine ih (List.Pairwise.of_cons hl) (List.Pairwise.of_cons hr) (fun name => ?_)
        by_cases hn : k = name
        · subst hn
          rw [lookup_eq_none_of_lt hkl, lookup_eq_none_of_lt hkr]
        · simpa [lookup, hn] using h name
      rw [ht]

/-- Mappings with the same lookups are equal. -/
theorem ext_find? {m n : Mapping α} (h : ∀ name, m.find? name = n.find? name) : m = n :=
  ext (eq_of_lookup_eq m.ascending n.ascending h)

end Mapping

end Depot
