import Mathlib.Data.List.Forall2
import Depot.Attribute.Encoding

/-!
# Encoded lists — one attribute value for each value

A list of values is encoded value by value and in order, and as a whole it fails when one of its
values does. What is said here lets later proofs speak of the encoded list without its recursion.

Of any traversal that may fail it is said what it gives (**`mapM_eq_ok_iff`**), and that it fails as the
first element does that fails (**`mapM_eq_error_iff`**).
-/

namespace Depot

/-- Two steps that may fail have a result when the first has one and the second goes on from it. -/
theorem bind_eq_ok {ε α β : Type} {x : Except ε α} {f : α → Except ε β} {b : β} :
    x >>= f = .ok b ↔ ∃ a, x = .ok a ∧ f a = .ok b := by
  cases x <;> simp [bind, Except.bind]

/-- A mapped computation succeeds when the computation does. -/
theorem map_eq_ok {ε α β : Type} {x : Except ε α} {f : α → β} {b : β} :
    x.map f = .ok b ↔ ∃ a, x = .ok a ∧ f a = b := by
  cases x <;> simp [Except.map]

/-- Two steps fail when the first one does, or when the second one does with what the first one
    gave. -/
theorem bind_eq_error {ε α β : Type} {x : Except ε α} {f : α → Except ε β} {e : ε} :
    x >>= f = .error e ↔ x = .error e ∨ ∃ a, x = .ok a ∧ f a = .error e := by
  cases x <;> simp [bind, Except.bind]

theorem map_eq_error {ε α β : Type} {x : Except ε α} {f : α → β} {e : ε} :
    x.map f = .error e ↔ x = .error e := by
  cases x <;> simp [Except.map]

theorem mapError_eq_ok {ε ε' α : Type} {x : Except ε α} {f : ε → ε'} {a : α} :
    x.mapError f = .ok a ↔ x = .ok a := by
  cases x <;> simp [Except.mapError]

/-- A computation with a renamed error fails when the computation does. -/
theorem mapError_eq_error {ε ε' α : Type} {x : Except ε α} {f : ε → ε'} {e : ε'} :
    x.mapError f = .error e ↔ ∃ fault, x = .error fault ∧ f fault = e := by
  cases x <;> simp [Except.mapError]

/-! ## Traversals -/

section

variable {ε α β : Type} {f : α → Except ε β} {l : List α}

/-- A traversal succeeds when its first step does and the others do. -/
theorem mapM_cons_eq_ok {a : α} {bs : List β} : (a :: l).mapM f = .ok bs ↔
    ∃ b others, f a = .ok b ∧ l.mapM f = .ok others ∧ bs = b :: others := by
  rw [List.mapM_cons]
  simp only [bind_eq_ok, pure, Except.pure, Except.ok.injEq, @eq_comm _ _ bs, exists_and_left]

/-- **A list that is traversed** gives one result for each element, in order. -/
theorem mapM_eq_ok_iff {bs : List β} :
    l.mapM f = .ok bs ↔ List.Forall₂ (fun a b => f a = .ok b) l bs := by
  induction l generalizing bs with
  | nil =>
      constructor
      · intro h
        obtain rfl : [] = bs := Except.ok.inj h
        exact .nil
      · intro h
        cases h
        rfl
  | cons a rest ih =>
      rw [mapM_cons_eq_ok]
      constructor
      · rintro ⟨b, others, ha, hrest, rfl⟩
        exact .cons ha (ih.mp hrest)
      · intro h
        cases h with
        | cons ha hrest => exact ⟨_, _, ha, ih.mpr hrest, rfl⟩

/-- **The first element that fails** decides the error. -/
theorem mapM_eq_error_iff {e : ε} : l.mapM f = .error e ↔ ∃ before a after,
    l = before ++ a :: after ∧ (∀ x ∈ before, ∃ b, f x = .ok b) ∧ f a = .error e := by
  induction l with
  | nil =>
      constructor
      · exact fun h => nomatch h
      · rintro ⟨before, a, after, hnil, -, -⟩
        exact absurd hnil.symm (List.append_ne_nil_of_right_ne_nil _ (List.cons_ne_nil _ _))
  | cons a rest ih =>
      rw [List.mapM_cons, bind_eq_error]
      constructor
      · rintro (ha | ⟨b, hb, hrest⟩)
        · exact ⟨[], a, rest, rfl, fun _ hx => (nomatch hx), ha⟩
        · rcases bind_eq_error.mp hrest with hrest | ⟨others, -, hok⟩
          · obtain ⟨before, failing, after, rfl, hbefore, hfailing⟩ := ih.mp hrest
            exact ⟨a :: before, failing, after, rfl,
              List.forall_mem_cons.mpr ⟨⟨b, hb⟩, hbefore⟩, hfailing⟩
          · exact nomatch hok
      · rintro ⟨before, failing, after, hsplit, hbefore, hfailing⟩
        cases before with
        | nil =>
            obtain ⟨rfl, rfl⟩ := List.cons.inj hsplit
            exact .inl hfailing
        | cons first before =>
            obtain ⟨rfl, rfl⟩ := List.cons.inj hsplit
            obtain ⟨⟨b, hb⟩, hbefore⟩ := List.forall_mem_cons.mp hbefore
            exact .inr ⟨b, hb, bind_eq_error.mpr
              (.inl (ih.mpr ⟨before, failing, after, rfl, hbefore, hfailing⟩))⟩

theorem exists_mapM_eq_ok (h : ∀ a ∈ l, ∃ b, f a = .ok b) : ∃ bs, l.mapM f = .ok bs := by
  induction l with
  | nil => exact ⟨[], rfl⟩
  | cons a rest ih =>
      obtain ⟨b, hb⟩ := h a List.mem_cons_self
      obtain ⟨others, hothers⟩ := ih fun x hx => h x (List.mem_cons_of_mem _ hx)
      exact ⟨b :: others, mapM_cons_eq_ok.mpr ⟨b, others, hb, hothers, rfl⟩⟩

end

namespace Value

/-- A list of values encodes when the first one does and the others do. -/
theorem encodeList_cons_eq_ok {v : Value} {rest : List Value} {encoded : List AttributeValue} :
    encodeList (v :: rest) = .ok encoded ↔
      ∃ a others, encode v = .ok a ∧ encodeList rest = .ok others ∧ encoded = a :: others := by
  rw [encodeList]
  simp only [bind_eq_ok, Except.ok.injEq, @eq_comm _ _ encoded, exists_and_left]

/-- There is one encoded value for each value. -/
theorem length_of_encodeList {l : List Value} {encoded : List AttributeValue}
    (h : encodeList l = .ok encoded) : encoded.length = l.length := by
  induction l generalizing encoded with
  | nil =>
      obtain rfl : [] = encoded := Except.ok.inj h
      rfl
  | cons v rest ih =>
      obtain ⟨a, others, -, hrest, rfl⟩ := encodeList_cons_eq_ok.mp h
      rw [List.length_cons, List.length_cons, ih hrest]

/-- Two lists that encode do so behind one another. -/
theorem encodeList_append {l r : List Value} {encoded others : List AttributeValue}
    (hl : encodeList l = .ok encoded) (hr : encodeList r = .ok others) :
    encodeList (l ++ r) = .ok (encoded ++ others) := by
  induction l generalizing encoded with
  | nil =>
      obtain rfl : [] = encoded := Except.ok.inj hl
      exact hr
  | cons v rest ih =>
      obtain ⟨a, tail, hv, hrest, rfl⟩ := encodeList_cons_eq_ok.mp hl
      rw [List.cons_append, List.cons_append]
      exact encodeList_cons_eq_ok.mpr ⟨a, tail ++ others, hv, ih hrest, rfl⟩

/-- What two lists behind one another encode to is cut where they meet. -/
theorem encodeList_append_eq_ok {l r : List Value} {encoded : List AttributeValue}
    (h : encodeList (l ++ r) = .ok encoded) :
    ∃ left right, encodeList l = .ok left ∧ encodeList r = .ok right ∧ encoded = left ++ right := by
  induction l generalizing encoded with
  | nil => exact ⟨[], encoded, rfl, h, rfl⟩
  | cons v rest ih =>
      obtain ⟨a, others, hv, hrest, rfl⟩ := encodeList_cons_eq_ok.mp h
      obtain ⟨left, right, hl, hr, rfl⟩ := ih hrest
      exact ⟨a :: left, right, encodeList_cons_eq_ok.mpr ⟨a, left, hv, hl, rfl⟩, hr, rfl⟩

theorem getElem?_of_encodeList {l : List Value} {encoded : List AttributeValue}
    (h : encodeList l = .ok encoded) {index : Nat} {v : Value} (hv : l[index]? = some v) :
    ∃ a, encode v = .ok a ∧ encoded[index]? = some a := by
  induction l generalizing encoded index with
  | nil => exact nomatch hv
  | cons first rest ih =>
      obtain ⟨a, others, hfirst, hrest, rfl⟩ := encodeList_cons_eq_ok.mp h
      cases index with
      | zero =>
          obtain rfl : first = v := Option.some.inj hv
          exact ⟨a, hfirst, rfl⟩
      | succ index => exact ih hrest hv

theorem encodeList_eq_mapM (l : List Value) : encodeList l = l.mapM encode := by
  induction l with
  | nil => rfl
  | cons v rest ih =>
      rw [encodeList, List.mapM_cons, ih]
      rfl

theorem exists_encodeList {l : List Value} (h : ∀ v ∈ l, ∃ a, encode v = .ok a) :
    ∃ encoded, encodeList l = .ok encoded := by
  rw [encodeList_eq_mapM]
  exact exists_mapM_eq_ok h

/-- **Lists that find their encoded values** one after the other do so each for itself. -/
theorem map_of_flatMap {ι : Type} {find : String → Option AttributeValue} {xs : List ι}
    {ps : ι → List String} {vs : ι → List Value} {encoded : List AttributeValue}
    (hlength : ∀ x ∈ xs, (ps x).length = (vs x).length)
    (h : encodeList (xs.flatMap vs) = .ok encoded)
    (hfind : (xs.flatMap ps).map find = encoded.map some) :
    ∀ x ∈ xs, ∃ own, encodeList (vs x) = .ok own ∧ (ps x).map find = own.map some := by
  induction xs generalizing encoded with
  | nil => exact fun x hx => nomatch hx
  | cons x xs ih =>
      rw [List.flatMap_cons] at h hfind
      obtain ⟨own, others, hown, hothers, rfl⟩ := encodeList_append_eq_ok h
      rw [List.map_append, List.map_append] at hfind
      have hsplit : ((ps x).map find).length = (own.map some).length := by
        rw [List.length_map, List.length_map, hlength x List.mem_cons_self, length_of_encodeList hown]
      obtain ⟨hhead, htail⟩ := List.append_inj hfind hsplit
      intro y hy
      rcases List.mem_cons.mp hy with rfl | hy
      · exact ⟨own, hown, hhead⟩
      · exact ih (fun z hz => hlength z (List.mem_cons_of_mem x hz)) hothers htail y hy

end Value

end Depot
