import Depot.Proofs.Cursor
import Depot.Proofs.Encoding

/-!
# Canonical cursors — one text for each key

The attributes of a key may be written in any order: since the members are sorted before they are
put together, the order leaves no trace in the cursor (**`encodeEach_eq`**). Since a cursor can be
read again, no two keys have one cursor (**`encode_inj`**). Both together are **`canonical`**: two
enumerations have one cursor exactly when they enumerate one key. A cursor is not empty and is made
of letters, digits, hyphens and underscores, so that it can stand in an address as it is.
-/

namespace Depot.Cursor

/-- The text of the members of a document. -/
def spell (members : List (String × ScalarKind × String)) : String :=
  String.ofList (Base64.encode .urlSafe (bytesOf (document members).render))

/-- The cursor of attributes that are written one after the other in the given order and sorted
    afterwards. -/
def encodeEach (l : List (String × AttributeValue)) : Except Error String := do
  let members ← scalars l
  .ok (spell (Mapping.ofList members).entries)

/-- A cursor spells the scalars of its key, so that it depends on nothing else. -/
theorem encode_eq_spell (key : Attributes) : encode key = (scalars key.entries).map spell := by
  rw [encode]
  cases scalars key.entries <;> rfl

/-- The kind and the content of an attribute of one of the kinds that a key can have. -/
def content (x : String × AttributeValue) : String × ScalarKind × String :=
  (x.1, (scalar? x.2).getD (.text, ""))

/-- A key whose attributes are all scalars has the content of each of them. -/
theorem scalars_eq_map {l : List (String × AttributeValue)} (h : ∀ x ∈ l, IsScalar x.2) :
    scalars l = .ok (l.map content) := by
  induction l with
  | nil => rfl
  | cons hd rest ih =>
      obtain ⟨name, a⟩ := hd
      obtain ⟨x, hx⟩ := Option.isSome_iff_exists.mp ((isScalar_iff a).mp (h _ List.mem_cons_self))
      have hcontent : content (name, a) = (name, x) := by rw [content, hx, Option.getD_some]
      rw [scalars, hx, ih fun y hy => h y (List.mem_cons_of_mem _ hy), List.map_cons, hcontent]
      rfl

/-- **The order in which attributes are written** leaves no trace. -/
theorem encodeEach_eq {l : List (String × AttributeValue)} {key : Attributes}
    (hl : l.Perm key.entries) (h : ∀ x ∈ l, IsScalar x.2) : encodeEach l = encode key := by
  have hkey : ∀ x ∈ key.entries, IsScalar x.2 := fun x hx => h x (hl.mem_iff.mpr hx)
  -- The members of the key are sorted already, so collecting them changes nothing.
  have hsorted : Ascending (key.entries.map content) := List.pairwise_map.mpr key.ascending
  have hnames : ((l.map content).map (·.1)).Nodup :=
    ((hl.map content).map (·.1)).nodup_iff.mpr (Mapping.nodup_names_of_ascending hsorted)
  have hmembers : Mapping.ofList (l.map content) = ⟨key.entries.map content, hsorted⟩ :=
    (Mapping.ofList_eq_of_perm (hl.map content) hnames).trans (Mapping.ofList_entries ⟨_, hsorted⟩)
  rw [encodeEach, scalars_eq_map h, encode_eq_spell, scalars_eq_map hkey]
  show Except.ok (spell (Mapping.ofList (l.map content)).entries) = _
  rw [hmembers]
  rfl

/-- Different keys of scalars have different cursors. -/
theorem encode_inj {key key' : Attributes} (h : ∀ x ∈ key.entries, IsScalar x.2)
    (heq : encode key = encode key') : key = key' := by
  obtain ⟨cursor, hcursor, -, hdecode⟩ := exists_encode_eq_ok h
  obtain ⟨-, hdecode'⟩ := encode_eq_ok (heq.symm.trans hcursor)
  exact Except.ok.inj (hdecode.symm.trans hdecode')

/-- A character that can stand in an address unescaped. -/
def IsPlain (c : Char) : Prop := c.isAlphanum = true ∨ c = '-' ∨ c = '_'

instance (c : Char) : Decidable (IsPlain c) := inferInstanceAs (Decidable (_ ∨ _))

theorem isPlain_of_mem_encode {bytes : List UInt8} {c : Char}
    (h : c ∈ Base64.encode .urlSafe bytes) : IsPlain c := by
  have hall : Base64.Alphabet.urlSafe.letters.all (fun c => decide (IsPlain c)) = true := by
    decide +kernel
  obtain ⟨numbers, spare, hletters, -⟩ := Base64.spells_encode .urlSafe bytes
  obtain ⟨n, -, hn⟩ := List.mem_map.mp (hletters ▸ List.mem_map_of_mem h)
  exact of_decide_eq_true (List.all_eq_true.mp hall c (List.mem_of_getElem? hn))

/-- A cursor can stand in a URL as it is. -/
theorem isPlain_of_encode {key : Attributes} {cursor : String} (h : encode key = .ok cursor) :
    ∀ c ∈ cursor.toList, IsPlain c := by
  rw [encode_eq_spell, map_eq_ok] at h
  obtain ⟨members, -, rfl⟩ := h
  intro c hc
  rw [spell, String.toList_ofList] at hc
  exact isPlain_of_mem_encode hc

/-- **Two enumerations have one cursor** exactly when they enumerate one key. That cursor is the
    one of the key, it is not empty, and it can stand in an address unescaped. -/
theorem canonical {l r : List (String × AttributeValue)} {key key' : Attributes}
    (hl : l.Perm key.entries) (hr : r.Perm key'.entries) (h : ∀ x ∈ l, IsScalar x.2)
    (h' : ∀ x ∈ r, IsScalar x.2) :
    (∃ cursor, encodeEach l = .ok cursor ∧ encode key = .ok cursor ∧ cursor ≠ "" ∧
      ∀ c ∈ cursor.toList, IsPlain c) ∧
    (encodeEach l = encodeEach r ↔ key = key') := by
  have hkey : ∀ x ∈ key.entries, IsScalar x.2 := fun x hx => h x (hl.mem_iff.mpr hx)
  have hleft := encodeEach_eq hl h
  have hright := encodeEach_eq hr h'
  constructor
  · obtain ⟨cursor, hcursor, hne, -⟩ := exists_encode_eq_ok hkey
    exact ⟨cursor, hleft.trans hcursor, hcursor, hne, isPlain_of_encode hcursor⟩
  · rw [hleft, hright]
    constructor
    · exact encode_inj hkey
    · rintro rfl
      rfl

/-- A key with a text where another key has a number, in an order that is not the one of the names. -/
def unsorted (a : AttributeValue) : List (String × AttributeValue) :=
  [("sort", a), ("part", .binary [0xFF])]

theorem canonical_unsorted :
    (∃ cursor, encodeEach (unsorted (.text "1")) = .ok cursor ∧
      encodeEach (unsorted (.text "1")).reverse = .ok cursor ∧ ∀ c ∈ cursor.toList, IsPlain c) ∧
    encodeEach (unsorted (.text "1")) ≠ encodeEach (unsorted (.number "1")) := by
  have hnames (a : AttributeValue) : ((unsorted a).map (·.1)).Nodup := by simp [unsorted]
  have hperm (a : AttributeValue) : (unsorted a).Perm (Mapping.ofList (unsorted a)).entries :=
    (Mapping.ofList_entries_perm (hnames a)).symm
  have htext : ∀ x ∈ unsorted (.text "1"), IsScalar x.2 := by decide
  have hnumber : ∀ x ∈ unsorted (.number "1"), IsScalar x.2 := by decide
  constructor
  · have hreverse := (List.reverse_perm (unsorted (.text "1"))).trans (hperm _)
    have htext' : ∀ x ∈ (unsorted (.text "1")).reverse, IsScalar x.2 := fun x hx =>
      htext x (List.mem_reverse.mp hx)
    obtain ⟨⟨cursor, hcursor, -, -, hplain⟩, hone⟩ := canonical (hperm _) hreverse htext htext'
    exact ⟨cursor, hcursor, (hone.mpr rfl).symm.trans hcursor, hplain⟩
  · intro heq
    have hkeys := (canonical (hperm _) (hperm _) htext hnumber).2.mp heq
    have hfind := congrArg (Mapping.find? · "sort") hkeys
    simp [unsorted, Mapping.find?_ofList, Mapping.lookup] at hfind

end Depot.Cursor
