import Depot.Proofs.Base64
import Depot.Proofs.Encoding
import Depot.Proofs.Mapping
import Depot.Wire.Reply

/-!
# Attribute values on the wire — what is written is read

A document of an attribute value is read as that value again (**`ofWire?_wire`**), along the recursion
of the writer. This takes values that a table can store, **`AttributeValue.Stored`**: of a known type
all the way down, with the entries of each map in order. Whatever a value is encoded as is of this kind
(`stored_of_encode`), and so is the whole item of a value (**`Attributes.stored_of_item`**). Replies that
list the documents of such items can be read (**`Action.reads_of_fits`** and the lemmas behind it).
-/

namespace Depot

/-! ## Bytes -/

/-- The sign that fills a text up is not the letter of a number. -/
theorem Base64.ne_of_mem_encode {a : Base64.Alphabet} {bytes : List UInt8} {c : Char}
    (h : c ∈ Base64.encode a bytes) : c ≠ '=' := by
  rintro rfl
  obtain ⟨numbers, spare, hletters, -⟩ := Base64.spells_encode a bytes
  obtain ⟨n, -, hn⟩ := List.mem_map.mp (hletters ▸ List.mem_map_of_mem h)
  have hlt : n < 64 := lt_of_getElem?_letters hn
  have hletter : a.letter n = '=' := Option.some.inj ((getElem?_letters a hlt).symm.trans hn)
  have hnumber := number?_letter a hlt
  rw [hletter] at hnumber
  cases a <;> exact nomatch hnumber

/-- The filling is told from the letters, so the bytes come back. -/
theorem Base64.decodePadded_pad (bytes : List UInt8) :
    Base64.decodePadded (Base64.pad (Base64.encode .standard bytes)) = some bytes := by
  have hletters : ∀ c ∈ Base64.encode .standard bytes, decide (c ≠ '=') = true := fun c hc =>
    decide_eq_true (ne_of_mem_encode hc)
  have hbare : (Base64.pad (Base64.encode .standard bytes)).takeWhile (· ≠ '=')
      = Base64.encode .standard bytes := by
    rw [Base64.pad, List.takeWhile_append_of_pos hletters, List.takeWhile_replicate]
    exact List.append_nil _
  rw [Base64.decodePadded]
  simp only [hbare, if_true, decode_encode]

namespace AttributeValue

/-! ## Values that a table can store -/

mutual

/-- A value of a known type whose parts are of known types too, and whose maps are in order. -/
def Stored : AttributeValue → Prop
  | .list elements => StoredList elements
  | .map entries => Ascending entries ∧ StoredEntries entries
  | .unknown => False
  | _ => True

/-- Values that are all stored. -/
def StoredList : List AttributeValue → Prop
  | [] => True
  | a :: rest => a.Stored ∧ StoredList rest

/-- Entries whose values are all stored. -/
def StoredEntries : List (String × AttributeValue) → Prop
  | [] => True
  | (_, a) :: rest => a.Stored ∧ StoredEntries rest

end

/-! ## Reading what is written -/

theorem texts?_map_text (elements : List String) :
    Wire.texts? (elements.map .text) = some elements := by
  induction elements with
  | nil => rfl
  | cons s rest ih => rw [List.map_cons, Wire.texts?, ih, Option.map_some]

theorem contents?_map_pad (elements : List (List UInt8)) :
    Wire.contents? (elements.map fun bytes =>
      String.ofList (Base64.pad (Base64.encode .standard bytes))) = some elements := by
  induction elements with
  | nil => rfl
  | cons bytes rest ih =>
      rw [List.map_cons, Wire.contents?, String.toList_ofList, Base64.decodePadded_pad, ih]
      rfl

theorem contents?_map_wireBytes (elements : List (List UInt8)) :
    (Wire.texts? (elements.map wireBytes)).bind Wire.contents? = some elements := by
  have htexts : elements.map wireBytes = (elements.map fun bytes =>
      String.ofList (Base64.pad (Base64.encode .standard bytes))).map .text := by
    rw [List.map_map]
    rfl
  rw [htexts, texts?_map_text, Option.bind_some, contents?_map_pad]

/-- An object with one member is read by the type of the member. -/
theorem ofWire?_singleton {type : String} {j : Json} (hnull : j.isNull = false)
    (htype : type ≠ typeMark) : ofWire? (.object [(type, j)]) = ofWireVariant? type j := by
  have hkept : (j.isNull || type == typeMark) = false := by
    rw [hnull, Bool.false_or, beq_eq_false_iff_ne]
    exact htype
  rw [ofWire?, ofWireVariants?, if_neg (Bool.eq_false_iff.mp hkept), ofWireVariants?]
  cases ofWireVariant? type j <;> rfl

mutual

/-- **A document of an attribute value** is read as that value. -/
theorem ofWire?_wire {a : AttributeValue} (h : a.Stored) : ofWire? a.wire = some a := by
  cases a with
  | text s => exact ofWire?_singleton rfl (by decide)
  | number digits => exact ofWire?_singleton rfl (by decide)
  | binary bytes =>
      refine (ofWire?_singleton rfl (by decide)).trans ?_
      show (Base64.decodePadded (String.ofList _).toList).map binary = _
      rw [String.toList_ofList, Base64.decodePadded_pad, Option.map_some]
  | boolean b => exact ofWire?_singleton rfl (by decide)
  | null b => exact ofWire?_singleton rfl (by decide)
  | list elements =>
      rw [wire]
      refine (ofWire?_singleton rfl (by decide)).trans ?_
      show (ofWireList? (wireList elements)).map list = _
      rw [ofWireList?_wireList h, Option.map_some]
  | map entries =>
      obtain ⟨hascending, hentries⟩ := h
      rw [wire]
      refine (ofWire?_singleton rfl (by decide)).trans ?_
      show (ofWireEntries? (wireEntries entries)).map (fun l => map (Mapping.ofList l).entries) = _
      rw [ofWireEntries?_wireEntries hentries, Option.map_some,
        Mapping.ofList_entries ⟨entries, hascending⟩]
  | textSet elements =>
      refine (ofWire?_singleton rfl (by decide)).trans ?_
      show (Wire.texts? (elements.map .text)).map textSet = _
      rw [texts?_map_text, Option.map_some]
  | numberSet elements =>
      refine (ofWire?_singleton rfl (by decide)).trans ?_
      show (Wire.texts? (elements.map .text)).map numberSet = _
      rw [texts?_map_text, Option.map_some]
  | binarySet elements =>
      refine (ofWire?_singleton rfl (by decide)).trans ?_
      show ((Wire.texts? (elements.map wireBytes)).bind Wire.contents?).map binarySet = _
      rw [contents?_map_wireBytes, Option.map_some]
  | unknown => exact h.elim

/-- A list of stored values is read back as it was written. -/
theorem ofWireList?_wireList {l : List AttributeValue} (h : StoredList l) :
    ofWireList? (wireList l) = some l := by
  cases l with
  | nil => rfl
  | cons a rest =>
      rw [wireList, ofWireList?, ofWire?_wire h.1, ofWireList?_wireList h.2]
      rfl

/-- The entries of a map of stored values are read back as they were written. -/
theorem ofWireEntries?_wireEntries {l : List (String × AttributeValue)} (h : StoredEntries l) :
    ofWireEntries? (wireEntries l) = some l := by
  cases l with
  | nil => rfl
  | cons x rest =>
      rw [wireEntries, ofWireEntries?, ofWire?_wire h.1, ofWireEntries?_wireEntries h.2]
      rfl

end

/-- Entries are stored when each of their values is. -/
theorem storedEntries_iff {l : List (String × AttributeValue)} :
    StoredEntries l ↔ ∀ x ∈ l, x.2.Stored := by
  induction l with
  | nil => exact ⟨fun _ _ hx => (nomatch hx), fun _ => trivial⟩
  | cons x rest ih => rw [StoredEntries, List.forall_mem_cons, ih]

end AttributeValue

/-! ## What is encoded -/

theorem Mapping.mem_of_lookup {α : Type} {name : String} {value : α} {l : List (String × α)}
    (h : lookup name l = some value) : (name, value) ∈ l := by
  induction l with
  | nil => exact nomatch h
  | cons x rest ih =>
      rw [lookup] at h
      split at h
      · rename_i hname
        obtain rfl := Option.some.inj h
        exact hname ▸ List.mem_cons_self
      · exact List.mem_cons_of_mem _ (ih h)

theorem Mapping.mem_of_mem_ofList {α : Type} {l : List (String × α)} {x : String × α}
    (h : x ∈ (ofList l).entries) : x ∈ l := by
  have hfind : (ofList l).find? x.1 = some x.2 := find?_eq_some_iff.mpr h
  rw [find?_ofList] at hfind
  exact List.mem_reverse.mp (mem_of_lookup hfind)

namespace Value

open AttributeValue

theorem stored_of_setOf {kind : ScalarKind} {encoded a : AttributeValue}
    (h : setOf kind encoded = .ok a) : a.Stored := by
  unfold setOf at h
  split at h
  · split at h <;>
    · obtain ⟨elements, -, rfl⟩ := map_eq_ok.mp h
      trivial
  · exact nomatch h

mutual

/-- **Whatever is encoded can be stored.** -/
theorem stored_of_encode {v : Value} {a : AttributeValue} (h : v.encode = .ok a) : a.Stored := by
  cases v with
  | null => exact Except.ok.inj h ▸ trivial
  | boolean b => exact Except.ok.inj h ▸ trivial
  | integer n => exact Except.ok.inj h ▸ trivial
  | float x => exact Except.ok.inj h ▸ trivial
  | text s => exact Except.ok.inj h ▸ trivial
  | bytes content => exact Except.ok.inj h ▸ trivial
  | list elements =>
      rw [encode, bind_eq_ok] at h
      obtain ⟨encoded, hencoded, h⟩ := h
      exact Except.ok.inj h ▸ storedList_of_encodeList hencoded
  | map entries =>
      rw [encode, bind_eq_ok] at h
      obtain ⟨encoded, hencoded, h⟩ := h
      have hentries := storedEntries_iff.mp (storedEntries_of_encodeEntries hencoded)
      obtain rfl := Except.ok.inj h
      exact ⟨(Mapping.ofList encoded).ascending,
        storedEntries_iff.mpr fun x hx => hentries x (Mapping.mem_of_mem_ofList hx)⟩
  | set kind elements =>
      rw [encode, bind_eq_ok] at h
      obtain ⟨encoded, -, h⟩ := h
      exact stored_of_setOf h
  | failing reason => exact nomatch h

/-- A list of encoded values is stored. -/
theorem storedList_of_encodeList {l : List Value} {encoded : List AttributeValue}
    (h : encodeList l = .ok encoded) : StoredList encoded := by
  cases l with
  | nil => exact Except.ok.inj h ▸ trivial
  | cons v rest =>
      obtain ⟨a, others, ha, hothers, rfl⟩ := encodeList_cons_eq_ok.mp h
      exact ⟨stored_of_encode ha, storedList_of_encodeList hothers⟩

/-- The entries of an encoded map are stored. -/
theorem storedEntries_of_encodeEntries {l : List (Value × Value)}
    {encoded : List (String × AttributeValue)} (h : encodeEntries l = .ok encoded) :
    StoredEntries encoded := by
  cases l with
  | nil => exact Except.ok.inj h ▸ trivial
  | cons x rest =>
      obtain ⟨k, v⟩ := x
      rw [encodeEntries] at h
      simp only [bind_eq_ok] at h
      obtain ⟨name, -, a, ha, others, hothers, h⟩ := h
      exact Except.ok.inj h ▸ ⟨stored_of_encode ha, storedEntries_of_encodeEntries hothers⟩

end

end Value

/-! ## Items -/

namespace Attributes

/-- Attributes of values that a table can store. -/
def Stored (attributes : Attributes) : Prop := AttributeValue.StoredEntries attributes.entries

/-- **The document of an item** is read as that item. -/
theorem ofWire?_wire {attributes : Attributes} (h : attributes.Stored) :
    Attributes.ofWire? attributes.wire = some attributes := by
  rw [wire, Attributes.ofWire?, AttributeValue.ofWireEntries?_wireEntries h, Option.map_some,
    Mapping.ofList_entries]

/-- **An item is stored**, whatever value it was made of. -/
theorem stored_of_item {v : Value} {attributes : Attributes} (h : v.item = .ok attributes) :
    attributes.Stored := by
  unfold Value.item at h
  split at h
  · exact nomatch h
  · rename_i entries hencode
    obtain ⟨hascending, hentries⟩ := Value.stored_of_encode hencode
    obtain rfl := Except.ok.inj h
    rwa [Stored, Mapping.ofList_entries ⟨entries, hascending⟩]
  · exact nomatch h

/-- Stored items are read back from their documents, in order, and none is left out. -/
theorem filterMap_ofWire? {items : List Attributes} (h : ∀ item ∈ items, item.Stored) :
    (items.map Attributes.wire).filterMap Attributes.ofWire? = items := by
  induction items with
  | nil => rfl
  | cons item rest ih =>
      obtain ⟨hitem, hrest⟩ := List.forall_mem_cons.mp h
      rw [List.map_cons, List.filterMap_cons_some (Attributes.ofWire?_wire hitem), ih hrest]

end Attributes

/-! ## Documents that can be read -/

/-- The document of an answer to an action is read as a reply. -/
def Action.Reads (a : Action) (body : Json) : Prop := Response.ofWire a body = .reply (.ofWire body)

/-- The documents of stored values fit the shape of attributes. -/
theorem Shape.fitsValues_wireEntries {entries : List (String × AttributeValue)}
    (h : AttributeValue.StoredEntries entries) :
    fitsValues .attribute (AttributeValue.wireEntries entries) = true := by
  induction entries with
  | nil => rfl
  | cons x rest ih =>
      have hx : fits .attribute x.2.wire = true := by
        rw [fits, AttributeValue.ofWire?_wire h.1]
        rfl
      rw [AttributeValue.wireEntries, fitsValues, hx, ih h.2]
      rfl

theorem Shape.fits_wire {item : Attributes} (h : item.Stored) :
    attributes.fits item.wire = true :=
  fitsValues_wireEntries h

theorem Shape.fitsAll_wire {items : List Attributes} (h : ∀ item ∈ items, item.Stored) :
    fitsAll attributes (items.map Attributes.wire) = true := by
  induction items with
  | nil => rfl
  | cons item rest ih =>
      obtain ⟨hitem, hrest⟩ := List.forall_mem_cons.mp h
      rw [List.map_cons, fitsAll, fits_wire hitem, ih hrest]
      rfl

/-- A body that fits the shape of its action is read. -/
theorem Action.reads_of_fits {a : Action} {shape : Shape} {body : Json}
    (hshape : a.replyShape = some shape) (h : shape.fits body = true) : a.Reads body := by
  rw [Reads, Response.ofWire, hshape, if_pos]
  exact h

theorem Action.reads_getItem {item : Attributes} (h : item.Stored) :
    getItem.Reads (.object [("Item", item.wire)]) := by
  refine reads_of_fits rfl ?_
  show ((item.wire.isNull || Shape.attributes.fits item.wire) && true) = true
  rw [Shape.fits_wire h, Bool.or_true, Bool.and_true]

theorem Action.reads_batchGetItem {items : List Attributes} (h : ∀ item ∈ items, item.Stored)
    (tableName : String) : batchGetItem.Reads
      (.object [("Responses", .object [(tableName, .array (items.map Attributes.wire))])]) := by
  refine reads_of_fits rfl ?_
  show ((Shape.fitsAll Shape.attributes (items.map Attributes.wire) && true) && true) = true
  rw [Shape.fitsAll_wire h, Bool.and_true, Bool.and_true]

theorem Action.reads_query {items : List Attributes} (h : ∀ item ∈ items, item.Stored) :
    query.Reads (.object [("Items", .array (items.map Attributes.wire))]) := by
  refine reads_of_fits rfl ?_
  show (Shape.fitsAll Shape.attributes (items.map Attributes.wire) && true) = true
  rw [Shape.fitsAll_wire h, Bool.and_true]

end Depot
