import Depot.Cursor
import Depot.Proofs.Base64
import Depot.Proofs.Json.Token
import Depot.Proofs.Mapping

/-!
# Cursors — decoding undoes encoding

A cursor is written in three layers: kinds and contents of the attributes, their JSON document, and
base64 over the bytes of its text. Each layer is read back on its own: the contents by
**`scalars_eq_ok`**, the document by **`read?_document`**, and the bytes of a text by
**`textOf?_bytesOf`**.

Since the members of the document are sorted like the entries of the key, nothing is lost when they
are collected into a mapping again, and so **`round_trip`** holds of every key that a table can
have. Of a key with one attribute of another kind the error names that attribute.
-/

namespace Depot.Cursor

/-- Whether a value is of one of the kinds that a key can have. -/
def IsScalar : AttributeValue → Prop
  | .text _ => True
  | .number _ => True
  | .binary _ => True
  | _ => False

/-! ## The bytes of a text -/

/-- The bytes of a text are read as that text. -/
theorem textOf?_bytesOf (s : String) : textOf? (bytesOf s) = some s := by
  rw [textOf?, bytesOf, Array.toArray_toList]
  show String.fromUTF8? s.toByteArray = some s
  rw [String.fromUTF8?, dif_pos s.isValidUTF8]
  rfl

/-! ## The document -/

/-- The tokens of a member of a document. -/
def memberTokens (x : String × ScalarKind × String) : List Json.Token :=
  [.text x.1, .colon, .opening, .text x.2.1.letter, .colon, .text x.2.2, .closing]

/-- The tokens of the members behind the first one. -/
def moreTokens : List (String × ScalarKind × String) → List Json.Token
  | [] => [.closing]
  | x :: rest => .comma :: (memberTokens x ++ moreTokens rest)

/-- The tokens of a document. -/
def documentTokens : List (String × ScalarKind × String) → List Json.Token
  | [] => [.opening, .closing]
  | x :: rest => .opening :: (memberTokens x ++ moreTokens rest)

/-- **A member is read as its tokens.** -/
theorem scanFrom_member (x : String × ScalarKind × String) (rest : List Char) :
    Json.Token.scanFrom none (Json.Literal.quote x.1 ++ ':' ::
        (Json.chars (.object [(x.2.1.letter, .text x.2.2)]) ++ rest))
      = (Json.Token.scanFrom none rest).map (memberTokens x ++ ·) := by
  have hobject : Json.chars (.object [(x.2.1.letter, .text x.2.2)]) ++ rest
      = '{' :: (Json.Literal.quote x.2.1.letter ++ ':' ::
        (Json.Literal.quote x.2.2 ++ '}' :: rest)) := by
    simp [Json.chars, Json.memberChars]
  rw [hobject, Json.Token.scanFrom_quote, Json.Token.scanFrom_colon, Json.Token.scanFrom_opening,
    Json.Token.scanFrom_quote, Json.Token.scanFrom_colon, Json.Token.scanFrom_quote,
    Json.Token.scanFrom_closing]
  cases Json.Token.scanFrom none rest <;> rfl

theorem scanFrom_members (xs : List (String × ScalarKind × String)) :
    Json.Token.scanFrom none (Json.memberChars (xs.map fun (name, kind, content) =>
        (name, .object [(kind.letter, .text content)])))
      = some (moreTokens xs) := by
  induction xs with
  | nil => exact Json.Token.scanFrom_closing []
  | cons x rest ih =>
      rw [List.map_cons, Json.memberChars, Json.Token.scanFrom_comma]
      -- As printed, the member stands in front of the later ones.
      show ((Json.Token.scanFrom none (Json.Literal.quote x.1 ++ ':' :: (_ ++ _))).map _) = _
      rw [scanFrom_member x, ih]
      rfl

/-- **A document is read as its tokens.** -/
theorem scan_document (xs : List (String × ScalarKind × String)) :
    Json.Token.scan (document xs).chars = some (documentTokens xs) := by
  cases xs with
  | nil =>
      rw [Json.Token.scan, document, List.map_nil, Json.chars, Json.Token.scanFrom_opening,
        Json.Token.scanFrom_closing]
      rfl
  | cons x rest =>
      rw [Json.Token.scan, document, List.map_cons, Json.chars, Json.Token.scanFrom_opening]
      show ((Json.Token.scanFrom none (Json.Literal.quote x.1 ++ ':' :: (_ ++ _))).map _) = _
      rw [scanFrom_member x, scanFrom_members]
      rfl

/-- The letter of a scalar kind is read as that kind. -/
theorem ofLetter?_letter (kind : ScalarKind) : ScalarKind.ofLetter? kind.letter = some kind := by
  cases kind <;> rfl

/-- Tokens of members are read as the members. -/
theorem readMembers_tokens (x : String × ScalarKind × String)
    (rest : List (String × ScalarKind × String)) :
    readMembers (memberTokens x ++ moreTokens rest) = some (x :: rest) := by
  obtain ⟨name, kind, content⟩ := x
  have hkind := ofLetter?_letter kind
  -- By induction on the later members; each one is read in one step of seven tokens.
  induction rest generalizing name kind content with
  | nil =>
      rw [memberTokens, moreTokens, readMembers.eq_def]
      simp only [List.cons_append, List.nil_append, hkind]
  | cons y rest ih =>
      rw [memberTokens, moreTokens, readMembers.eq_def]
      simp only [List.cons_append, List.nil_append, hkind]
      rw [ih y.1 y.2.1 y.2.2 (ofLetter?_letter y.2.1)]
      rfl

/-- The tokens of a cursor are read as its members, however many they are. -/
theorem readObject_tokens (xs : List (String × ScalarKind × String)) :
    readObject (documentTokens xs) = some xs := by
  cases xs with
  | nil => rfl
  | cons x rest => exact readMembers_tokens x rest

/-- **The text of a document** is read as its members. -/
theorem read?_document (xs : List (String × ScalarKind × String)) :
    read? (document xs).render = some xs := by
  rw [read?, Json.render, String.toList_ofList, scan_document]
  exact readObject_tokens xs

/-! ## The attributes -/

/-- A value is of a kind that a key can have when it has a kind and a content. -/
theorem isScalar_iff (a : AttributeValue) : IsScalar a ↔ (scalar? a).isSome = true := by
  cases a <;> simp [IsScalar, scalar?]

instance (a : AttributeValue) : Decidable (IsScalar a) := decidable_of_iff _ (isScalar_iff a).symm

/-- The value of a kind and a content is the one that they were written for. -/
theorem value?_of_scalar? {a : AttributeValue} {x : ScalarKind × String} (h : scalar? a = some x) :
    value? x = some a := by
  cases a with
  | text s =>
      obtain rfl := Option.some.inj h
      rfl
  | number digits =>
      obtain rfl := Option.some.inj h
      rfl
  | binary bytes =>
      obtain rfl := Option.some.inj h
      rw [value?, String.toList_ofList, Base64.decode_encode]
      rfl
  | _ => exact nomatch h

/-- **Attributes of such kinds** have contents under their names, which are read as them. -/
theorem scalars_eq_ok {l : List (String × AttributeValue)} (h : ∀ x ∈ l, IsScalar x.2) :
    ∃ entries, scalars l = .ok entries ∧ entries.map (·.1) = l.map (·.1) ∧
      values? entries = some l := by
  induction l with
  | nil => exact ⟨[], rfl, rfl, rfl⟩
  | cons hd rest ih =>
      obtain ⟨name, a⟩ := hd
      obtain ⟨entries, hentries, hnames, hvalues⟩ := ih fun x hx => h x (List.mem_cons_of_mem _ hx)
      have hhead := (isScalar_iff a).mp (h (name, a) List.mem_cons_self)
      obtain ⟨x, hx⟩ := Option.isSome_iff_exists.mp hhead
      refine ⟨(name, x) :: entries, ?_, ?_, ?_⟩
      · rw [scalars, hx, hentries]
        rfl
      · rw [List.map_cons, List.map_cons, hnames]
      · rw [values?, value?_of_scalar? hx, hvalues]
        rfl

/-- One of the attributes of another kind is named by the error. -/
theorem exists_scalars_eq_error {l : List (String × AttributeValue)}
    (h : ∃ x ∈ l, ¬ IsScalar x.2) :
    ∃ x ∈ l, ¬ IsScalar x.2 ∧ scalars l = .error (.unsupportedCursorValue x.1) := by
  induction l with
  | nil =>
      obtain ⟨x, hx, -⟩ := h
      exact nomatch hx
  | cons hd rest ih =>
      obtain ⟨name, a⟩ := hd
      cases ha : scalar? a with
      | none =>
          have hnot : ¬ IsScalar a := by
            rw [isScalar_iff, ha]
            exact Bool.false_ne_true
          exact ⟨(name, a), List.mem_cons_self, hnot, by rw [scalars, ha]⟩
      | some content =>
          have hhead : IsScalar a := by
            rw [isScalar_iff, ha]
            rfl
          have hrest : ∃ x ∈ rest, ¬ IsScalar x.2 := by
            obtain ⟨x, hx, hnot⟩ := h
            rcases List.mem_cons.mp hx with rfl | hx
            · exact absurd hhead hnot
            · exact ⟨x, hx, hnot⟩
          obtain ⟨x, hx, hnot, herror⟩ := ih hrest
          refine ⟨x, List.mem_cons_of_mem _ hx, hnot, ?_⟩
          rw [scalars, ha, herror]
          rfl

/-- **The only attribute of another kind** is named by the error. -/
theorem scalars_eq_error {l : List (String × AttributeValue)} {name : String} {a : AttributeValue}
    (hmem : (name, a) ∈ l) (ha : ¬ IsScalar a) (hothers : ∀ x ∈ l, x.1 ≠ name → IsScalar x.2) :
    scalars l = .error (.unsupportedCursorValue name) := by
  obtain ⟨x, hx, hnot, herror⟩ := exists_scalars_eq_error ⟨(name, a), hmem, ha⟩
  have hname : x.1 = name := Decidable.byContradiction fun hne => hnot (hothers x hx hne)
  rw [herror, hname]

/-! ## Cursors -/

/-- A printed document is a cursor whose key has the attributes that its members stand for. -/
theorem decode_of_scalars {key : Attributes} {entries : List (String × ScalarKind × String)}
    (hnames : entries.map (·.1) = key.entries.map (·.1))
    (hvalues : values? entries = some key.entries) :
    decode (String.ofList (Base64.encode .urlSafe (bytesOf (document entries).render)))
      = .ok key := by
  -- The members keep the order of the entries, so collecting them changes nothing.
  have hascending : Ascending entries := by
    have hkey := List.pairwise_map.mpr key.ascending
    rw [← hnames] at hkey
    exact List.pairwise_map.mp hkey
  have hmembers : (Mapping.ofList entries).entries = entries :=
    congrArg Mapping.entries (Mapping.ofList_entries ⟨entries, hascending⟩)
  rw [decode, String.toList_ofList, Base64.decode_encode]
  simp only [textOf?_bytesOf, Option.bind_some, read?_document, hmembers, hvalues,
    Mapping.ofList_entries]

/-- Whatever is wrong with a cursor, the error says that it is none. -/
theorem decode_eq_error {cursor : String} {e : Error} (h : decode cursor = .error e) :
    ∃ layer, e = .invalidCursor layer := by
  unfold decode at h
  split at h
  · exact ⟨_, (Except.error.inj h).symm⟩
  · split at h
    · exact ⟨_, (Except.error.inj h).symm⟩
    · split at h
      · exact ⟨_, (Except.error.inj h).symm⟩
      · exact nomatch h

/-- A key with a foreign attribute fails with the name of such an attribute. -/
theorem exists_encode_eq_error {key : Attributes} (h : ∃ x ∈ key.entries, ¬ IsScalar x.2) :
    ∃ x ∈ key.entries, ¬ IsScalar x.2 ∧ encode key = .error (.unsupportedCursorValue x.1) := by
  obtain ⟨x, hx, hnot, herror⟩ := exists_scalars_eq_error h
  refine ⟨x, hx, hnot, ?_⟩
  rw [encode, herror]
  rfl

/-- **The cursor of a key** is read as the key, and so it is not the empty text. -/
theorem exists_encode_eq_ok {key : Attributes} (h : ∀ x ∈ key.entries, IsScalar x.2) :
    ∃ cursor, encode key = .ok cursor ∧ cursor ≠ "" ∧ decode cursor = .ok key := by
  obtain ⟨entries, hentries, hnames, hvalues⟩ := scalars_eq_ok h
  have hdecode := decode_of_scalars hnames hvalues
  refine ⟨_, ?_, ?_, hdecode⟩
  · rw [encode, hentries]
    rfl
  · intro hempty
    rw [hempty] at hdecode
    cases hdecode

/-- Whatever a key is encoded to is not empty, and decodes to that key. -/
theorem encode_eq_ok {key : Attributes} {cursor : String} (h : encode key = .ok cursor) :
    cursor ≠ "" ∧ decode cursor = .ok key := by
  by_cases hbad : ∃ x ∈ key.entries, ¬ IsScalar x.2
  · obtain ⟨x, -, -, herror⟩ := exists_encode_eq_error hbad
    exact nomatch herror.symm.trans h
  · have hscalar : ∀ x ∈ key.entries, IsScalar x.2 := fun x hx =>
      Decidable.byContradiction fun hnot => hbad ⟨x, hx, hnot⟩
    obtain ⟨given, hgiven, hne, hdecode⟩ := exists_encode_eq_ok hscalar
    obtain rfl := Except.ok.inj (hgiven.symm.trans h)
    exact ⟨hne, hdecode⟩

/-- **Decoding undoes encoding.** A key of texts, numbers and bytes has a cursor, which is read as
    that key. Of a key with one attribute of another kind the error names that attribute. -/
theorem round_trip (key : Attributes) :
    ((∀ x ∈ key.entries, IsScalar x.2) → ∃ cursor, encode key = .ok cursor ∧
      decode cursor = .ok key) ∧
    ∀ name a, (name, a) ∈ key.entries → ¬ IsScalar a →
      (∀ x ∈ key.entries, x.1 ≠ name → IsScalar x.2) →
      encode key = .error (.unsupportedCursorValue name) := by
  constructor
  · intro h
    obtain ⟨entries, hentries, hnames, hvalues⟩ := scalars_eq_ok h
    refine ⟨_, ?_, decode_of_scalars hnames hvalues⟩
    rw [encode, hentries]
    rfl
  · intro name a hmem ha hothers
    rw [encode, scalars_eq_error hmem ha hothers]
    rfl

/-- Attributes whose names and contents have to be escaped. -/
def escapedKey : Attributes :=
  .ofList [("", .number "1.50"), ("say \"\\\"", .text "\n\x00ä"), ("raw", .binary [0xFF, 0x00])]

theorem round_trip_escapedKey :
    (∃ cursor, encode escapedKey = .ok cursor ∧ decode cursor = .ok escapedKey) ∧
      encode (escapedKey.insert "flag" (.boolean true))
        = .error (.unsupportedCursorValue "flag") := by
  refine ⟨(round_trip escapedKey).1 (by decide), ?_⟩
  refine (round_trip (escapedKey.insert "flag" (.boolean true))).2 "flag" (.boolean true) ?_ ?_ ?_
  · rw [← Mapping.find?_eq_some_iff, Mapping.find?_insert, if_pos rfl]
  · decide
  · decide

end Depot.Cursor
