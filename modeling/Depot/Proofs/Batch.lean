import Mathlib.Data.List.Forall2
import Depot.Proofs.Encoding
import Depot.Proofs.Session
import Depot.Proofs.Wire
import Depot.Store
import Depot.Wire.Request

/-!
# Batches — no entry is lost and none is invented

A batch of items is one request with a put for each of them, and a batch of keys is one request with
all of them. Of a reply only what is listed under the same table counts: of the writes there the puts
(**`PutItems`**), of the items there all, as long as each of them decodes.

What a table leaves undone of a batch splits it in order (**`Splits`**) into what is written and what
is given back. That goes by the wire: a document that was sent and is listed in the reply is read as
the item it was written for. The main result, **`nothing_lost`**, says so of both batches.
-/

namespace Depot

/-! ## Traversals -/

namespace Value

/-- The items of a write are encoded in order, and the first one that fails stops the others. -/
theorem encodeItems_eq_mapM (l : List Value) :
    encodeItems l = l.mapM fun v => v.item.mapError .value := by
  induction l with
  | nil => rfl
  | cons v rest ih =>
      rw [encodeItems, List.mapM_cons, ih]
      rfl

/-- Items that are all maps are encoded, each on its own. -/
theorem exists_encodeItems {l : List Value} (h : ∀ v ∈ l, ∃ a, v.item = .ok a) :
    ∃ encoded, encodeItems l = .ok encoded ∧
      List.Forall₂ (fun v a => v.item = .ok a) l encoded := by
  obtain ⟨encoded, hencoded⟩ := exists_mapM_eq_ok fun v hv => by
    obtain ⟨a, ha⟩ := h v hv
    exact ⟨a, mapError_eq_ok (f := Error.value).mpr ha⟩
  refine ⟨encoded, (encodeItems_eq_mapM l).trans hencoded, ?_⟩
  exact (mapM_eq_ok_iff.mp hencoded).imp fun v a ha => mapError_eq_ok.mp ha

end Value

namespace Keys

theorem encodeAll_eq_mapM (l : List Keys) : encodeAll l = l.mapM Keys.encode := by
  induction l with
  | nil => rfl
  | cons k rest ih =>
      rw [encodeAll, List.mapM_cons, ih]
      rfl

end Keys

namespace Attributes

/-- The items of a reply are decoded in order, and the first one that fails stops the others. -/
theorem decodeAll_eq_mapM (l : List Attributes) : decodeAll l = l.mapM Attributes.decode := by
  induction l with
  | nil => rfl
  | cons attributes rest ih =>
      rw [decodeAll, List.mapM_cons, ih]
      rfl

/-- A list of items decodes exactly when each of them does, to the document in its place. -/
theorem decodeAll_eq_ok_iff {l : List Attributes} {js : List Json} : decodeAll l = .ok js ↔
    List.Forall₂ (fun item j => Attributes.decode item = .ok j) l js := by
  rw [decodeAll_eq_mapM, mapM_eq_ok_iff]

end Attributes

/-! ## What is left undone -/

/-- The items that writes put, in order, whatever stands between them. -/
inductive PutItems : List UnprocessedWrite → List Attributes → Prop where
  | nil : PutItems [] []
  | put {item : Attributes} {writes : List UnprocessedWrite} {items : List Attributes} :
      PutItems writes items → PutItems (.put item :: writes) (item :: items)
  | delete {key : Attributes} {writes : List UnprocessedWrite} {items : List Attributes} :
      PutItems writes items → PutItems (.delete key :: writes) items
  | blank {writes : List UnprocessedWrite} {items : List Attributes} :
      PutItems writes items → PutItems (.blank :: writes) items

/-- The items that are returned are those of the puts among the unprocessed writes, in order. -/
theorem putItems_filterMap (writes : List UnprocessedWrite) :
    PutItems writes (writes.filterMap UnprocessedWrite.item?) := by
  induction writes with
  | nil => exact .nil
  | cons w rest ih =>
      cases w with
      | put item => exact .put ih
      | delete key => exact .delete ih
      | blank => exact .blank ih

/-- A list is split into two: each element goes into one of them, and both keep the order. -/
inductive Splits {α : Type} : List α → List α → List α → Prop where
  | nil : Splits [] [] []
  | left {a : α} {whole left right : List α} :
      Splits whole left right → Splits (a :: whole) (a :: left) right
  | right {a : α} {whole left right : List α} :
      Splits whole left right → Splits (a :: whole) left (a :: right)

/-- Whatever sub-list of a list is left, the list splits into it and the others. -/
theorem exists_splits_of_sublist {α : Type} {whole right : List α} (h : right.Sublist whole) :
    ∃ left, Splits whole left right := by
  induction h with
  | slnil => exact ⟨[], .nil⟩
  | cons a _ ih =>
      obtain ⟨left, hsplits⟩ := ih
      exact ⟨a :: left, .left hsplits⟩
  | cons_cons a _ ih =>
      obtain ⟨left, hsplits⟩ := ih
      exact ⟨left, .right hsplits⟩

/-- Together the parts of a split are as long as the list. -/
theorem Splits.length {α : Type} {whole left right : List α} (h : Splits whole left right) :
    whole.length = left.length + right.length := by
  induction h with
  | nil => rfl
  | left _ ih => rw [List.length_cons, List.length_cons, ih, Nat.add_right_comm]
  | right _ ih => rw [List.length_cons, List.length_cons, ih, Nat.add_assoc]

/-- Nothing goes to the right exactly when everything goes to the left. -/
theorem Splits.right_eq_nil_iff {α : Type} {whole left right : List α}
    (h : Splits whole left right) : right = [] ↔ left = whole := by
  constructor
  · intro hright
    induction h with
    | nil => rfl
    | left _ ih => rw [ih hright]
    | right _ _ => exact nomatch hright
  · rintro rfl
    exact List.length_eq_zero_iff.mp (Nat.left_eq_add.mp h.length)

/-! ## Documents -/

namespace Wire

/-- The documents that a reply lists for a table in a field of its own. -/
def listed (field tableName : String) (j : Json) : List Json :=
  elements ((Mapping.ofList (members (j.member? field))).find? tableName)

end Wire

/-- What is read for a table is read off the documents that are listed for it. -/
theorem Wire.find?_perTable {β : Type} {f : List Json → List β} (hnil : f [] = [])
    (field tableName : String) (j : Json) :
    ((perTable (fun t => f (elements (some t))) (j.member? field)).find? tableName).getD []
      = f (listed field tableName j) := by
  have hfind := Mapping.find?_ofList_map (fun t => f (elements (some t)))
    (members (j.member? field)) tableName
  rw [listed]
  refine (congrArg (·.getD []) hfind).trans ?_
  cases (Mapping.ofList (members (j.member? field))).find? tableName with
  | none => exact hnil.symm
  | some t => rfl

/-- The writes that a reply lists are read one by one. -/
theorem unprocessedItems_ofWire (tableName : String) (j : Json) :
    ((Reply.ofWire j).unprocessedItems.find? tableName).getD []
      = (Wire.listed "UnprocessedItems" tableName j).map Wire.unprocessedWrite :=
  Wire.find?_perTable (f := List.map Wire.unprocessedWrite) rfl _ tableName j

/-- So are the items that it lists. -/
theorem responses_ofWire (tableName : String) (j : Json) :
    ((Reply.ofWire j).responses.find? tableName).getD []
      = (Wire.listed "Responses" tableName j).filterMap Attributes.ofWire? :=
  Wire.find?_perTable (f := List.filterMap Attributes.ofWire?) rfl _ tableName j

/-- **The document of a put** is read as that put. -/
theorem unprocessedWrite_putEntry {item : Attributes} (h : item.Stored) :
    Wire.unprocessedWrite (Wire.putEntry item) = .put item := by
  have hitem : Wire.attributesField? "Item" (.object [("Item", item.wire)]) = some item :=
    Attributes.ofWire?_wire h
  show UnprocessedWrite.put ((Wire.attributesField? "Item" _).getD .empty) = _
  rw [hitem, Option.getD_some]

/-- Stored items come back as they are from the entries in which a reply lists them. -/
theorem filterMap_unprocessedWrite {items : List Attributes} (h : ∀ item ∈ items, item.Stored) :
    ((items.map Wire.putEntry).map Wire.unprocessedWrite).filterMap UnprocessedWrite.item?
      = items := by
  induction items with
  | nil => rfl
  | cons item rest ih =>
      obtain ⟨hitem, hrest⟩ := List.forall_mem_cons.mp h
      rw [List.map_cons, List.map_cons, unprocessedWrite_putEntry hitem]
      exact congrArg (item :: ·) (ih hrest)

/-! ## Writing a batch -/

/-- What writing encoded items into a table does in a session. -/
structure WritesBatch (tableName : String) (encoded : List Attributes) (s : Session)
    (done : Except Error (List Attributes) × Session) : Prop where
  /-- One request is sent. -/
  sent : done.2 = s.advance [.batchWriteItem tableName encoded]
  /-- It names no other table, and it has one put for each item, in order. -/
  body : (Request.batchWriteItem tableName encoded).body = .object [("RequestItems",
    .object [(tableName, .array (encoded.map fun item =>
      .object [("PutRequest", .object [("Item", item.wire)])]))])]
  /-- Exactly the items of the puts that the reply lists for the table are given back. -/
  replied : ∀ reply, Session.answerTo s.script (.batchWriteItem tableName encoded) = .reply reply →
    ∃ left, done.1 = .ok left ∧
      PutItems ((reply.unprocessedItems.find? tableName).getD []) left ∧
      (BatchPut.isComplete left = true ↔ left = [])
  /-- When some of the entries that were sent are listed, those are given back and the others are
      written. -/
  split : ∀ j, Session.answerTo s.script (.batchWriteItem tableName encoded) = .reply (.ofWire j) →
    (Wire.listed "UnprocessedItems" tableName j).Sublist (encoded.map Wire.putEntry) →
    ∃ written left, done.1 = .ok left ∧ Splits encoded written left ∧
      Wire.listed "UnprocessedItems" tableName j = left.map Wire.putEntry ∧
      (BatchPut.isComplete left = true ↔ written = encoded)
  /-- Any other response fails the batch as a whole. -/
  refused : ∀ fault, (Session.answerTo s.script (.batchWriteItem tableName encoded)).outcome
    .batchWriteItem = .error fault → done.1 = .error (.store fault)

/-- A batch of puts is one request, and its result is read off the reply alone. -/
theorem Store.batchWrite_eq_asking (tableName : String) {items : List Value} (h : items ≠ []) :
    Store.batchWrite tableName items = Run.asking (BatchPut.request ⟨tableName, items⟩)
      fun reply => .ok (BatchPut.unprocessed ⟨tableName, items⟩ reply) := by
  have hempty : ¬ items.isEmpty = true := mt List.isEmpty_iff.mp h
  rw [Store.batchWrite, if_neg hempty]
  exact (bind_assoc ..).symm

/-- A batch whose items encode is sent as one request, and whatever its reply lists as unprocessed
    is returned. -/
theorem writesBatch_exec (tableName : String) {items : List Value} {encoded : List Attributes}
    (hne : items ≠ []) (hencoded : Value.encodeItems items = .ok encoded)
    (hitems : List.Forall₂ (fun v a => v.item = .ok a) items encoded) (s : Session) :
    WritesBatch tableName encoded s ((Store.batchWrite tableName items).exec s) := by
  have hrequest : BatchPut.request ⟨tableName, items⟩ = .ok (.batchWriteItem tableName encoded) := by
    rw [BatchPut.request, hencoded]
    rfl
  have hexec : (Store.batchWrite tableName items).exec s
      = (((Session.answerTo s.script (.batchWriteItem tableName encoded)).outcome
          .batchWriteItem).mapError Error.store >>= fun reply =>
            .ok (BatchPut.unprocessed ⟨tableName, items⟩ reply),
        s.advance [.batchWriteItem tableName encoded]) := by
    rw [Store.batchWrite_eq_asking tableName hne, Run.exec_asking, hrequest]
    rfl
  have hreplied (reply : Reply)
      (hreply : Session.answerTo s.script (.batchWriteItem tableName encoded) = .reply reply) :
      ((Store.batchWrite tableName items).exec s).1
        = .ok (((reply.unprocessedItems.find? tableName).getD []).filterMap
            UnprocessedWrite.item?) := by
    rw [hexec, hreply]
    rfl
  have hstored : ∀ item ∈ encoded, item.Stored :=
    ((List.forall₂_and_left encoded items).mp (hitems.flip.imp fun _ _ hv =>
      ⟨Attributes.stored_of_item hv, hv⟩)).1
  constructor
  case sent => rw [hexec]
  case body => rfl
  case replied =>
    intro reply hreply
    exact ⟨_, hreplied reply hreply, putItems_filterMap _, List.isEmpty_iff⟩
  case split =>
    intro j hreply hlisted
    obtain ⟨left, hleft, hmap⟩ := List.sublist_map_iff.mp hlisted
    obtain ⟨written, hsplits⟩ := exists_splits_of_sublist hleft
    refine ⟨written, left, ?_, hsplits, hmap, List.isEmpty_iff.trans hsplits.right_eq_nil_iff⟩
    rw [hreplied _ hreply, unprocessedItems_ofWire, hmap]
    exact congrArg _ (filterMap_unprocessedWrite fun item hitem =>
      hstored item (hleft.subset hitem))
  case refused =>
    intro fault hfault
    rw [hexec, hfault]
    rfl

/-! ## Reading a batch -/

/-- The attributes of an item's keys: the two texts, each under its name, where the partition key
    wins when both have one name. -/
def Store.Addresses (store : Store) (pair : String × String) (key : Attributes) : Prop :=
  ∀ name, key.find? name =
    if name = store.partitionName then some (.text pair.1)
    else if name = store.sortName then some (.text pair.2)
    else none

theorem Store.addresses_of_encode {store : Store} {pair : String × String} {key : Attributes}
    (h : (store.keys pair.1 pair.2).encode = .ok key) : store.Addresses pair key := by
  obtain rfl : Mapping.ofList [(store.sortName, .text pair.2), (store.partitionName, .text pair.1)]
    = key := Except.ok.inj h
  intro name
  rw [Mapping.find?_ofList]
  show (if store.partitionName = name then _ else if store.sortName = name then _ else none) = _
  simp only [@eq_comm _ name]

/-- Keys that are texts always encode, each pair to what addresses it. -/
theorem Store.exists_encodeAll (store : Store) (pairs : List (String × String)) :
    ∃ keys, Keys.encodeAll (pairs.map fun (pk, sk) => store.keys pk sk) = .ok keys ∧
      List.Forall₂ store.Addresses pairs keys := by
  obtain ⟨keys, hkeys⟩ : ∃ keys,
      (pairs.map fun (pk, sk) => store.keys pk sk).mapM Keys.encode = .ok keys :=
    exists_mapM_eq_ok fun k hk => by
      obtain ⟨pair, -, rfl⟩ := List.mem_map.mp hk
      exact ⟨_, rfl⟩
  refine ⟨keys, (Keys.encodeAll_eq_mapM _).trans hkeys, ?_⟩
  have heach := List.forall₂_map_left_iff.mp (mapM_eq_ok_iff.mp hkeys)
  exact heach.imp fun pair key hkey => Store.addresses_of_encode hkey

/-- What reading the items of keys from a table does in a session. -/
structure ReadsBatch (tableName : String) (keys : List Attributes) (s : Session)
    (done : Except Error (List Json) × Session) : Prop where
  /-- One request is sent. -/
  sent : done.2 = s.advance [.batchGetItem tableName keys none]
  /-- It names no other table, and it has all keys, in order. -/
  body : (Request.batchGetItem tableName keys none).body = .object [("RequestItems",
    .object [(tableName, .object [("Keys", .array (keys.map Attributes.wire))])])]
  /-- Exactly the items that the reply lists for the table are given, decoded one by one. -/
  replied : ∀ reply, Session.answerTo s.script (.batchGetItem tableName keys none) = .reply reply →
    ∀ decoded, done.1 = .ok decoded ↔
      List.Forall₂ (fun item j => Attributes.decode item = .ok j)
        ((reply.responses.find? tableName).getD []) decoded
  /-- The first item that does not decode fails the batch as a whole. -/
  failed : ∀ reply, Session.answerTo s.script (.batchGetItem tableName keys none) = .reply reply →
    ∀ e, done.1 = .error e ↔ ∃ before item after fault,
      (reply.responses.find? tableName).getD [] = before ++ item :: after ∧
      (∀ other ∈ before, ∃ j, Attributes.decode other = .ok j) ∧
      Attributes.decode item = .error fault ∧ e = .value fault
  /-- Any other response fails the batch as a whole. -/
  refused : ∀ fault, (Session.answerTo s.script (.batchGetItem tableName keys none)).outcome
    .batchGetItem = .error fault → done.1 = .error (.store fault)

/-- A batch of reads is one request, and its result is read off the items of its table alone. -/
theorem Store.batchRead_eq_asking (store : Store) (tableName : String)
    {pairs : List (String × String)} (h : pairs ≠ []) :
    store.batchRead tableName pairs = Run.asking
      (BatchGet.request ⟨tableName, pairs.map fun (pk, sk) => store.keys pk sk, none⟩)
      fun reply => (Attributes.decodeAll ((reply.responses.find? tableName).getD [])).mapError
        .value := by
  have hempty : ¬ pairs.isEmpty = true := mt List.isEmpty_iff.mp h
  rw [Store.batchRead, if_neg hempty]
  rfl

/-- A batch of reads is sent as one request for its keys, and returns the documents of the items in
    the reply, or fails as a whole. -/
theorem readsBatch_exec {store : Store} (tableName : String) {pairs : List (String × String)}
    {keys : List Attributes} (hne : pairs ≠ [])
    (hkeys : Keys.encodeAll (pairs.map fun (pk, sk) => store.keys pk sk) = .ok keys) (s : Session) :
    ReadsBatch tableName keys s ((store.batchRead tableName pairs).exec s) := by
  have hrequest : BatchGet.request
      ⟨tableName, pairs.map fun (pk, sk) => store.keys pk sk, none⟩
        = .ok (.batchGetItem tableName keys none) := by
    rw [BatchGet.request, hkeys]
    rfl
  have hexec : (store.batchRead tableName pairs).exec s
      = (((Session.answerTo s.script (.batchGetItem tableName keys none)).outcome
          .batchGetItem).mapError Error.store >>= fun reply =>
            (Attributes.decodeAll ((reply.responses.find? tableName).getD [])).mapError .value,
        s.advance [.batchGetItem tableName keys none]) := by
    rw [Store.batchRead_eq_asking store tableName hne, Run.exec_asking, hrequest]
    rfl
  have hreplied (reply : Reply)
      (hreply : Session.answerTo s.script (.batchGetItem tableName keys none) = .reply reply) :
      ((store.batchRead tableName pairs).exec s).1
        = (((reply.responses.find? tableName).getD []).mapM Attributes.decode).mapError .value := by
    rw [hexec, hreply, ← Attributes.decodeAll_eq_mapM]
    rfl
  constructor
  case sent => rw [hexec]
  case body => rfl
  case replied =>
    intro reply hreply decoded
    rw [hreplied reply hreply, mapError_eq_ok, mapM_eq_ok_iff]
  case failed =>
    intro reply hreply e
    rw [hreplied reply hreply, mapError_eq_error]
    constructor
    · rintro ⟨fault, hfault, rfl⟩
      obtain ⟨before, item, after, hsplit, hbefore, hitem⟩ := mapM_eq_error_iff.mp hfault
      exact ⟨before, item, after, fault, hsplit, hbefore, hitem, rfl⟩
    · rintro ⟨before, item, after, fault, hsplit, hbefore, hitem, rfl⟩
      exact ⟨fault, mapM_eq_error_iff.mpr ⟨before, item, after, hsplit, hbefore, hitem⟩, rfl⟩
  case refused =>
    intro fault hfault
    rw [hexec, hfault]
    rfl

/-! ## Both batches -/

/-- **Nothing is lost and nothing is invented.** Items that are all maps are put with one request, and
    exactly the items that the table leaves undone are given back; keys are read with one request, and
    exactly the items that are listed for the table are given, unless one of them does not decode. -/
theorem nothing_lost :
    (∀ (tableName : String) (items : List Value), items ≠ [] →
      (∀ v ∈ items, ∃ a, v.item = .ok a) →
      ∃ encoded, List.Forall₂ (fun v a => v.item = .ok a) items encoded ∧
        ∀ s, WritesBatch tableName encoded s ((Store.batchWrite tableName items).exec s)) ∧
      ∀ (store : Store) (tableName : String) (pairs : List (String × String)), pairs ≠ [] →
        ∃ keys, List.Forall₂ store.Addresses pairs keys ∧
          ∀ s, ReadsBatch tableName keys s ((store.batchRead tableName pairs).exec s) := by
  constructor
  · intro tableName items hne hitems
    obtain ⟨encoded, hencoded, heach⟩ := Value.exists_encodeItems hitems
    exact ⟨encoded, heach, writesBatch_exec tableName hne hencoded heach⟩
  · intro store tableName pairs hne
    obtain ⟨keys, hkeys, heach⟩ := store.exists_encodeAll pairs
    exact ⟨keys, heach, readsBatch_exec tableName hne hkeys⟩

/-- Two items, one of which holds bytes. -/
def sentItems : List Value :=
  [.map [(.text "pk", .text "a")], .map [(.text "pk", .bytes [0xFF, 0x00])]]

/-- The table leaves the second of them undone, and something is left undone of another table. -/
def secondLeft : Json :=
  .object [("UnprocessedItems", .object [
    ("others", .array [Wire.putEntry (.ofList [("pk", .text "a")])]),
    ("events", .array [Wire.putEntry (.ofList [("pk", .binary [0xFF, 0x00])])])])]

theorem nothing_lost_secondLeft :
    (∃ encoded written left,
      ((Store.batchWrite "events" sentItems).exec (.start [fun _ => .reply (.ofWire secondLeft)])).1
        = .ok left ∧ Splits encoded written left ∧ encoded.length = 2 ∧ left.length = 1 ∧
      BatchPut.isComplete left = false) ∧
      ((Store.batchRead ⟨"eu-west-1", "pk", "sk"⟩ "events" [("a", "b")]).exec (.start [])).1
        = .ok [] := by
  obtain ⟨hwrite, hread⟩ := nothing_lost
  constructor
  · have hitems : ∀ v ∈ sentItems, ∃ a, v.item = .ok a := by
      intro v hv
      rcases List.mem_cons.mp hv with rfl | hv
      · exact ⟨_, rfl⟩
      · obtain rfl := List.mem_singleton.mp hv
        exact ⟨_, rfl⟩
    obtain ⟨encoded, heach, hwrites⟩ := hwrite "events" sentItems (List.cons_ne_nil _ _) hitems
    obtain ⟨first, rest, -, hrest, rfl⟩ := List.forall₂_cons_left_iff.mp heach
    obtain ⟨second, rest, hsecond, hnil, rfl⟩ := List.forall₂_cons_left_iff.mp hrest
    obtain rfl := List.forall₂_nil_left_iff.mp hnil
    have hlisted : Wire.listed "UnprocessedItems" "events" secondLeft = [Wire.putEntry second] := by
      obtain rfl : Mapping.ofList [("pk", .binary [0xFF, 0x00])] = second := Except.ok.inj hsecond
      rfl
    have hsublist : (Wire.listed "UnprocessedItems" "events" secondLeft).Sublist
        ([first, second].map Wire.putEntry) := by
      rw [hlisted]
      exact .cons _ (.refl _)
    obtain ⟨written, left, hleft, hsplits, hmap, hcomplete⟩ :=
      (hwrites (.start [fun _ => .reply (.ofWire secondLeft)])).split secondLeft rfl hsublist
    have hlength : left.length = 1 := by
      rw [← List.length_map (f := Wire.putEntry), ← hmap, hlisted]
      rfl
    refine ⟨_, written, left, hleft, hsplits, rfl, hlength, ?_⟩
    rw [Bool.eq_false_iff, Ne, hcomplete]
    rintro rfl
    exact Nat.ne_of_lt (Nat.lt_succ_self _) (hlength ▸ hsplits.length)
  · obtain ⟨keys, -, hreads⟩ := hread ⟨"eu-west-1", "pk", "sk"⟩ "events" [("a", "b")]
      (List.cons_ne_nil _ _)
    exact ((hreads (.start [])).replied .blank rfl []).mpr .nil

end Depot
