import Depot.Proofs.Batch
import Depot.Proofs.Decoding
import Depot.Proofs.Pagination

/-!
# Reading back — what is written is what is read

The documents that a request puts are read off its body (**`Request.putDocuments`**). A store puts a
document for a JSON object when it writes the object alone or at a place of a batch
(**`StoreCall.Puts`**), and for objects without fractions it always does (`exists_writtenAs`).

The main result, **`read_as_written`**, is about a table that gives these documents back as they are.
As the item of a reply, as the list of a table in the reply to a batch and as the items of a page they
are read as the objects that were written, in the order of the reply.
-/

namespace Depot

/-! ## Items -/

/-- A document that is an object. -/
def Json.IsObject : Json → Prop
  | .object _ => True
  | _ => False

/-- A whole object can be stored as an item. -/
theorem Json.exists_item {j : Json} (hobject : j.IsObject) (hj : j.Whole) :
    ∃ item, (Value.ofJson j).item = .ok item := by
  cases j with
  | object members =>
      obtain ⟨encoded, hencoded, -⟩ := exists_encodeMembers hj
      have hencode : (Value.ofJson (.object members)).encode
          = .ok (.map (Mapping.ofList encoded).entries) := by
        rw [Value.ofJson, Value.encode, hencoded]
        rfl
      rw [Value.item, hencode]
      exact ⟨_, rfl⟩
  | _ => exact hobject.elim

/-- **The item of an object** is decoded as that object. -/
theorem Attributes.decode_of_item {j : Json} {item : Attributes} (hj : j.Whole)
    (h : (Value.ofJson j).item = .ok item) : Attributes.decode item = .ok j.inOrder := by
  obtain ⟨a, ha, hdecode⟩ := Json.exists_encode hj
  rw [Value.item, ha] at h
  cases a with
  | map entries =>
      obtain rfl := Except.ok.inj h
      obtain ⟨hascending, -⟩ := Value.stored_of_encode ha
      rw [Attributes.decode, Mapping.ofList_entries ⟨entries, hascending⟩]
      exact hdecode
  | _ => exact nomatch h

/-! ## Documents that are put -/

/-- The document that an entry of a batch puts. -/
def Wire.putDocument? (entry : Json) : Option Json :=
  (entry.member? "PutRequest").bind (·.member? "Item")

/-- The documents that a request puts as items, read off its body. -/
def Request.putDocuments (r : Request) : List Json :=
  match r with
  | .putItem _ => (r.body.member? "Item").toList
  | .batchWriteItem tableName _ =>
    (Wire.listed "RequestItems" tableName r.body).filterMap Wire.putDocument?
  | _ => []

/-- The document of a put is that of its item. -/
theorem Request.putDocuments_putItem (p : PutRequest) :
    (Request.putItem p).putDocuments = [p.item.wire] := by
  have hitem : (Request.putItem p).body.member? "Item" = some p.item.wire :=
    Json.member?_present (by simp [PutRequest.fields, Guard.fields]) (by simp [PutRequest.fields])
  rw [putDocuments, hitem, Option.toList_some]

/-- The documents of a batch of puts are those of its items, in order. -/
theorem Request.putDocuments_batchWriteItem (tableName : String) (items : List Attributes) :
    (Request.batchWriteItem tableName items).putDocuments = items.map Attributes.wire := by
  have hlisted : Wire.listed "RequestItems" tableName
      (Request.batchWriteItem tableName items).body = items.map Wire.putEntry := by
    have hfind : (Mapping.ofList [(tableName, Json.array (items.map Wire.putEntry))]).find? tableName
        = some (.array (items.map Wire.putEntry)) := by
      rw [Mapping.find?_ofList]
      exact if_pos rfl
    exact congrArg Wire.elements hfind
  rw [putDocuments, hlisted, List.filterMap_map]
  exact congrFun (List.filterMap_eq_map (f := Attributes.wire)) items

namespace StoreCall

/-- A document that a store puts for a JSON object, which is written alone or at a place of a
    batch. -/
inductive Puts (j document : Json) : Prop where
  | write {store : Store} {tableName : String} {s : Session} {r : Request} {response : Response} :
      (turn store (.write tableName (.ofJson j)) s).exchanges = [(r, response)] →
      r.putDocuments = [document] → Puts j document
  | batchWrite {store : Store} {tableName : String} {js : List Json} {s : Session} {r : Request}
      {response : Response} :
      (turn store (.batchWrite tableName (js.map .ofJson)) s).exchanges = [(r, response)] →
      (j, document) ∈ js.zip r.putDocuments → Puts j document

/-- A write puts the item of its value. -/
theorem item_of_write {store : Store} {tableName : String} {v : Value} {r : Request}
    (h : (write tableName v).request store = .ok r) :
    ∃ item, v.item = .ok item ∧ r.putDocuments = [item.wire] := by
  obtain ⟨p, hp, rfl⟩ := map_eq_ok.mp h
  obtain ⟨item, hitem, hp⟩ := bind_eq_ok.mp hp
  obtain ⟨guard, -, hp⟩ := bind_eq_ok.mp hp
  obtain rfl := Except.ok.inj hp
  exact ⟨item, mapError_eq_ok.mp hitem, Request.putDocuments_putItem _⟩

theorem items_of_batchWrite {store : Store} {tableName : String} {vs : List Value} {r : Request}
    (h : (batchWrite tableName vs).request store = .ok r) :
    ∃ items, List.Forall₂ (fun v item => v.item = .ok item) vs items ∧
      r.putDocuments = items.map Attributes.wire := by
  obtain ⟨items, hitems, hr⟩ := bind_eq_ok.mp h
  obtain rfl := Except.ok.inj hr
  rw [Value.encodeItems_eq_mapM] at hitems
  exact ⟨items, (mapM_eq_ok_iff.mp hitems).imp fun v item hv => mapError_eq_ok.mp hv,
    Request.putDocuments_batchWriteItem _ _⟩

/-- **Whatever is put** is the item of the object. -/
theorem Puts.exists_item {j document : Json} (h : Puts j document) :
    ∃ item, (Value.ofJson j).item = .ok item ∧ document = item.wire := by
  cases h with
  | write hsent hput =>
      obtain ⟨item, hitem, hdocuments⟩ := item_of_write (of_exchanges hsent).1
      rw [hdocuments] at hput
      exact ⟨item, hitem, (List.cons.inj hput).1.symm⟩
  | batchWrite hsent hput =>
      obtain ⟨items, hitems, hdocuments⟩ := items_of_batchWrite (of_exchanges hsent).1
      rw [hdocuments, List.zip_map_right] at hput
      obtain ⟨⟨_, item⟩, hmem, heq⟩ := List.mem_map.mp hput
      obtain ⟨rfl, rfl⟩ := Prod.mk.inj heq
      obtain ⟨-, heach⟩ := List.forall₂_iff_zip.mp (List.forall₂_map_left_iff.mp hitems)
      exact ⟨item, heach hmem, rfl⟩

/-- The documents that are put for JSON objects. -/
structure WrittenAs (js documents : List Json) : Prop where
  /-- Each object that is written alone is put as its document, with one request, unless the name of
      the table is blank. -/
  write : List.Forall₂ (fun j document => ∀ (store : Store) (tableName : String) (s : Session),
    Text.isAllBlank tableName = false → ∃ r response,
      (turn store (.write tableName (.ofJson j)) s).exchanges = [(r, response)] ∧
      r.putDocuments = [document]) js documents
  /-- Objects that are written as a batch are put as these documents in order, with one request. -/
  batchWrite : js ≠ [] → ∀ (store : Store) (tableName : String) (s : Session), ∃ r response,
    (turn store (.batchWrite tableName (js.map .ofJson)) s).exchanges = [(r, response)] ∧
    r.putDocuments = documents

/-- **Objects without fractions** are put, alone and as a batch. -/
theorem exists_writtenAs {js : List Json} (h : ∀ j ∈ js, j.IsObject ∧ j.Whole) :
    ∃ documents, WrittenAs js documents := by
  -- Both ways of writing put the documents of the same items, so these are chosen first.
  obtain ⟨items, hitems⟩ : ∃ items,
      (js.map Value.ofJson).mapM (fun v => v.item.mapError Error.value) = .ok items := by
    refine exists_mapM_eq_ok fun v hv => ?_
    obtain ⟨j, hj, rfl⟩ := List.mem_map.mp hv
    obtain ⟨item, hitem⟩ := Json.exists_item (h j hj).1 (h j hj).2
    exact ⟨item, mapError_eq_ok.mpr hitem⟩
  refine ⟨items.map Attributes.wire, ?_, ?_⟩
  · refine List.forall₂_map_right_iff.mpr ?_
    refine (List.forall₂_map_left_iff.mp (mapM_eq_ok_iff.mp hitems)).imp ?_
    intro j item hitem store tableName s hblank
    have hr : (StoreCall.write tableName (.ofJson j)).request store
        = .ok (.putItem ⟨item, ⟨tableName, none, none, none⟩⟩) := by
      rw [request, Put.request, hitem]
      rfl
    exact ⟨_, _, exchanges_of_request s hr rfl hblank, Request.putDocuments_putItem _⟩
  · intro hne store tableName s
    have hr : (StoreCall.batchWrite tableName (js.map .ofJson)).request store
        = .ok (.batchWriteItem tableName items) := by
      rw [request, BatchPut.request, Value.encodeItems_eq_mapM, hitems]
      rfl
    have hvoid : (StoreCall.batchWrite tableName (js.map .ofJson)).void? = none := by
      cases js with
      | nil => exact absurd rfl hne
      | cons j rest => rfl
    exact ⟨_, _, exchanges_of_request s hr hvoid rfl, Request.putDocuments_batchWriteItem _ _⟩

/-! ## Documents that are read -/

/-- What the calls of a store give for documents that are listed in the replies to them. -/
structure ReadAs (store : Store) (documents js : List Json) : Prop where
  /-- The replies that list these documents alone can be read. -/
  readable : (∀ document ∈ documents, Action.getItem.Reads (.object [("Item", document)])) ∧
    (∀ tableName, Action.batchGetItem.Reads
      (.object [("Responses", .object [(tableName, .array documents)])])) ∧
    Action.query.Reads (.object [("Items", .array documents)])
  /-- A document that is the item of a reply is found as its object. -/
  found : List.Forall₂ (fun document j => ∀ (tableName pk sk : String) (s : Session) (r : Request)
    (body : Json),
    (turn store (.findOne tableName pk sk) s).exchanges = [(r, .reply (.ofWire body))] →
    body.member? "Item" = some document →
    (turn store (.findOne tableName pk sk) s).result = .ok (.found (some j))) documents js
  /-- The documents that a reply lists for the table are read as their objects, in order. -/
  read : ∀ (tableName : String) (pairs : List (String × String)) (s : Session) (r : Request)
    (body : Json),
    (turn store (.batchRead tableName pairs) s).exchanges = [(r, .reply (.ofWire body))] →
    Wire.listed "Responses" tableName body = documents →
    (turn store (.batchRead tableName pairs) s).result = .ok (.read js)
  /-- So are the documents that a reply lists as items, and without a last key there is no cursor. -/
  paged : ∀ (q : Query) (s : Session) (r : Request) (body : Json),
    (turn store (.query q) s).exchanges = [(r, .reply (.ofWire body))] →
    Wire.elements (body.member? "Items") = documents →
    body.member? "LastEvaluatedKey" = none →
    (turn store (.query q) s).result = .ok (.page ⟨js, none⟩)

/-- Documents that are put stand for items that are decoded as the objects. -/
theorem exists_items {js documents : List Json} (hjs : ∀ j ∈ js, j.Whole)
    (h : List.Forall₂ Puts js documents) :
    ∃ items : List Attributes, documents = items.map Attributes.wire ∧
      (∀ item ∈ items, item.Stored) ∧
      List.Forall₂ (fun item j => Attributes.decode item = .ok j) items (js.map Json.inOrder) := by
  induction h with
  | nil => exact ⟨[], rfl, fun item hitem => (nomatch hitem), .nil⟩
  | @cons j document js documents hput _ ih =>
      obtain ⟨hj, hrest⟩ := List.forall_mem_cons.mp hjs
      obtain ⟨items, rfl, hstored, hdecoded⟩ := ih hrest
      obtain ⟨item, hitem, rfl⟩ := hput.exists_item
      exact ⟨item :: items, rfl,
        List.forall_mem_cons.mpr ⟨Attributes.stored_of_item hitem, hstored⟩,
        .cons (Attributes.decode_of_item hj hitem) hdecoded⟩

/-- **Documents of items** are read as what the items are decoded as. -/
theorem readAs_wire (store : Store) {items : List Attributes} {js : List Json}
    (hstored : ∀ item ∈ items, item.Stored)
    (hdecoded : List.Forall₂ (fun item j => Attributes.decode item = .ok j) items js) :
    ReadAs store (items.map Attributes.wire) js := by
  constructor
  case readable =>
    refine ⟨fun document hdocument => ?_, Action.reads_batchGetItem hstored,
      Action.reads_query hstored⟩
    obtain ⟨item, hitem, rfl⟩ := List.mem_map.mp hdocument
    exact Action.reads_getItem (hstored item hitem)
  case found =>
    refine List.forall₂_map_left_iff.mpr ?_
    refine ((List.forall₂_and_left items js).mpr ⟨hstored, hdecoded⟩).imp ?_
    rintro item j ⟨hitem, hdecode⟩ tableName pk sk s r body hsent hbody
    -- Other fields of the reply may be anything: only the last member of this name counts.
    have hread : (Reply.ofWire body).item = some item := by
      show (body.member? "Item").bind Attributes.ofWire? = some item
      rw [hbody, Option.bind_some, Attributes.ofWire?_wire hitem]
    rw [result_of_reply hsent]
    show readFound (Reply.ofWire body) = .ok (.found (some j))
    rw [readFound, hread]
    show ((Attributes.decode item).mapError Error.value).map _ = _
    rw [hdecode]
    rfl
  case read =>
    intro tableName pairs s r body hsent hbody
    rw [result_of_reply hsent]
    show ((Attributes.decodeAll (((Reply.ofWire body).responses.find? tableName).getD [])).mapError
      Error.value).map StoreResult.read = _
    rw [responses_ofWire, hbody, Attributes.filterMap_ofWire? hstored,
      Attributes.decodeAll_eq_ok_iff.mpr hdecoded]
    rfl
  case paged =>
    intro q s r body hsent hbody hlast
    have hitems : (Reply.ofWire body).items = items := by
      show (Wire.elements (body.member? "Items")).filterMap Attributes.ofWire? = items
      rw [hbody, Attributes.filterMap_ofWire? hstored]
    have hkey : (Reply.ofWire body).lastEvaluatedKey = none := by
      show (body.member? "LastEvaluatedKey").bind Attributes.ofWire? = none
      rw [hlast, Option.bind_none]
    have hdecodeAll : Attributes.decodeAll (Reply.ofWire body).items = .ok js := by
      rw [hitems, Attributes.decodeAll_eq_ok_iff.mpr hdecoded]
    rw [result_of_reply hsent]
    show (Page.ofReply (Reply.ofWire body)).map StoreResult.page = _
    rw [Page.ofReply_of_decodeAll hdecodeAll, hkey]
    rfl

/-- **What is written is what is read back.** Objects without fractions are put as documents. From
    replies with any list of documents that were put, the objects are read in the order of the
    reply, with their members sorted by name. Sorting leaves every member as it is, and objects whose
    members are sorted already are read as the very same. -/
theorem read_as_written :
    (∀ js : List Json, (∀ j ∈ js, j.IsObject ∧ j.Whole) → ∃ documents, WrittenAs js documents) ∧
      (∀ js documents : List Json, (∀ j ∈ js, j.Whole) → List.Forall₂ Puts js documents →
        ∀ store : Store, ReadAs store documents (js.map Json.inOrder)) ∧
      (∀ js : List Json, (∀ j ∈ js, j.Ordered) → js.map Json.inOrder = js) ∧
      ∀ (j : Json) (name : String), j.inOrder.member? name = (j.member? name).map Json.inOrder := by
  refine ⟨fun js hjs => exists_writtenAs hjs, ?_, ?_, Json.member?_inOrder⟩
  · intro js documents hjs hputs store
    obtain ⟨items, rfl, hstored, hdecoded⟩ := exists_items hjs hputs
    exact readAs_wire store hstored hdecoded
  · intro js hjs
    have hsame : js.map Json.inOrder = js.map id :=
      List.map_congr_left fun j hj => Json.inOrder_of_ordered (hjs j hj)
    rw [hsame, List.map_id]

/-- An object with the least and the greatest integers that can be kept. -/
def boundsObject : Json :=
  .object [("bounds", .array [.integer (-9223372036854775808), .integer 0,
    .integer 18446744073709551615]), ("pk", .text "a")]

/-- The response that has a document as its item. -/
def itemResponse (document : Json) : Response :=
  .ofWire .getItem (.object [("Item", document)])

/-- The response that lists documents for a table. -/
def tableResponse (documents : List Json) : Response :=
  .ofWire .batchGetItem (.object [("Responses", .object [("events", .array documents)])])

theorem read_as_written_bounds : ∃ document, Puts boundsObject document ∧
    (turn plainStore (.findOne "events" "a" "b") (.start [fun _ => itemResponse document])).result
      = .ok (.found (some boundsObject)) ∧
    (turn plainStore (.batchRead "events" [("a", "b"), ("a", "c")])
      (.start [fun _ => tableResponse [document, document]])).result
        = .ok (.read [boundsObject, boundsObject]) := by
  obtain ⟨hwritten, hread, hordered, -⟩ := read_as_written
  have hwhole : boundsObject.Whole :=
    ⟨⟨⟨by decide, by decide⟩, ⟨by decide, by decide⟩, ⟨by decide, by decide⟩, trivial⟩, trivial,
      trivial⟩
  have hsorted : boundsObject.Ordered := by
    refine ⟨?_, ⟨trivial, trivial, trivial, trivial⟩, trivial, trivial⟩
    exact .cons (by decide) (.cons (by decide) .nil)
  obtain ⟨documents, hwrite, -⟩ := hwritten [boundsObject] (by simpa using ⟨trivial, hwhole⟩)
  obtain ⟨document, _, hdocument, hnil, rfl⟩ := List.forall₂_cons_left_iff.mp hwrite
  obtain ⟨r, response, hsent, hput⟩ := hdocument plainStore "events" (.start []) rfl
  have hputs : Puts boundsObject document := .write hsent hput
  have htwo := hread [boundsObject, boundsObject] [document, document] (by simpa using hwhole)
    (.cons hputs (.cons hputs .nil)) plainStore
  rw [hordered _ (by simpa using hsorted)] at htwo
  obtain ⟨⟨hitem, htable, -⟩, hfound, hlisted, -⟩ := htwo
  have hitem : itemResponse document = _ := hitem document List.mem_cons_self
  have htable : tableResponse [document, document] = _ := htable "events"
  refine ⟨document, hputs, ?_, ?_⟩
  · rw [hitem]
    exact (List.forall₂_cons.mp hfound).1 _ _ _ _ _ _ (exchanges_of_request _ rfl rfl rfl) rfl
  · rw [htable]
    exact hlisted _ _ _ _ _ (exchanges_of_request _ rfl rfl rfl) rfl

end StoreCall

end Depot
