import Depot.Proofs.Failure
import Depot.Proofs.Session
import Depot.Proofs.Transaction
import Depot.Store.Call

/-!
# Calls of a store — what cannot be built leaves no trace

Each operation of a store has one request and one way to read the reply (`StoreCall.request`,
`StoreCall.read`): unless it is an empty batch, it sends the request, if it can be built, and reads
the reply (**`perform_eq`**). So there are four things that a call can do (**`Takes`**), and in three of
them the session stays as it is.

**`unbuilt_without_trace`** says what this makes of a run: a call sends nothing exactly when its
request cannot be built, when it is an empty batch, or when the name of its table is blank; the k-th
request is answered by the k-th response; and a call that cannot be built can be left out without
any other call noticing.
-/

namespace Depot

namespace Query

/-- What the request of a query is built of. -/
theorem request_eq_ok {q : Query} {r : QueryRequest} :
    q.request = .ok r ↔ ∃ f startKey, q.condition.compile = .ok f ∧
      Cursor.decode? q.options.truthy.offset = .ok startKey ∧
      r = ⟨q.tableName, f.text, f.values, startKey, q.options.truthy.indexName,
        q.options.truthy.limit, q.options.truthy.ascending, q.options.truthy.select⟩ := by
  rw [request]
  simp only [bind_eq_ok, Except.ok.injEq, @eq_comm _ _ r, exists_and_left]

/-- A query sends its request, if it can be built, and reads a page off the reply. -/
theorem query_eq_asking (q : Query) :
    Store.query q = Run.asking (q.request.map .query) Page.ofReply := by
  rw [Run.asking, Run.sending_map]
  rfl

end Query

namespace StoreCall

/-- The request of a call, whether or not it is needed. -/
def request (store : Store) : StoreCall → Except Error Request
  | write tableName item => (Put.request ⟨item, .ofTable tableName⟩).map .putItem
  | findOne tableName pk sk => Get.request ⟨tableName, store.keys pk sk, none⟩
  | update tableName pk sk attributes =>
    (store.updateOf tableName pk sk (Clauses.empty.withSet (some attributes))).request.map
      (.updateItem · Update.defaultReturnValues)
  | atomicUpdate tableName pk sk deltas =>
    (store.updateOf tableName pk sk (Clauses.empty.withAdd (some deltas))).request.map
      (.updateItem · Update.defaultReturnValues)
  | batchWrite tableName items => BatchPut.request ⟨tableName, items⟩
  | batchRead tableName pairs =>
    BatchGet.request ⟨tableName, pairs.map fun (pk, sk) => store.keys pk sk, none⟩
  | query q => q.request.map .query
  | delete tableName pk sk =>
    (Delete.request ⟨store.keys pk sk, .ofTable tableName⟩).map .deleteItem
  | transactWrite t => t.request

/-- What an empty batch gives, which needs no request. -/
def void? : StoreCall → Option StoreResult
  | batchWrite _ [] => some (.undone [])
  | batchRead _ [] => some (.read [])
  | _ => none

/-- The item that a reply to a change has. -/
def readChanged (reply : Reply) : Except Error StoreResult :=
  ((Attributes.decode (reply.attributes.getD .empty)).mapError .value).map .changed

/-- The item that a reply has, if it has one. -/
def readFound (reply : Reply) : Except Error StoreResult :=
  match reply.item with
  | none => .ok (.found none)
  | some attributes =>
    ((Attributes.decode attributes).mapError .value).map fun item => .found (some item)

/-- What a call makes of a reply. -/
def read : StoreCall → Reply → Except Error StoreResult
  | write _ _, _ => .ok .done
  | findOne _ _ _, reply => readFound reply
  | update _ _ _ _, reply => readChanged reply
  | atomicUpdate _ _ _ _, reply => readChanged reply
  | batchWrite tableName items, reply =>
    .ok (.undone (BatchPut.unprocessed ⟨tableName, items⟩ reply))
  | batchRead tableName _, reply =>
    ((Attributes.decodeAll ((reply.responses.find? tableName).getD [])).mapError .value).map .read
  | query _, reply => (Page.ofReply reply).map .page
  | delete _ _ _, _ => .ok .done
  | transactWrite _, _ => .ok .done

/-- A change of an item is one request, and the changed item is read off the reply. -/
theorem change_map (store : Store) (tableName pk sk : String) (clauses : Clauses) :
    (store.change tableName pk sk clauses >>= fun item => pure (StoreResult.changed item))
      = Run.asking ((store.updateOf tableName pk sk clauses).request.map
          (.updateItem · Update.defaultReturnValues)) readChanged := by
  rw [Run.asking, Run.sending_map, Store.change, bind_assoc]
  exact bind_congr fun reply => Run.ofExcept_bind_pure _ _

/-- An empty batch is done without a request. -/
theorem perform_of_void {store : Store} {call : StoreCall} {result : StoreResult}
    (h : call.void? = some result) : call.perform store = pure result := by
  unfold void? at h
  split at h
  · obtain rfl := Option.some.inj h
    rfl
  · obtain rfl := Option.some.inj h
    rfl
  · exact nomatch h

/-- **Every other call** sends its request, if it can be built, and reads the reply. -/
theorem perform_eq {store : Store} {call : StoreCall} (h : call.void? = none) :
    call.perform store = Run.asking (call.request store) call.read := by
  cases call with
  | write tableName item =>
      rw [perform, request, Run.asking, Run.sending_map, Store.write, bind_assoc]
      exact bind_congr fun reply => rfl
  | findOne tableName pk sk =>
      let get : Get := ⟨tableName, store.keys pk sk, none⟩
      have hsend : get.send = Run.sending get.request >>= fun reply => pure reply.item :=
        (bind_assoc ..).symm
      rw [perform, Run.asking, Store.findOne, hsend, bind_assoc, bind_assoc]
      refine bind_congr fun reply => ?_
      rw [pure_bind]
      show _ = Run.ofExcept (readFound reply)
      rw [readFound]
      cases reply.item with
      | none => rfl
      | some attributes =>
          rw [bind_assoc]
          exact Run.ofExcept_bind_pure _ fun item => StoreResult.found (some item)
  | update tableName pk sk attributes => exact change_map store tableName pk sk _
  | atomicUpdate tableName pk sk deltas => exact change_map store tableName pk sk _
  | batchWrite tableName items =>
      cases items with
      | nil => cases h
      | cons v rest =>
          let batch : BatchPut := ⟨tableName, v :: rest⟩
          have hsend : batch.send
              = Run.sending batch.request >>= fun reply => pure (batch.unprocessed reply) :=
            (bind_assoc ..).symm
          show batch.send >>= (fun left => pure (StoreResult.undone left)) = _
          rw [hsend, bind_assoc]
          exact bind_congr fun reply => rfl
  | batchRead tableName pairs =>
      cases pairs with
      | nil => cases h
      | cons pair rest =>
          let batch : BatchGet :=
            ⟨tableName, (pair :: rest).map fun (pk, sk) => store.keys pk sk, none⟩
          show (Run.sending batch.request >>= fun reply => Run.ofExcept
            ((Attributes.decodeAll (batch.items reply)).mapError .value)) >>= _ = _
          rw [bind_assoc]
          exact bind_congr fun reply => Run.ofExcept_bind_pure _ _
  | query q =>
      rw [perform, q.query_eq_asking, Run.asking, bind_assoc]
      exact bind_congr fun reply => Run.ofExcept_bind_pure _ _
  | delete tableName pk sk =>
      rw [perform, request, Run.asking, Run.sending_map, Store.delete, bind_assoc]
      exact bind_congr fun reply => rfl
  | transactWrite t =>
      rw [perform, Run.asking, Store.transactWrite, bind_assoc]
      exact bind_congr fun reply => rfl

/-! ## What is asked -/

/-- The table that the request of a call names as a field of its own. -/
def tableName? : StoreCall → Option String
  | write tableName _ => some tableName
  | findOne tableName _ _ => some tableName
  | update tableName _ _ _ => some tableName
  | atomicUpdate tableName _ _ _ => some tableName
  | batchWrite _ _ => none
  | batchRead _ _ => none
  | query q => some q.tableName
  | delete tableName _ _ => some tableName
  | transactWrite _ => none

/-- Whether a call names a table in whose name every character is blank. -/
def isBlank (call : StoreCall) : Bool := call.tableName?.any Text.isAllBlank

/-- Whether the request of a call can be built. -/
def builds (store : Store) (call : StoreCall) : Bool := (call.request store).isOk

/-- The request of a change names the table that it was asked for. -/
theorem tableName?_of_change {store : Store} {tableName pk sk : String} {clauses : Clauses}
    {r : Request} (h : (store.updateOf tableName pk sk clauses).request.map
      (.updateItem · Update.defaultReturnValues) = .ok r) : r.tableName? = some tableName := by
  obtain ⟨u, hu, rfl⟩ := map_eq_ok.mp h
  have hitem : (Operation.update (store.updateOf tableName pk sk clauses)).item = .ok (.update u) :=
    map_eq_ok.mpr ⟨u, hu, rfl⟩
  exact congrArg some (Operation.tableName_item hitem)

/-- The request of a call names the table of the call. -/
theorem tableName?_request {store : Store} {call : StoreCall} {r : Request}
    (h : call.request store = .ok r) : r.tableName? = call.tableName? := by
  cases call with
  | write tableName item =>
      obtain ⟨p, hp, rfl⟩ := map_eq_ok.mp h
      have hitem : (Operation.put ⟨item, .ofTable tableName⟩).item = .ok (.put p) :=
        map_eq_ok.mpr ⟨p, hp, rfl⟩
      exact congrArg some (Operation.tableName_item hitem)
  | findOne tableName pk sk =>
      obtain ⟨key, -, hr⟩ := bind_eq_ok.mp h
      obtain rfl := Except.ok.inj hr
      rfl
  | update tableName pk sk attributes => exact tableName?_of_change h
  | atomicUpdate tableName pk sk deltas => exact tableName?_of_change h
  | batchWrite tableName items =>
      obtain ⟨encoded, -, hr⟩ := bind_eq_ok.mp h
      obtain rfl := Except.ok.inj hr
      rfl
  | batchRead tableName pairs =>
      obtain ⟨keys, -, hr⟩ := bind_eq_ok.mp h
      obtain rfl := Except.ok.inj hr
      rfl
  | query q =>
      obtain ⟨r, hr, rfl⟩ := map_eq_ok.mp h
      obtain ⟨f, startKey, -, -, rfl⟩ := Query.request_eq_ok.mp hr
      rfl
  | delete tableName pk sk =>
      rw [request] at h
      obtain ⟨d, hd, rfl⟩ := map_eq_ok.mp h
      have hitem : (Operation.delete ⟨store.keys pk sk, .ofTable tableName⟩).item
          = .ok (.delete d) := map_eq_ok.mpr ⟨d, hd, rfl⟩
      exact congrArg some (Operation.tableName_item hitem)
  | transactWrite t =>
      have hne : t.operations ≠ [] := by
        intro hnil
        exact nomatch (t.request_eq_emptyTransaction_iff.mpr hnil).symm.trans h
      obtain ⟨items, -, rfl⟩ := (Transaction.request_eq_ok_iff hne).mp h
      rfl

/-- The request of a call can be sent unless the name of its table is blank. -/
theorem isSendable_request {store : Store} {call : StoreCall} {r : Request}
    (h : call.request store = .ok r) : r.isSendable = !call.isBlank := by
  rw [Request.isSendable, tableName?_request h, isBlank]

/-- An empty batch could be built, and it names no table. -/
theorem void?_eq_none (store : Store) {call : StoreCall}
    (h : (∃ e, call.request store = .error e) ∨ call.isBlank = true) : call.void? = none := by
  unfold void?
  split
  · rcases h with ⟨e, he⟩ | hblank
    · cases he
    · cases hblank
  · rcases h with ⟨e, he⟩ | hblank
    · cases he
    · cases hblank
  · rfl

/-- A call that cannot be built fails with an error of a request. -/
theorem failsWith_request (store : Store) (call : StoreCall) :
    FailsWith Error.OfRequest (call.request store) := by
  cases call with
  | write tableName item => exact (Put.failsWith_request _).ofRequest.map _
  | findOne tableName pk sk => exact (Get.failsWith_request _).ofRequest
  | update tableName pk sk attributes => exact (Update.failsWith_request _).ofRequest.map _
  | atomicUpdate tableName pk sk deltas => exact (Update.failsWith_request _).ofRequest.map _
  | batchWrite tableName items => exact (BatchPut.failsWith_request _).ofRequest
  | batchRead tableName pairs => exact (BatchGet.failsWith_request _).ofRequest
  | query q => exact q.failsWith_request.map _
  | delete tableName pk sk =>
      rw [request]
      exact (Delete.failsWith_request _).ofRequest.map _
  | transactWrite t => exact t.failsWith_request

/-! ## What a call can do -/

/-- What a call makes of the response to its request. -/
def readResponse (call : StoreCall) (r : Request) (response : Response) :
    Except Error StoreResult :=
  (response.outcome r.action).mapError Error.store >>= call.read

/-- One call of a run: what was asked, the requests with their answers, and what came of it. -/
structure Turn where
  call : StoreCall
  exchanges : List (Request × Response)
  result : Except Error StoreResult

/-- The turn of a call in a session. -/
def turn (store : Store) (call : StoreCall) (s : Session) : Turn where
  call := call
  exchanges := Session.replay s.script (((call.perform store).exec s).2.sent.drop s.sent.length)
  result := ((call.perform store).exec s).1

/-- The turns of calls that are made one after the other, whatever became of the ones before. -/
def turns (store : Store) : List StoreCall → Session → List Turn
  | [], _ => []
  | call :: rest, s => turn store call s :: turns store rest ((call.perform store).exec s).2

/-- The turn of a call is told by the requests that it sends and by its result. -/
theorem turn_eq {store : Store} {call : StoreCall} {s : Session} {rs : List Request}
    {result : Except Error StoreResult}
    (h : (call.perform store).exec s = (result, s.advance rs)) :
    turn store call s = ⟨call, Session.replay s.script rs, result⟩ := by
  have hsent : (s.advance rs).sent.drop s.sent.length = rs := List.drop_left
  simp only [turn, h, hsent]

section

variable {store : Store} {call : StoreCall} (s : Session)

/-- An empty batch sends nothing and succeeds. -/
theorem exec_of_void {result : StoreResult} (h : call.void? = some result) :
    (call.perform store).exec s = (.ok result, s.advance []) := by
  rw [perform_of_void h, s.advance_nil]
  rfl

/-- A call that cannot be built sends nothing and fails for what it cannot be built for. -/
theorem exec_of_error {e : Error} (he : call.request store = .error e) :
    (call.perform store).exec s = (.error e, s.advance []) := by
  rw [perform_eq (void?_eq_none store (.inl ⟨e, he⟩)), Run.exec_asking, he, s.advance_nil]

/-- A call on a blank table sends nothing and fails as one that reaches no service. -/
theorem exec_of_blank {r : Request} (hr : call.request store = .ok r)
    (hblank : call.isBlank = true) :
    (call.perform store).exec s = (.error (.store .unreachable), s.advance []) := by
  have hrefused : ¬ r.isSendable = true := by
    rw [isSendable_request hr, hblank]
    exact Bool.false_ne_true
  rw [perform_eq (void?_eq_none store (.inr hblank)), Run.exec_asking, hr, s.advance_nil]
  exact if_neg hrefused

/-- **Every other call** sends one request and reads the response to it. -/
theorem exec_of_ok {r : Request} (hvoid : call.void? = none) (hr : call.request store = .ok r)
    (hblank : call.isBlank = false) : (call.perform store).exec s
      = (call.readResponse r (Session.answerTo s.script r), s.advance [r]) := by
  have hsendable : r.isSendable = true := by
    rw [isSendable_request hr, hblank]
    rfl
  rw [perform_eq hvoid, Run.exec_asking, hr]
  exact if_pos hsendable

end

/-- The requests that a call can send in a session, with what can come of them. -/
inductive Takes (store : Store) (call : StoreCall) (s : Session) : List Request →
    Except Error StoreResult → Prop where
  | void {result : StoreResult} : call.void? = some result → Takes store call s [] (.ok result)
  | unbuilt {e : Error} : call.request store = .error e → Takes store call s [] (.error e)
  | blank {r : Request} : call.request store = .ok r → call.isBlank = true →
      Takes store call s [] (.error (.store .unreachable))
  | sent {r : Request} : call.void? = none → call.request store = .ok r → call.isBlank = false →
      Takes store call s [r] (call.readResponse r (Session.answerTo s.script r))

/-- **What a call can do**: it is done or fails without a request, or it sends the one it has. -/
theorem exists_takes (store : Store) (call : StoreCall) (s : Session) :
    ∃ rs result, (call.perform store).exec s = (result, s.advance rs) ∧
      call.Takes store s rs result := by
  cases hvoid : call.void? with
  | some result => exact ⟨_, _, exec_of_void s hvoid, .void hvoid⟩
  | none =>
      cases hr : call.request store with
      | error e => exact ⟨_, _, exec_of_error s hr, .unbuilt hr⟩
      | ok r =>
          cases hblank : call.isBlank with
          | true => exact ⟨_, _, exec_of_blank s hr hblank, .blank hr hblank⟩
          | false => exact ⟨_, _, exec_of_ok s hvoid hr hblank, .sent hvoid hr hblank⟩

/-- What a call does to its session, and what comes of it, both told by its request. -/
structure Turn.Sound (store : Store) (t : Turn) : Prop where
  /-- At most one request is sent. -/
  once : t.exchanges.length ≤ 1
  /-- None is sent exactly when the request cannot be built, when a batch is empty, or when the name
      of the table is blank. -/
  silent : t.exchanges = [] ↔
    (∃ e, t.call.request store = .error e) ∨ t.call.void? ≠ none ∨ t.call.isBlank = true
  /-- What is sent is the request of the call, and the response decides the result. -/
  asks : ∀ x ∈ t.exchanges,
    t.call.request store = .ok x.1 ∧ t.result = t.call.readResponse x.1 x.2
  /-- A request that cannot be built decides the result. -/
  fails : ∀ e, t.call.request store = .error e → t.result = .error e ∧ e.OfRequest
  /-- An empty batch has an empty result. -/
  void : ∀ result, t.call.void? = some result → t.result = .ok result
  /-- A request for a table whose name is blank comes to nothing. -/
  blank : ∀ r, t.call.request store = .ok r → t.call.isBlank = true →
    t.result = .error (.store .unreachable)

/-- **Every turn is sound**, by the kinds of calls. -/
theorem sound_turn (store : Store) (call : StoreCall) (s : Session) :
    (turn store call s).Sound store := by
  obtain ⟨rs, result, hexec, htakes⟩ := exists_takes store call s
  constructor
  case once =>
    rw [turn_eq hexec]
    cases htakes with
    | sent hvoid hr hblank => exact Nat.le_refl 1
    | _ => exact Nat.zero_le 1
  case silent =>
    constructor
    · intro hnil
      rw [turn_eq hexec] at hnil ⊢
      cases htakes with
      | void hvoid => exact .inr (.inl (by simp [hvoid]))
      | unbuilt he => exact .inl ⟨_, he⟩
      | blank hr hblank => exact .inr (.inr hblank)
      | sent hvoid hr hblank => cases hnil
    · rintro (⟨e, he : call.request store = .error e⟩ | hvoid | hblank)
      · rw [turn_eq (exec_of_error s he)]
        rfl
      · obtain ⟨result, hresult : call.void? = some result⟩ := Option.ne_none_iff_exists'.mp hvoid
        rw [turn_eq (exec_of_void s hresult)]
        rfl
      · cases hr : call.request store with
        | error e =>
            rw [turn_eq (exec_of_error s hr)]
            rfl
        | ok r =>
            rw [turn_eq (exec_of_blank s hr hblank)]
            rfl
  case asks =>
    rw [turn_eq hexec]
    intro x hx
    cases htakes with
    | sent hvoid hr hblank =>
        obtain rfl := List.mem_singleton.mp hx
        exact ⟨hr, rfl⟩
    | _ => cases hx
  case fails =>
    intro e (he : call.request store = .error e)
    rw [turn_eq (exec_of_error s he)]
    exact ⟨rfl, failsWith_request store call e he⟩
  case void =>
    intro result (hresult : call.void? = some result)
    rw [turn_eq (exec_of_void s hresult)]
  case blank =>
    intro r (hr : call.request store = .ok r) hblank
    rw [turn_eq (exec_of_blank s hr hblank)]

/-- What is sent is the request of the call, and what comes of it is read off the response. -/
theorem of_exchanges {store : Store} {call : StoreCall} {s : Session} {r : Request}
    {response : Response} (h : (turn store call s).exchanges = [(r, response)]) :
    call.request store = .ok r ∧ (turn store call s).result = call.readResponse r response :=
  (sound_turn store call s).asks (r, response) (h ▸ List.mem_singleton_self _)

/-- The result of a turn with a reply is what the call reads off that reply. -/
theorem result_of_reply {store : Store} {call : StoreCall} {s : Session} {r : Request}
    {reply : Reply} (h : (turn store call s).exchanges = [(r, .reply reply)]) :
    (turn store call s).result = call.read reply :=
  (of_exchanges h).2

/-- A request that is built and needed is sent, unless the name of the table is blank. -/
theorem exchanges_of_request {store : Store} {call : StoreCall} {r : Request} (s : Session)
    (hr : call.request store = .ok r) (hvoid : call.void? = none) (hblank : call.isBlank = false) :
    (turn store call s).exchanges = [(r, Session.answerTo s.script r)] := by
  rw [turn_eq (exec_of_ok s hvoid hr hblank)]
  rfl

/-- **A call that succeeds** has read a reply, unless it is an empty batch. -/
theorem exists_reply_of_ok {store : Store} {call : StoreCall} {s : Session} {result : StoreResult}
    (hvoid : call.void? = none) (h : (turn store call s).result = .ok result) :
    ∃ r reply, (turn store call s).exchanges = [(r, .reply reply)] ∧
      call.read reply = .ok result := by
  obtain ⟨rs, outcome, hexec, htakes⟩ := exists_takes store call s
  rw [turn_eq hexec] at h ⊢
  cases htakes with
  | void hsome => exact nomatch hvoid.symm.trans hsome
  | unbuilt he => exact nomatch h
  | blank hr hblank => exact nomatch h
  | @sent r _ hr hblank =>
      -- Only a reply means something other than an error.
      cases hanswer : Session.answerTo s.script r with
      | reply reply =>
          rw [hanswer] at h
          exact ⟨r, reply, congrArg (fun response => [(r, response)]) hanswer, h⟩
      | _ =>
          rw [hanswer] at h
          exact nomatch h

/-! ## Runs -/

theorem performAll_cons (store : Store) (call : StoreCall) (rest : List StoreCall) (s : Session) :
    performAll store (call :: rest) s = (((call.perform store).exec s).1 ::
      (performAll store rest ((call.perform store).exec s).2).1,
      (performAll store rest ((call.perform store).exec s).2).2) := rfl

/-- **A run is told by its turns**: their results are its results, and their requests end to end are
    those that it sends. -/
theorem performAll_eq (store : Store) (calls : List StoreCall) (s : Session) :
    performAll store calls s = ((turns store calls s).map (·.result),
      s.advance ((turns store calls s).flatMap fun t => t.exchanges.map (·.1))) := by
  induction calls generalizing s with
  | nil => exact congrArg (Prod.mk []) s.advance_nil.symm
  | cons call rest ih =>
      obtain ⟨rs, result, hexec, -⟩ := exists_takes store call s
      rw [performAll_cons, turns, turn_eq hexec, hexec]
      simp only [ih, List.map_cons, List.flatMap_cons, Session.map_fst_replay,
        Session.advance_append]

/-- A run has one turn for each call, in order. -/
theorem map_call_turns (store : Store) (calls : List StoreCall) (s : Session) :
    (turns store calls s).map (·.call) = calls := by
  induction calls generalizing s with
  | nil => rfl
  | cons call rest ih => rw [turns, List.map_cons, ih, turn]

/-- The turns of a run are turns of its calls. -/
theorem exists_turn_of_mem {store : Store} {calls : List StoreCall} {s : Session} {t : Turn}
    (h : t ∈ turns store calls s) : ∃ s', t = turn store t.call s' := by
  induction calls generalizing s with
  | nil => exact nomatch h
  | cons call rest ih =>
      rcases List.mem_cons.mp h with rfl | h
      · exact ⟨s, rfl⟩
      · exact ih h

/-- Every turn of a run is sound, whatever became of the ones before. -/
theorem sound_of_mem_turns {store : Store} {calls : List StoreCall} {s : Session} {t : Turn}
    (h : t ∈ turns store calls s) : t.Sound store := by
  obtain ⟨s', ht⟩ := exists_turn_of_mem h
  rw [ht]
  exact sound_turn store t.call s'

/-- The exchanges of a run are one replay of the script. -/
theorem exchanges_turns (store : Store) (calls : List StoreCall) (s : Session) :
    (turns store calls s).flatMap (·.exchanges) = Session.replay s.script
      ((turns store calls s).flatMap fun t => t.exchanges.map (·.1)) := by
  induction calls generalizing s with
  | nil => rfl
  | cons call rest ih =>
      obtain ⟨rs, result, hexec, -⟩ := exists_takes store call s
      rw [turns, turn_eq hexec, hexec, List.flatMap_cons, List.flatMap_cons, ih,
        Session.map_fst_replay, Session.replay_append]
      rfl

/-- **Calls that cannot be built** can be left out: the session ends as it does with them, and so do
    the other calls. -/
theorem performAll_filter (store : Store) (calls : List StoreCall) (s : Session) :
    performAll store (calls.filter (·.builds store)) s
      = (((calls.zip (performAll store calls s).1).filter fun p => p.1.builds store).map (·.2),
        (performAll store calls s).2) := by
  induction calls generalizing s with
  | nil => rfl
  | cons call rest ih =>
      cases hr : call.request store with
      | ok r =>
          have hbuilds : call.builds store = true := by
            rw [builds, hr]
            rfl
          rw [List.filter_cons_of_pos hbuilds, performAll_cons, performAll_cons, ih,
            List.zip_cons_cons]
          simp only [List.filter_cons, hbuilds, if_true, List.map_cons]
      | error e =>
          have hfails : call.builds store = false := by
            rw [builds, hr]
            rfl
          -- The session is the same after a call that cannot be built.
          rw [List.filter_cons_of_neg (by simp [hfails]), performAll_cons, exec_of_error s hr,
            s.advance_nil, ih, List.zip_cons_cons]
          simp only [List.filter_cons, hfails, Bool.false_eq_true, if_false]

/-- **A call that cannot be built leaves no trace**, in runs of any length and with whatever
    answers. Each turn sends at most the request of its call, the requests of a run are answered one
    after the other, and without the calls that cannot be built the session ends as it does with
    them and the other calls have the same results. -/
theorem unbuilt_without_trace (store : Store) (calls : List StoreCall) (s : Session) :
    performAll store calls s = ((turns store calls s).map (·.result),
        s.advance ((turns store calls s).flatMap fun t => t.exchanges.map (·.1))) ∧
      (turns store calls s).map (·.call) = calls ∧
      (∀ t ∈ turns store calls s, t.Sound store) ∧
      (∀ k x, ((turns store calls s).flatMap (·.exchanges))[k]? = some x →
        x.2 = Session.answerTo (s.script.drop k) x.1) ∧
      performAll store (calls.filter (·.builds store)) s
        = (((calls.zip (performAll store calls s).1).filter fun p => p.1.builds store).map (·.2),
          (performAll store calls s).2) := by
  refine ⟨performAll_eq store calls s, map_call_turns store calls s, fun t ht => ?_, ?_,
    performAll_filter store calls s⟩
  · exact sound_of_mem_turns ht
  · intro k x hx
    rw [exchanges_turns, Session.getElem?_replay] at hx
    obtain ⟨r, -, rfl⟩ := Option.map_eq_some_iff.mp hx
    rfl

/-- The store of the default key names. -/
def plainStore : Store := ⟨"eu-west-1", Store.defaultPartitionName, Store.defaultSortName⟩

/-- Calls of which the second cannot be built and the third is an empty batch. -/
def mixedCalls : List StoreCall :=
  [.write "events" (.map [(.text "pk", .text "a")]), .update "events" "a" "b" .empty,
    .batchRead "events" [], .delete "events" "a" "b"]

/-- A script whose first response is lost. -/
def lossyScript : List (Request → Response) := [fun _ => .dropped, fun _ => .reply .blank]

theorem unbuilt_without_trace_mixed :
    performAll plainStore (mixedCalls.filter (·.builds plainStore)) (.start lossyScript)
        = ([.error (.store .unreachable), .ok (.read []), .ok .done],
          (performAll plainStore mixedCalls (.start lossyScript)).2) ∧
      (performAll plainStore mixedCalls (.start lossyScript)).2.sent.length = 2 := by
  obtain ⟨-, -, -, -, hkept⟩ :=
    unbuilt_without_trace plainStore mixedCalls (.start lossyScript)
  exact ⟨hkept, rfl⟩

/-- A put into a table whose name is blank without being empty. -/
def blankWrite : StoreCall := .write " " (.map [(.text "pk", .text "a")])

/-- **A table name that is not empty is not enough** for the request of a call to be sent. -/
theorem unsent_blankWrite :
    ¬ ∀ (store : Store) (call : StoreCall) (s : Session), call.tableName? ≠ some "" →
      ((turn store call s).exchanges = [] ↔
        (∃ e, call.request store = .error e) ∨ call.void? ≠ none) := by
  intro h
  obtain ⟨r, hr⟩ : ∃ r, blankWrite.request plainStore = .ok r := ⟨_, rfl⟩
  have hsilent : (turn plainStore blankWrite (.start [])).exchanges = [] :=
    (sound_turn plainStore blankWrite (.start [])).silent.mpr (.inr (.inr rfl))
  rcases (h plainStore blankWrite (.start []) (by decide)).mp hsilent with ⟨e, he⟩ | hvoid
  · exact nomatch hr.symm.trans he
  · exact hvoid rfl

end StoreCall

end Depot
