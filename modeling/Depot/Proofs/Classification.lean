import Depot.Proofs.Failure
import Depot.Proofs.Queue.History
import Depot.Proofs.Store

/-!
# Condition failures — classified exactly

A condition that does not hold is told by a response in one of two ways, **`ConditionFailed`**: as the
error of a write of one item, or as a reason of a cancelled transaction. A result is **`Classified`**
when its error counts as a condition failure exactly if one of the responses behind it is of this kind.

Of all actions only those two kinds name the two codes (`codeName?_eq_conditionFailed`,
`codeName?_eq_transactionCancelled`), so the outcome of one response is right
(**`conditionFailed_iff_outcome`**). Sequencing keeps the classification, for the table service
(`Run.Classifies.bind`) as for the queue service (`QueueRun.Classifies.bind`). The main result,
**`classified_exactly`**, follows for every operation along its own steps.
-/

namespace Depot

/-! ## Codes -/

namespace Action

/-- Whatever name an action gives to a code stands in the table of its codes. -/
theorem mem_codes_of_codeName? {a : Action} {code name : String} (h : a.codeName? code = some name) :
    (code, name) ∈ a.codes := by
  obtain ⟨entry, hfind, rfl⟩ := Option.map_eq_some_iff.mp h
  have hcode := List.find?_some hfind
  simp only [decide_eq_true_eq] at hcode
  subst hcode
  exact List.mem_of_find?_eq_some hfind

/-- The actions that write one item. -/
def singleWrites : List Action := [putItem, deleteItem, updateItem]

/-- Only the writes of one item name the code of a failed condition, and they name no other code so.
    -/
theorem codeName?_eq_conditionFailed {a : Action} {code : String} :
    a.codeName? code = some conditionFailed ↔ a ∈ singleWrites ∧ code = conditionFailed := by
  constructor
  · intro h
    have hcodes : ∀ x ∈ a.codes, x.2 = conditionFailed →
        a ∈ singleWrites ∧ x.1 = conditionFailed := by
      cases a <;> decide
    exact hcodes _ (mem_codes_of_codeName? h) rfl
  · rintro ⟨ha, rfl⟩
    have hnames : ∀ a ∈ singleWrites, a.codeName? conditionFailed = some conditionFailed := by decide
    exact hnames a ha

/-- Only a transaction names the code of a cancellation, and it names no other code so. -/
theorem codeName?_eq_transactionCancelled {a : Action} {code : String} :
    a.codeName? code = some transactionCancelled ↔
      a = transactWriteItems ∧ code = transactionCancelled := by
  constructor
  · intro h
    have hcodes : ∀ x ∈ a.codes, x.2 = transactionCancelled →
        a = transactWriteItems ∧ x.1 = transactionCancelled := by
      cases a <;> decide
    exact hcodes _ (mem_codes_of_codeName? h) rfl
  · rintro ⟨rfl, rfl⟩
    decide

end Action

/-! ## Responses -/

/-- A response by which the service says that the condition of a write did not hold. -/
inductive ConditionFailed : Action → Response → Prop where
  /-- A write of one item has an error code of its own for it. -/
  | write {a : Action} {code : String} {detail : Option String} {reasons : List (Option String)} :
      a ∈ Action.singleWrites → ErrorCode.bare code = "ConditionalCheckFailedException" →
      ConditionFailed a (.refusal code detail reasons)
  /-- A transaction is cancelled, and a failed condition is among the reasons. -/
  | transaction {code : String} {detail : Option String} {reasons : List (Option String)} :
      ErrorCode.bare code = "TransactionCanceledException" →
      some "ConditionalCheckFailed" ∈ reasons →
      ConditionFailed .transactWriteItems (.refusal code detail reasons)

/-- A named fault is a condition failure by its name, and by its reasons if it is a cancellation. -/
theorem Fault.isConditionFailure_modelled (name : String) (detail : Option String)
    (reasons : List (Option String)) : (modelled name detail reasons).isConditionFailure = true ↔
      name = "ConditionalCheckFailedException" ∨
        name = "TransactionCanceledException" ∧ some "ConditionalCheckFailed" ∈ reasons := by
  rw [isConditionFailure, Bool.or_eq_true, Bool.and_eq_true, beq_iff_eq, beq_iff_eq,
    List.any_beq', List.contains_iff_mem]
  exact Iff.rfl

/-- Whether an action may be told that the condition of a write did not hold. -/
def Action.isConditional : Action → Bool
  | transactWriteItems => true
  | a => singleWrites.contains a

/-- An action that cannot be told of a failed condition is never told of one. -/
theorem ConditionFailed.isConditional {a : Action} {response : Response}
    (h : ConditionFailed a response) : a.isConditional = true := by
  cases h with
  | write ha hcode =>
      have hwrites : ∀ a ∈ Action.singleWrites, a.isConditional = true := by decide
      exact hwrites a ha
  | transaction hcode hreason => rfl

/-- **What a response means** to the action that asked. -/
theorem conditionFailed_iff_outcome {a : Action} {response : Response} :
    ConditionFailed a response ↔
      ∃ fault, response.outcome a = .error fault ∧ fault.isConditionFailure = true := by
  constructor
  · intro h
    cases h with
    | write ha hcode =>
        refine ⟨_, rfl, ?_⟩
        rw [Fault.ofCode, Action.codeName?_eq_conditionFailed.mpr ⟨ha, hcode⟩]
        exact (Fault.isConditionFailure_modelled _ _ _).mpr (.inl rfl)
    | transaction hcode hreason =>
        refine ⟨_, rfl, ?_⟩
        rw [Fault.ofCode, Action.codeName?_eq_transactionCancelled.mpr ⟨rfl, hcode⟩]
        exact (Fault.isConditionFailure_modelled _ _ _).mpr (.inr ⟨rfl, hreason⟩)
  · rintro ⟨fault, houtcome, hfault⟩
    cases response with
    | reply r => exact nomatch houtcome
    | unreadable =>
        obtain rfl := Except.error.inj houtcome
        exact nomatch hfault
    | dropped =>
        obtain rfl := Except.error.inj houtcome
        exact nomatch hfault
    | refusal code detail reasons =>
        obtain rfl := Except.error.inj houtcome
        rw [Fault.ofCode] at hfault
        cases hname : a.codeName? (ErrorCode.bare code) with
        | none =>
            rw [hname] at hfault
            exact nomatch hfault
        | some name =>
            rw [hname] at hfault
            rcases (Fault.isConditionFailure_modelled name detail reasons).mp hfault with rfl | ⟨rfl, hreason⟩
            · obtain ⟨ha, hcode⟩ := Action.codeName?_eq_conditionFailed.mp hname
              exact .write ha hcode
            · obtain ⟨rfl, hcode⟩ := Action.codeName?_eq_transactionCancelled.mp hname
              exact .transaction hcode hreason

/-- What a refusal tells an action is decided by the bare form of its code. -/
theorem ConditionFailed.of_bare {a : Action} {code other : String} {detail : Option String}
    {reasons : List (Option String)} (hbare : ErrorCode.bare code = ErrorCode.bare other)
    (h : ConditionFailed a (.refusal code detail reasons)) :
    ConditionFailed a (.refusal other detail reasons) := by
  cases h with
  | write ha hcode => exact .write ha (hbare ▸ hcode)
  | transaction hcode hreason => exact .transaction (hbare ▸ hcode) hreason

/-- **A qualified code is classified as its bare code**: neither a name space in front of it nor an
    address behind it makes a difference. -/
theorem conditionFailed_qualified {space code : List Char} (hspace : ':' ∉ space)
    (hsign : '#' ∉ space) (hcolon : ':' ∉ code) (hplain : '#' ∉ code) (address : List Char)
    (a : Action) (detail : Option String) (reasons : List (Option String)) :
    ConditionFailed a
        (.refusal (String.ofList (space ++ '#' :: code ++ ':' :: address)) detail reasons) ↔
      ConditionFailed a (.refusal (String.ofList code) detail reasons) := by
  have hself : ErrorCode.bare (String.ofList code) = String.ofList code := by
    refine ErrorCode.bare_eq_self ?_ ?_
    · rwa [String.toList_ofList]
    · rwa [String.toList_ofList]
  have hbare : ErrorCode.bare (String.ofList (space ++ '#' :: code ++ ':' :: address))
      = ErrorCode.bare (String.ofList code) := by
    rw [ErrorCode.bare_qualified hspace hsign hcolon, hself]
  exact ⟨ConditionFailed.of_bare hbare, ConditionFailed.of_bare hbare.symm⟩

/-! ## Results -/

/-- A result whose error counts as a condition failure exactly when one of the responses says that the
    condition of a write did not hold. -/
def Classified {α : Type} (result : Except Error α)
    (exchanges : List (Request × Response)) : Prop :=
  (∃ e, result = .error e ∧ e.isConditionFailure = true) ↔
    ∃ x ∈ exchanges, ConditionFailed x.1.action x.2

/-- An error that is no condition failure. -/
def Error.Unclassified (e : Error) : Prop := e.isConditionFailure = false

/-- Whatever keeps a request from being built is no condition failure. -/
theorem Error.OfRequest.unclassified {e : Error} (h : e.OfRequest) : e.Unclassified := by
  cases e <;> first | rfl | exact h.elim

/-- A request that cannot be built fails with no condition failure. -/
theorem FailsWith.unclassified {α : Type} {x : Except Error α} (hx : FailsWith Error.OfRequest x) :
    FailsWith Error.Unclassified x := fun e he => (hx e he).unclassified

section

variable {α β : Type} {exchanges others : List (Request × Response)}

/-- Without a response there is no condition failure, so a result is classified when its error is of
    another kind. -/
theorem classified_nil {result : Except Error α} (h : FailsWith Error.Unclassified result) :
    Classified result [] := by
  constructor
  · rintro ⟨e, he, hcondition⟩
    exact absurd hcondition (Bool.eq_false_iff.mp (h e he))
  · rintro ⟨x, hx, -⟩
    exact nomatch hx

/-- An error is classified alike whatever the type of the result is. -/
theorem Classified.error {e : Error} (h : Classified (.error e : Except Error α) exchanges) :
    Classified (.error e : Except Error β) exchanges := by
  refine Iff.trans ?_ h
  constructor
  · rintro ⟨e', he, hcondition⟩
    exact ⟨e, rfl, Except.error.inj he ▸ hcondition⟩
  · rintro ⟨e', he, hcondition⟩
    exact ⟨e, rfl, Except.error.inj he ▸ hcondition⟩

/-- The answer to one request decides. -/
theorem classified_answer (r : Request) (response : Response) :
    Classified ((response.outcome r.action).mapError Error.store) [(r, response)] := by
  have hanswer : (∃ x ∈ [(r, response)], ConditionFailed x.1.action x.2) ↔
      ConditionFailed r.action response := by
    simp only [List.mem_singleton, exists_eq_left]
  refine Iff.trans ?_ (conditionFailed_iff_outcome.symm.trans hanswer.symm)
  constructor
  · rintro ⟨e, he, hcondition⟩
    obtain ⟨fault, hfault, rfl⟩ := mapError_eq_error.mp he
    exact ⟨fault, hfault, hcondition⟩
  · rintro ⟨fault, hfault, hcondition⟩
    exact ⟨.store fault, mapError_eq_error.mpr ⟨fault, hfault, rfl⟩, hcondition⟩

/-- What goes before is a success, so the classification is that of what comes after. -/
theorem Classified.append {a : α} {result : Except Error β} (hx : Classified (.ok a) exchanges)
    (hy : Classified result others) : Classified result (exchanges ++ others) := by
  have hnone : ¬ ∃ x ∈ exchanges, ConditionFailed x.1.action x.2 := by
    intro h
    obtain ⟨e, he, -⟩ := hx.mpr h
    exact nomatch he
  refine hy.trans ?_
  constructor
  · rintro ⟨x, hx, hfailed⟩
    exact ⟨x, List.mem_append_right _ hx, hfailed⟩
  · rintro ⟨x, hx, hfailed⟩
    rcases List.mem_append.mp hx with hx | hx
    · exact absurd ⟨x, hx, hfailed⟩ hnone
    · exact ⟨x, hx, hfailed⟩

end

/-! ## The table service -/

namespace Run

variable {α β : Type}

/-- A computation whose result is classified by the responses to its requests, in every session. -/
def Classifies (x : Run α) : Prop := ∀ s, ∃ rs, (x.exec s).2 = s.advance rs ∧
  Classified (x.exec s).1 (Session.replay s.script rs)

/-- What fails without asking is classified as long as its errors are no condition failures. -/
theorem classifies_ofExcept {x : Except Error α} (h : FailsWith Error.Unclassified x) :
    Classifies (ofExcept x) :=
  fun s => ⟨[], s.advance_nil.symm, classified_nil h⟩

/-- A result that is given without asking has no error to classify. -/
theorem classifies_pure (a : α) : Classifies (pure a : Run α) :=
  classifies_ofExcept (failsWith_ok a)

/-- **One request** is classified by its response, and a request that is not sent by none. -/
theorem classifies_ask (r : Request) : Classifies (ask r) := by
  intro s
  by_cases hr : r.isSendable = true
  · refine ⟨[r], by rw [exec_ask hr], ?_⟩
    rw [exec_ask hr]
    exact classified_answer r _
  · refine ⟨[], ?_, ?_⟩
    · rw [exec_ask_of_not_sendable (Bool.eq_false_iff.mpr hr), s.advance_nil]
    · rw [exec_ask_of_not_sendable (Bool.eq_false_iff.mpr hr)]
      exact classified_nil (failsWith_error rfl)

/-- **Sequencing keeps the classification.** -/
theorem Classifies.bind {x : Run α} {f : α → Run β} (hx : Classifies x)
    (hf : ∀ a, Classifies (f a)) : Classifies (x >>= f) := by
  intro s
  obtain ⟨rs, hsession, hresult⟩ := hx s
  rw [exec_bind]
  cases h : x.exec s with
  | mk result next =>
      rw [h] at hsession hresult
      cases result with
      | error e => exact ⟨rs, hsession, hresult.error⟩
      | ok a =>
          obtain ⟨rs', hsession', hresult'⟩ := hf a next
          obtain rfl : next = s.advance rs := hsession
          refine ⟨rs ++ rs', hsession'.trans (s.advance_append rs rs'), ?_⟩
          rw [Session.replay_append]
          exact hresult.append hresult'

/-- Whatever is built, sent and read. -/
theorem classifies_asking {x : Except Error Request} (hx : FailsWith Error.OfRequest x)
    {read : Reply → Except Error α} (hread : ∀ reply, FailsWith Error.Unclassified (read reply)) :
    Classifies (asking x read) :=
  ((classifies_ofExcept hx.unclassified).bind classifies_ask).bind fun reply =>
    classifies_ofExcept (hread reply)

end Run

section

open Run

theorem Put.classifies_send (p : Put) : Classifies p.send :=
  (classifies_ofExcept p.failsWith_request.ofRequest.unclassified).bind fun _ => classifies_ask _

theorem Delete.classifies_send (d : Delete) : Classifies d.send :=
  (classifies_ofExcept d.failsWith_request.ofRequest.unclassified).bind fun _ => classifies_ask _

theorem Update.classifies_send (u : Update) : Classifies u.send :=
  (classifies_ofExcept u.failsWith_request.ofRequest.unclassified).bind fun _ => classifies_ask _

/-- A read has no condition, and none of its responses says that one failed. -/
theorem Get.classifies_send (g : Get) : Classifies g.send :=
  (classifies_ofExcept g.failsWith_request.ofRequest.unclassified).bind fun _ =>
    (classifies_ask _).bind fun _ => classifies_pure _

/-- A query has no condition that can fail, and neither has the cursor that its page gets. -/
theorem Query.classifies_send (q : Query) : Classifies q.send :=
  (classifies_ofExcept q.failsWith_request.unclassified).bind fun _ => classifies_ask _

theorem BatchPut.classifies_send (b : BatchPut) : Classifies b.send :=
  (classifies_ofExcept b.failsWith_request.ofRequest.unclassified).bind fun _ =>
    (classifies_ask _).bind fun _ => classifies_pure _

theorem BatchGet.classifies_send (b : BatchGet) : Classifies b.send :=
  (classifies_ofExcept b.failsWith_request.ofRequest.unclassified).bind fun _ => classifies_ask _

/-- The error of a transaction is a condition failure exactly when its cancellation names one. -/
theorem Transaction.classifies_send (t : Transaction) : Classifies t.send :=
  (classifies_ofExcept t.failsWith_request.unclassified).bind fun _ => classifies_ask _

end

/-! ## Decoding -/

/-- A value that does not encode is no condition failure. -/
theorem unclassified_mapError {α : Type} (x : Except ValueFault α) :
    FailsWith Error.Unclassified (x.mapError .value) :=
  (failsWith_mapError x).ofOperation.ofRequest.unclassified

theorem Cursor.unclassified_encode (key : Attributes) :
    FailsWith Error.Unclassified (encode key) := by
  have hscalars (l : List (String × AttributeValue)) :
      FailsWith Error.Unclassified (scalars l) := by
    induction l with
    | nil => exact failsWith_ok _
    | cons x rest ih =>
        rw [scalars]
        cases scalar? x.2 with
        | none => exact failsWith_error rfl
        | some scalar => exact ih.bind fun _ => failsWith_ok _
  exact (hscalars key.entries).bind fun _ => failsWith_ok _

theorem Cursor.unclassified_decode (cursor : String) :
    FailsWith Error.Unclassified (decode cursor) := by
  intro e he
  obtain ⟨layer, rfl⟩ := decode_eq_error he
  rfl

theorem Page.unclassified_cursor? (lastKey : Option Attributes) :
    FailsWith Error.Unclassified (cursor? lastKey) := by
  rw [cursor?]
  cases lastKey.bind Mapping.nonempty? with
  | none => exact failsWith_ok _
  | some key => exact (Cursor.unclassified_encode key).map _

/-- A page that cannot be read off a reply is no condition failure. -/
theorem Page.unclassified_ofReply (reply : Reply) : FailsWith Error.Unclassified (ofReply reply) :=
  (unclassified_mapError _).bind fun _ => (unclassified_cursor? _).bind fun _ => failsWith_ok _

theorem MessageBody.unclassified_ofValue (v : Value) :
    FailsWith Error.Unclassified (ofValue v) := by
  refine FailsWith.map (fun e he => ?_) _
  obtain ⟨fault, -, rfl⟩ := mapError_eq_error.mp he
  rfl

theorem StoreCall.unclassified_read (call : StoreCall) (reply : Reply) :
    FailsWith Error.Unclassified (call.read reply) := by
  cases call with
  | write tableName item => exact failsWith_ok _
  | findOne tableName pk sk =>
      rw [read, readFound]
      cases reply.item with
      | none => exact failsWith_ok _
      | some attributes => exact (unclassified_mapError _).map _
  | update tableName pk sk attributes => exact (unclassified_mapError _).map _
  | atomicUpdate tableName pk sk deltas => exact (unclassified_mapError _).map _
  | batchWrite tableName items => exact failsWith_ok _
  | batchRead tableName pairs => exact (unclassified_mapError _).map _
  | query q => exact (Page.unclassified_ofReply reply).map _
  | delete tableName pk sk => exact failsWith_ok _
  | transactWrite t => exact failsWith_ok _

/-- **Every call of a store** is classified by the one exchange that it has at most. -/
theorem StoreCall.classifies_perform (store : Store) (call : StoreCall) :
    Run.Classifies (call.perform store) := by
  cases hvoid : call.void? with
  | some result =>
      rw [perform_of_void hvoid]
      exact Run.classifies_pure result
  | none =>
      rw [perform_eq hvoid]
      exact Run.classifies_asking (failsWith_request store call) call.unclassified_read

/-! ## The queue service -/

namespace QueueRun

variable {α β : Type}

/-- A computation whose result is classified by the responses to its requests, in every session. -/
def Classifies (x : QueueRun α) : Prop := ∀ q, ∃ rs,
  (x.exec q).2.session = q.session.advance rs ∧
    Classified (x.exec q).1 (Session.replay q.session.script rs)

/-- What sends nothing and does not fail. -/
theorem classifies_of_local {x : QueueRun α}
    (h : ∀ q, ∃ a, (x.exec q).1 = .ok a ∧ (x.exec q).2.session = q.session) : Classifies x := by
  intro q
  obtain ⟨a, hresult, hsession⟩ := h q
  refine ⟨[], hsession.trans q.session.advance_nil.symm, ?_⟩
  rw [hresult]
  exact classified_nil (failsWith_ok a)

theorem classifies_pure (a : α) : Classifies (pure a : QueueRun α) :=
  classifies_of_local fun _ => ⟨a, rfl, rfl⟩

/-- An error that is no condition failure may be thrown where nothing is asked. -/
theorem classifies_throw {e : Error} (h : e.Unclassified) :
    Classifies (throw e : QueueRun α) :=
  fun q => ⟨[], q.session.advance_nil.symm, classified_nil (failsWith_error h)⟩

/-- **Sequencing keeps the classification.** -/
theorem Classifies.bind {x : QueueRun α} {f : α → QueueRun β} (hx : Classifies x)
    (hf : ∀ a, Classifies (f a)) : Classifies (x >>= f) := by
  intro q
  obtain ⟨rs, hsession, hresult⟩ := hx q
  rw [exec_bind]
  cases h : x.exec q with
  | mk result next =>
      rw [h] at hsession hresult
      cases result with
      | error e => exact ⟨rs, hsession, hresult.error⟩
      | ok a =>
          obtain ⟨rs', hsession', hresult'⟩ := hf a next
          rw [show next.session = q.session.advance rs from hsession] at hsession' hresult'
          refine ⟨rs ++ rs', hsession'.trans (q.session.advance_append rs rs'), ?_⟩
          rw [Session.replay_append]
          exact hresult.append hresult'

/-- No response to a request of the queue service says anything about a condition. -/
theorem classified_of_actions {result : Except Error α} {rs : List Request}
    (hresult : FailsWith Error.Unclassified result)
    (hrs : ∀ r ∈ rs, r.action.isConditional = false)
    (script : List (Request → Response)) : Classified result (Session.replay script rs) := by
  constructor
  · rintro ⟨e, he, hcondition⟩
    exact absurd hcondition (Bool.eq_false_iff.mp (hresult e he))
  · rintro ⟨x, hx, hfailed⟩
    exact absurd hfailed.isConditional (Bool.eq_false_iff.mp (hrs x.1 (Session.mem_of_mem_replay hx)))

/-- A request that goes on after a refusal is classified when its action has no condition. -/
theorem classifies_attempt {r : Request} (hr : r.isSendable = true)
    (haction : r.action.isConditional = false) : Classifies (attempt r) := by
  intro q
  rw [exec_attempt hr]
  refine ⟨[r], rfl, classified_of_actions (failsWith_ok _) (fun r' hr' => ?_) _⟩
  rwa [List.mem_singleton.mp hr']

/-- A request of the queue service is classified, since none of its actions has a condition. -/
theorem classifies_ask {r : Request} (hr : r.isSendable = true)
    (haction : r.action.isConditional = false) : Classifies (ask r) := by
  refine (classifies_attempt hr haction).bind fun outcome => ?_
  cases outcome with
  | ok reply => exact classifies_pure reply
  | error fault => exact classifies_throw rfl

end QueueRun

namespace Queue

open QueueRun

/-- The lookup of a URL is classified, be it known, asked for or not to be had. -/
theorem classifies_url (name : String) : Classifies (url name) := by
  have hget : Classifies (get : QueueRun QueueSession) := classifies_of_local fun q => ⟨q, rfl, rfl⟩
  refine hget.bind fun q => ?_
  cases q.urls.find? name with
  | some known => exact classifies_pure known
  | none =>
      refine (classifies_attempt rfl rfl).bind fun outcome => ?_
      cases outcome with
      | error fault =>
          refine classifies_throw ?_
          cases isMissing fault <;> rfl
      | ok reply =>
          dsimp only
          cases reply.queueUrl with
          | none => exact classifies_throw rfl
          | some found =>
              have hremember : Classifies (remember name found) :=
                classifies_of_local fun _ => ⟨(), rfl, rfl⟩
              exact hremember.bind fun _ => classifies_pure found

theorem classifies_create (name : String) : Classifies (create name) := by
  refine (classifies_ask rfl rfl).bind fun reply => ?_
  cases reply.queueUrl with
  | none => exact classifies_pure name
  | some found =>
      have hremember : Classifies (remember name found) :=
        classifies_of_local fun _ => ⟨(), rfl, rfl⟩
      exact hremember.bind fun _ => classifies_pure name

theorem classifies_pushBatches (known : String) (bs : List (List PushEntry)) :
    Classifies (pushBatches known bs) := by
  induction bs with
  | nil => exact classifies_pure _
  | cons entries rest ih =>
      rw [pushBatches]
      exact (classifies_attempt rfl rfl).bind fun _ => ih.bind fun _ => classifies_pure _

theorem classifies_deleteBatches (known : String) (bs : List (List DeleteEntry)) :
    Classifies (deleteBatches known bs) := by
  induction bs with
  | nil => exact classifies_pure _
  | cons entries rest ih =>
      rw [deleteBatches]
      exact (classifies_attempt rfl rfl).bind fun _ => ih.bind fun _ => classifies_pure _

theorem classifies_pushAll (name : String) (messages : List Message) :
    Classifies (pushAll name messages) := by
  cases messages with
  | nil => exact classifies_pure _
  | cons m rest =>
      have htake : Classifies (takeEntries (m :: rest)) :=
        classifies_of_local fun _ => ⟨_, rfl, rfl⟩
      exact (classifies_url name).bind fun known => htake.bind fun entries =>
        classifies_pushBatches known _

theorem classifies_deleteMessages (name : String) (entries : List DeleteEntry) :
    Classifies (deleteMessages name entries) := by
  cases entries with
  | nil => exact classifies_pure _
  | cons entry rest =>
      exact (classifies_url name).bind fun known => classifies_deleteBatches known _

theorem classifies_list (startingWith : Option String) : Classifies (list startingWith) := by
  intro q
  obtain ⟨before, last, h⟩ :=
    exists_pagesUpTo (startingWith.filter (· ≠ "")) none q.session.script
  rw [exec_list q h]
  refine ⟨_, rfl, classified_of_actions (fun e he => ?_) (fun r hr => ?_) _⟩
  · obtain ⟨fault, -, rfl⟩ := mapError_eq_error.mp he
    rfl
  · obtain ⟨_, _, rfl⟩ := lists_of_mem_pageRequests r hr
    rfl

end Queue

open QueueRun in
/-- **Every call of a queue** is classified along all of its exchanges. -/
theorem QueueCall.classifies_perform (call : QueueCall) : Classifies call.perform := by
  cases call with
  | create name => exact (Queue.classifies_create name).bind fun _ => classifies_pure _
  | delete name =>
      have hforget : Classifies (QueueRun.forget name) := classifies_of_local fun _ => ⟨(), rfl, rfl⟩
      have hdelete : Classifies (Queue.delete name) :=
        (Queue.classifies_url name).bind fun known => (classifies_ask rfl rfl).bind fun _ => hforget
      exact hdelete.bind fun _ => classifies_pure _
  | clear name =>
      have hclear : Classifies (Queue.clear name) :=
        (Queue.classifies_url name).bind fun known =>
          (classifies_ask rfl rfl).bind fun _ => classifies_pure _
      exact hclear.bind fun _ => classifies_pure _
  | url name => exact (Queue.classifies_url name).bind fun _ => classifies_pure _
  | push name m =>
      have hpush : Classifies (Queue.push name m) :=
        (Queue.classifies_url name).bind fun known =>
          (classifies_attempt rfl rfl).bind fun _ => classifies_pure _
      exact hpush.bind fun _ => classifies_pure _
  | pushAll name messages =>
      exact (Queue.classifies_pushAll name messages).bind fun _ => classifies_pure _
  | deleteMessages name entries =>
      exact (Queue.classifies_deleteMessages name entries).bind fun _ => classifies_pure _
  | list startingWith => exact (Queue.classifies_list startingWith).bind fun _ => classifies_pure _
  | lookUp name => exact classifies_of_local fun _ => ⟨_, rfl, rfl⟩
  | remember name target => exact classifies_of_local fun _ => ⟨_, rfl, rfl⟩
  | forget name => exact classifies_of_local fun _ => ⟨_, rfl, rfl⟩
  | forgetAll => exact classifies_of_local fun _ => ⟨_, rfl, rfl⟩

/-! ## Every operation -/

/-- The errors that count as condition failures are faults of the table service with one of two
    names. -/
theorem Error.isConditionFailure_iff {e : Error} : e.isConditionFailure = true ↔
    ∃ name detail reasons, e = .store (.modelled name detail reasons) ∧
      (name = "ConditionalCheckFailedException" ∨
        name = "TransactionCanceledException" ∧ some "ConditionalCheckFailed" ∈ reasons) := by
  constructor
  · intro h
    cases e with
    | store fault =>
        cases fault with
        | modelled name detail reasons =>
            exact ⟨name, detail, reasons, rfl,
              (Fault.isConditionFailure_modelled name detail reasons).mp h⟩
        | _ => exact nomatch h
    | _ => exact nomatch h
  · rintro ⟨name, detail, reasons, rfl, h⟩
    exact (Fault.isConditionFailure_modelled name detail reasons).mpr h

/-- The operations on the table service classify what comes of their requests. -/
structure ClassifiesSends : Prop where
  put : ∀ p : Put, Run.Classifies p.send
  delete : ∀ d : Delete, Run.Classifies d.send
  update : ∀ u : Update, Run.Classifies u.send
  get : ∀ g : Get, Run.Classifies g.send
  query : ∀ q : Query, Run.Classifies q.send
  batchPut : ∀ b : BatchPut, Run.Classifies b.send
  batchGet : ∀ b : BatchGet, Run.Classifies b.send
  transaction : ∀ t : Transaction, Run.Classifies t.send

/-- What is read without a request never fails by a condition. -/
structure UnclassifiedReads : Prop where
  page : ∀ reply, FailsWith Error.Unclassified (Page.ofReply reply)
  message : ∀ v, FailsWith Error.Unclassified (MessageBody.ofValue v)
  encoded : ∀ key, FailsWith Error.Unclassified (Cursor.encode key)
  decoded : ∀ cursor, FailsWith Error.Unclassified (Cursor.decode cursor)

/-- **Condition failures are classified exactly.** Whatever the service answers, an operation has an
    error that counts as a condition failure exactly when a response to one of its requests says so; no
    error of another kind counts, and a code counts as it would without its name space and address. -/
theorem classified_exactly :
    ClassifiesSends ∧
      (∀ store call, Run.Classifies (StoreCall.perform store call)) ∧
      (∀ call : QueueCall, QueueRun.Classifies call.perform) ∧
      UnclassifiedReads ∧
      (∀ e : Error, e.isConditionFailure = true ↔
        ∃ name detail reasons, e = .store (.modelled name detail reasons) ∧
          (name = "ConditionalCheckFailedException" ∨
            name = "TransactionCanceledException" ∧ some "ConditionalCheckFailed" ∈ reasons)) ∧
      ∀ space code address : List Char, ':' ∉ space → '#' ∉ space → ':' ∉ code → '#' ∉ code →
        ∀ (a : Action) (detail : Option String) (reasons : List (Option String)),
          ConditionFailed a
              (.refusal (String.ofList (space ++ '#' :: code ++ ':' :: address)) detail reasons) ↔
            ConditionFailed a (.refusal (String.ofList code) detail reasons) := by
  refine ⟨?sends, StoreCall.classifies_perform, QueueCall.classifies_perform, ?reads, ?errors,
    ?codes⟩
  case sends =>
    exact ⟨Put.classifies_send, Delete.classifies_send, Update.classifies_send,
      Get.classifies_send, Query.classifies_send, BatchPut.classifies_send,
      BatchGet.classifies_send, Transaction.classifies_send⟩
  case reads =>
    exact ⟨Page.unclassified_ofReply, MessageBody.unclassified_ofValue,
      Cursor.unclassified_encode, Cursor.unclassified_decode⟩
  case errors => exact fun e => Error.isConditionFailure_iff
  case codes =>
    intro space code address hspace hsign hcolon hplain
    exact conditionFailed_qualified hspace hsign hcolon hplain address

/-- A transaction that removes an item. -/
def removal : Transaction :=
  .ofOperations [.delete ⟨⟨⟨"pk", .text "a"⟩, none⟩, .ofTable "events"⟩]

/-- The removal is cancelled for several reasons, one of which is a condition. -/
def cancelled : Response :=
  .refusal "dynamodb#TransactionCanceledException" none
    [none, some "TransactionConflict", some "ConditionalCheckFailed"]

/-- The code of a failed condition in a name space and with an address. -/
def qualified : Response :=
  .refusal (String.ofList ("dynamodb".toList ++ '#' :: Action.conditionFailed.toList ++
    ':' :: "http://errors#1".toList)) none []

/-- The code of a failed condition, which a read does not model. -/
def misplaced : Response := .refusal "ConditionalCheckFailedException" none []

theorem classified_exactly_cancelled :
    (∃ e, (removal.send.exec (.start [fun _ => cancelled])).1 = .error e ∧
      e.isConditionFailure = true) ∧
      ConditionFailed .putItem qualified ∧
      ¬ ∃ e, ((StoreCall.perform ⟨"eu-west-1", "pk", "sk"⟩ (.findOne "events" "a" "b")).exec
        (.start [fun _ => misplaced])).1 = .error e ∧ e.isConditionFailure = true := by
  obtain ⟨hsends, hcalls, -, -, -, hcodes⟩ := classified_exactly
  refine ⟨?cancelled, ?qualified, ?misplaced⟩
  case cancelled =>
    obtain ⟨rs, hsession, hresult⟩ := hsends.transaction removal (.start [fun _ => cancelled])
    obtain ⟨r, hr, haction⟩ : ∃ r, (removal.send.exec (.start [fun _ => cancelled])).2.sent = [r] ∧
      r.action = .transactWriteItems := ⟨_, rfl, rfl⟩
    rw [hsession] at hr
    obtain rfl : rs = [r] := hr
    refine hresult.mpr ⟨(r, cancelled), List.mem_cons_self, ?_⟩
    rw [haction]
    exact .transaction (by decide) (by decide)
  case qualified =>
    have hcode := hcodes "dynamodb".toList Action.conditionFailed.toList "http://errors#1".toList
      (by decide) (by decide) (by decide) (by decide) .putItem none []
    exact hcode.mpr (.write (by decide) (by decide))
  case misplaced =>
    obtain ⟨rs, hsession, hresult⟩ := hcalls ⟨"eu-west-1", "pk", "sk"⟩ (.findOne "events" "a" "b")
      (.start [fun _ => misplaced])
    obtain ⟨r, hr, haction⟩ : ∃ r, ((StoreCall.perform ⟨"eu-west-1", "pk", "sk"⟩
        (.findOne "events" "a" "b")).exec (.start [fun _ => misplaced])).2.sent = [r] ∧
      r.action = .getItem := ⟨_, rfl, rfl⟩
    rw [hsession] at hr
    obtain rfl : rs = [r] := hr
    rintro h
    obtain ⟨x, hx, hfailed⟩ := hresult.mp h
    obtain rfl := List.mem_singleton.mp hx
    rw [haction] at hfailed
    exact nomatch hfailed.isConditional

end Depot
