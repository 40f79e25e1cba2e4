import Depot.Proofs.Session
import Depot.Queue.Call

/-!
# Exchanges on queues — what a computation sends and what it is answered

A computation that only sends requests of one kind and leaves the known URLs as they are is described
by **`QueueRun.Sends`**, which is closed under sequencing (`Sends.bind`). So are the batches of
messages, whose recursion is followed here once (`sends_pushBatches`, `sends_deleteBatches`).
-/

namespace Depot

namespace QueueRun

variable {α β : Type}

/-- Two steps run one after the other, and the second one only if the first one succeeds. -/
theorem exec_bind (x : QueueRun α) (f : α → QueueRun β) (q : QueueSession) :
    (x >>= f).exec q = match x.exec q with
      | (.ok a, next) => (f a).exec next
      | (.error e, next) => (.error e, next) := by
  have hbind : (x >>= f).exec q = ExceptT.bindCont f (x.exec q).1 (x.exec q).2 := rfl
  rw [hbind]
  cases x.exec q with
  | mk result next => cases result <;> rfl

theorem exec_modifyGet_bind (f : QueueSession → α × QueueSession) (g : α → QueueRun β)
    (q : QueueSession) : (modifyGet f >>= g).exec q = (g (f q).1).exec (f q).2 := rfl

/-- A request that can be sent is sent, and its outcome is handed on as it is. -/
theorem exec_attempt {r : Request} (hr : r.isSendable = true) (q : QueueSession) :
    (attempt r).exec q = (.ok ((Session.answerTo q.session.script r).outcome r.action),
      { q with session := q.session.advance [r] }) := by
  show (Except.ok (q.session.send r).1, { q with session := (q.session.send r).2 }) = _
  rw [Session.send_eq hr]

/-- A request that can be sent is sent, and a refusal is an error of the queue service. -/
theorem exec_ask {r : Request} (hr : r.isSendable = true) (q : QueueSession) :
    (ask r).exec q = (match (Session.answerTo q.session.script r).outcome r.action with
      | .ok reply => .ok reply
      | .error fault => .error (.queue fault), { q with session := q.session.advance [r] }) := by
  rw [ask, exec_bind, exec_attempt hr]
  cases (Session.answerTo q.session.script r).outcome r.action <;> rfl

/-! ## Requests of one kind -/

/-- A computation that sends requests of one kind only and leaves the known URLs as they are. -/
def Sends (P : Request → Prop) (x : QueueRun α) : Prop :=
  ∀ q, ∃ rs, (x.exec q).2.session = q.session.advance rs ∧ (x.exec q).2.urls = q.urls ∧
    ∀ r ∈ rs, P r

variable {P : Request → Prop}

theorem sends_pure (a : α) : Sends P (pure a : QueueRun α) :=
  fun _ => ⟨[], (Session.advance_nil _).symm, rfl, fun _ hr => nomatch hr⟩

theorem sends_throw (e : Error) : Sends P (throw e : QueueRun α) :=
  fun _ => ⟨[], (Session.advance_nil _).symm, rfl, fun _ hr => nomatch hr⟩

/-- **Two steps** send nothing but what one of them sends. -/
theorem Sends.bind {x : QueueRun α} {f : α → QueueRun β} (hx : Sends P x)
    (hf : ∀ a, Sends P (f a)) : Sends P (x >>= f) := by
  intro q
  obtain ⟨rs, hsession, hurls, hrs⟩ := hx q
  rw [exec_bind]
  cases h : x.exec q with
  | mk result next =>
      rw [h] at hsession hurls
      cases result with
      | error e => exact ⟨rs, hsession, hurls, hrs⟩
      | ok a =>
          obtain ⟨rs', hsession', hurls', hrs'⟩ := hf a next
          refine ⟨rs ++ rs', ?_, hurls'.trans hurls, ?_⟩
          · rw [← Session.advance_append, ← hsession]
            exact hsession'
          · intro r hr
            rcases List.mem_append.mp hr with hr | hr
            · exact hrs r hr
            · exact hrs' r hr

theorem sends_attempt {r : Request} (hr : r.isSendable = true) (hP : P r) :
    Sends P (attempt r) := by
  intro q
  rw [exec_attempt hr]
  exact ⟨[r], rfl, rfl, fun r' hr' => List.mem_singleton.mp hr' ▸ hP⟩

theorem sends_ask {r : Request} (hr : r.isSendable = true) (hP : P r) : Sends P (ask r) := by
  refine (sends_attempt hr hP).bind fun outcome => ?_
  cases outcome with
  | ok reply => exact sends_pure reply
  | error fault => exact sends_throw _

end QueueRun

namespace Queue

open QueueRun

/-- The URL of a queue that a request carries. -/
def carried? : Request → Option String
  | .deleteQueue url => some url
  | .purgeQueue url => some url
  | .sendMessage url _ _ => some url
  | .sendMessageBatch url _ => some url
  | .deleteMessageBatch url _ => some url
  | _ => none

/-- A request that carries the given URL. -/
def Carries (url : String) (r : Request) : Prop := carried? r = some url

theorem sends_pushBatches (known : String) (bs : List (List PushEntry)) :
    Sends (Carries known) (pushBatches known bs) := by
  induction bs with
  | nil => exact sends_pure _
  | cons entries rest ih =>
      have hpush : Sends (Carries known) (attempt (.sendMessageBatch known entries)) :=
        sends_attempt rfl rfl
      rw [pushBatches]
      exact hpush.bind fun _ => ih.bind fun _ => sends_pure _

theorem sends_deleteBatches (known : String) (bs : List (List DeleteEntry)) :
    Sends (Carries known) (deleteBatches known bs) := by
  induction bs with
  | nil => exact sends_pure _
  | cons entries rest ih =>
      have hdelete : Sends (Carries known) (attempt (.deleteMessageBatch known entries)) :=
        sends_attempt rfl rfl
      rw [deleteBatches]
      exact hdelete.bind fun _ => ih.bind fun _ => sends_pure _

theorem sends_takeEntries {P : Request → Prop} (messages : List Message) :
    Sends P (takeEntries messages) :=
  fun _ => ⟨[], (Session.advance_nil _).symm, rfl, fun _ hr => nomatch hr⟩

/-! ## Looking up a URL -/

/-- The URL that a response gives. -/
def given? : Response → Option String
  | .reply r => r.queueUrl
  | _ => none

variable {α : Type} {name : String} {q : QueueSession}

/-- A URL that is known is not asked for. -/
theorem exec_url_of_known {known : String} (h : q.urls.find? name = some known) :
    (url name).exec q = (.ok known, q) := by
  have hget : (get : QueueRun QueueSession).exec q = (.ok q, q) := rfl
  rw [url, exec_bind, hget]
  dsimp only
  rw [h]
  rfl

/-- A URL that is not known is asked for, and remembered if there is one. -/
private theorem exec_url_of_unknown (h : q.urls.find? name = none) :
    (url name).exec q = (match (Session.answerTo q.session.script (.getQueueUrl name)).outcome
        .getQueueUrl with
      | .error fault => throw (if isMissing fault then .queueNotFound name else .queue fault)
      | .ok reply => match reply.queueUrl with
        | none => throw (.queueNotFound name)
        | some found => do
          remember name found
          pure found : QueueRun String).exec
        { q with session := q.session.advance [.getQueueUrl name] } := by
  have hget : (get : QueueRun QueueSession).exec q = (.ok q, q) := rfl
  rw [url, exec_bind, hget]
  dsimp only
  rw [h]
  show (attempt (.getQueueUrl name) >>= _ : QueueRun String).exec q = _
  rw [exec_bind, exec_attempt rfl]
  rfl

/-- A URL that is asked for and given is known from then on. -/
theorem exec_url_of_given {found : String} (h : q.urls.find? name = none)
    (hgiven : given? (Session.answerTo q.session.script (.getQueueUrl name)) = some found) :
    (url name).exec q = (.ok found, { q with
      session := q.session.advance [.getQueueUrl name], urls := q.urls.insert name found }) := by
  rw [exec_url_of_unknown h]
  cases hanswer : Session.answerTo q.session.script (.getQueueUrl name) with
  | reply r =>
      rw [hanswer] at hgiven
      show (match r.queueUrl with | none => _ | some found => _ : QueueRun String).exec _ = _
      rw [show r.queueUrl = some found from hgiven]
      rfl
  | _ =>
      rw [hanswer] at hgiven
      exact nomatch hgiven

/-- A URL that is asked for in vain leaves the others as they are. -/
theorem exec_url_of_not_given (h : q.urls.find? name = none)
    (hgiven : given? (Session.answerTo q.session.script (.getQueueUrl name)) = none) :
    ∃ e, (url name).exec q = (.error e, { q with
      session := q.session.advance [.getQueueUrl name] }) := by
  rw [exec_url_of_unknown h]
  cases hanswer : Session.answerTo q.session.script (.getQueueUrl name) with
  | reply r =>
      rw [hanswer] at hgiven
      refine ⟨.queueNotFound name, ?_⟩
      show (match r.queueUrl with | none => _ | some found => _ : QueueRun String).exec _ = _
      rw [show r.queueUrl = none from hgiven]
      rfl
  | refusal code detail reasons => exact ⟨_, rfl⟩
  | unreadable => exact ⟨_, rfl⟩
  | dropped => exact ⟨_, rfl⟩

/-- Resolving a URL takes no entry id. -/
theorem ids_of_exec_url {known : String} {next : QueueSession}
    (h : (url name).exec q = (.ok known, next)) : next.ids = q.ids := by
  cases hfind : q.urls.find? name with
  | some found =>
      rw [exec_url_of_known hfind] at h
      obtain rfl := (Prod.mk.inj h).2
      rfl
  | none =>
      cases hgiven : given? (Session.answerTo q.session.script (.getQueueUrl name)) with
      | some found =>
          rw [exec_url_of_given hfind hgiven] at h
          obtain rfl := (Prod.mk.inj h).2
          rfl
      | none =>
          obtain ⟨e, he⟩ := exec_url_of_not_given hfind hgiven
          rw [he] at h
          exact nomatch (Prod.mk.inj h).1

/-- What is sent, and which URLs are known at the end, when a URL is needed first. -/
inductive Looked (name : String) (q : QueueSession) : List Request → UrlCache → Prop where
  | known {known : String} {rs : List Request} : q.urls.find? name = some known →
      (∀ r ∈ rs, Carries known r) → Looked name q rs q.urls
  | found {found : String} {rs : List Request} : q.urls.find? name = none →
      given? (Session.answerTo q.session.script (.getQueueUrl name)) = some found →
      (∀ r ∈ rs, Carries found r) → Looked name q (.getQueueUrl name :: rs) (q.urls.insert name found)
  | failed : q.urls.find? name = none →
      given? (Session.answerTo q.session.script (.getQueueUrl name)) = none →
      Looked name q [.getQueueUrl name] q.urls

/-- **A URL is looked up first**, and what is sent then carries it. -/
theorem looked_url_bind {body : String → QueueRun α} (hbody : ∀ u, Sends (Carries u) (body u))
    (name : String) (q : QueueSession) :
    ∃ rs, ((url name >>= body).exec q).2.session = q.session.advance rs ∧
      Looked name q rs ((url name >>= body).exec q).2.urls := by
  rw [exec_bind]
  cases h : q.urls.find? name with
  | some known =>
      rw [exec_url_of_known h]
      obtain ⟨rs, hsession, hurls, hrs⟩ := hbody known q
      exact ⟨rs, hsession, hurls ▸ .known h hrs⟩
  | none =>
      cases hgiven : given? (Session.answerTo q.session.script (.getQueueUrl name)) with
      | some found =>
          rw [exec_url_of_given h hgiven]
          obtain ⟨rs, hsession, hurls, hrs⟩ := hbody found
            { q with session := q.session.advance [.getQueueUrl name],
                     urls := q.urls.insert name found }
          refine ⟨.getQueueUrl name :: rs, hsession.trans ?_, ?_⟩
          · exact Session.advance_append _ _ _
          · show Looked name q _ ((body found).exec _).2.urls
            rw [hurls]
            exact .found h hgiven hrs
      | none =>
          obtain ⟨e, he⟩ := exec_url_of_not_given h hgiven
          rw [he]
          exact ⟨[.getQueueUrl name], rfl, .failed h hgiven⟩

/-- A request that is sent with a URL succeeds only when some answer is a reply. -/
theorem exists_reply_of_isOk {r : String → Request} (hr : ∀ u, (r u).isSendable = true)
    (h : ((url name >>= fun u => ask (r u)).exec q).1.isOk = true) :
    ∃ rs, ((url name >>= fun u => ask (r u)).exec q).2.session = q.session.advance rs ∧
      ∃ x ∈ Session.replay q.session.script rs, ∃ reply, x.2 = .reply reply := by
  -- The reply is the answer to the request when the URL is known, and to the lookup when it is not.
  rw [exec_bind] at h ⊢
  cases hfind : q.urls.find? name with
  | some known =>
      rw [exec_url_of_known hfind] at h ⊢
      simp only [exec_ask (hr known)] at h ⊢
      refine ⟨[r known], rfl, _, List.mem_cons_self, ?_⟩
      cases hanswer : Session.answerTo q.session.script (r known) with
      | reply reply => exact ⟨reply, rfl⟩
      | _ =>
          rw [hanswer] at h
          exact nomatch h
  | none =>
      cases hgiven : given? (Session.answerTo q.session.script (.getQueueUrl name)) with
      | none =>
          obtain ⟨e, he⟩ := exec_url_of_not_given hfind hgiven
          rw [he] at h
          exact nomatch h
      | some found =>
          rw [exec_url_of_given hfind hgiven]
          simp only [exec_ask (hr found), Session.advance_append]
          refine ⟨[.getQueueUrl name] ++ [r found], rfl, _, List.mem_cons_self, ?_⟩
          cases hanswer : Session.answerTo q.session.script (.getQueueUrl name) with
          | reply reply => exact ⟨reply, rfl⟩
          | _ =>
              rw [hanswer] at hgiven
              exact nomatch hgiven

/-! ## Creating a queue -/

/-- A queue is created with one request, and its URL remembered when the answer gives it. -/
theorem create_spec (name : String) (q : QueueSession) :
    ((create name).exec q).2.session = q.session.advance [.createQueue name] ∧
      ((create name).exec q).2.urls
        = match given? (Session.answerTo q.session.script (.createQueue name)) with
          | none => q.urls
          | some found => q.urls.insert name found := by
  rw [create, exec_bind, exec_ask rfl]
  cases hanswer : Session.answerTo q.session.script (.createQueue name) with
  | reply r =>
      simp only [Response.outcome, given?]
      cases r.queueUrl <;> exact ⟨rfl, rfl⟩
  | refusal code detail reasons => exact ⟨rfl, rfl⟩
  | unreadable => exact ⟨rfl, rfl⟩
  | dropped => exact ⟨rfl, rfl⟩

end Queue

end Depot
