import Depot.Proofs.Queue.Exchange

/-!
# Reports on batches — no entry is lost or told of twice

Entries are sent in batches, and what becomes of them is told by the answers. What one exchange adds
to the report is **`Adds`**: an answer adds the entries that it takes and those that it refuses, and a
request that fails as a whole adds each of its entries as failed. What the exchanges of a call add one
after the other is **`Reports`**, and both loops over batches make such a report (`exec_loop`).

The main result, **`entries_reported`**, is that a call fails only when the URL of its queue cannot be
resolved. Otherwise all batches are sent, whatever becomes of those before, and the report tells of
every entry once, provided that every answer does so for the entries of its request.
-/

namespace Depot

namespace Queue

open QueueRun

/-! ## Batches -/

theorem flatten_pieces {α : Type} (n : Nat) (l : List α) : (pieces n l).flatten = l := by
  induction l using pieces.induct n with
  | case1 => rw [pieces, List.flatten_nil]
  | case2 a rest ih =>
      rw [pieces, List.flatten_cons, ih, List.cons_append, List.take_append_drop]

/-- End to end the batches are the list. -/
theorem flatten_batches {α : Type} (l : List α) : (batches l).flatten = l :=
  flatten_pieces (maxBatchSize - 1) l

/-! ## Reports -/

variable {α : Type}

/-- What one exchange adds to the entries that were taken and to those that were not. -/
inductive Adds (accept : Acceptance → α) : Request × Response → List α → List Failure → Prop where
  | answered (r : Request) (reply : Reply) :
      Adds accept (r, .reply reply) (reply.successful.map accept)
        (reply.failed.map fun e => ⟨some e.id, some e.code, e.detail⟩)
  | failed (r : Request) {answer : Response} {fault : Fault} :
      answer.outcome r.action = .error fault →
      Adds accept (r, answer) []
        (r.entryIds.map fun id => ⟨some id, none, some (Error.queue fault).message⟩)

/-- What exchanges add one after the other. -/
inductive Reports (accept : Acceptance → α) :
    List (Request × Response) → List α → List Failure → Prop where
  | nil : Reports accept [] [] []
  | cons {x : Request × Response} {xs : List (Request × Response)} {s ss : List α}
      {f fs : List Failure} :
      Adds accept x s f → Reports accept xs ss fs → Reports accept (x :: xs) (s ++ ss) (f ++ fs)

/-- Whether an answer tells of every entry of its request, and of each once. -/
def TellsOnce (x : Request × Response) : Prop :=
  ∀ reply, x.2 = .reply reply →
    (reply.successful.map (·.id) ++ reply.failed.map (·.id)).Perm x.1.entryIds

variable {accept : Acceptance → α} {idOf : α → Option String}

/-- One exchange adds every entry of its request once. -/
theorem Adds.perm (hid : ∀ a, idOf (accept a) = some a.id) {x : Request × Response} {s : List α}
    {f : List Failure} (h : Adds accept x s f) (hx : TellsOnce x) :
    (s.map idOf ++ f.map (·.id)).Perm (x.1.entryIds.map some) := by
  cases h with
  | answered r reply =>
      have hids : (reply.successful.map accept).map idOf
          = (reply.successful.map (·.id)).map some := by
        rw [List.map_map, List.map_map]
        exact List.map_congr_left fun a _ => hid a
      have hrefused : (reply.failed.map fun e => (⟨some e.id, some e.code, e.detail⟩ : Failure)).map
          (·.id) = (reply.failed.map (·.id)).map some := by
        rw [List.map_map, List.map_map]
        rfl
      rw [hids, hrefused, ← List.map_append]
      exact (hx reply rfl).map some
  | @failed r answer fault hfault =>
      rw [List.map_nil, List.nil_append, List.map_map]
      exact List.Perm.refl _

/-- **A report tells of every entry once** when every answer does. -/
theorem Reports.perm (hid : ∀ a, idOf (accept a) = some a.id) {xs : List (Request × Response)}
    {ss : List α} {fs : List Failure} (h : Reports accept xs ss fs) (hxs : ∀ x ∈ xs, TellsOnce x) :
    (ss.map idOf ++ fs.map (·.id)).Perm ((xs.flatMap fun x => x.1.entryIds).map some) := by
  induction h with
  | nil => exact List.Perm.refl _
  | @cons x xs s ss f fs hadds hreports ih =>
      have hhead := hadds.perm hid (hxs x List.mem_cons_self)
      have htail := ih fun y hy => hxs y (List.mem_cons_of_mem x hy)
      rw [List.map_append, List.map_append, List.flatMap_cons, List.map_append, List.append_assoc]
      -- What the later exchanges add to the first list stands in front of the first failures.
      refine List.Perm.trans ?_ (hhead.append htail)
      rw [List.append_assoc]
      refine List.Perm.append_left _ ?_
      rw [← List.append_assoc, ← List.append_assoc]
      exact List.Perm.append_right _ List.perm_append_comm

/-! ## Loops over batches -/

/-- **A loop over batches** that sends a request for each of them, and puts the part that its answer
    makes in front of what the later ones give, sends all requests and reports on all of them. -/
theorem exec_loop {β γ : Type} {loop : List β → QueueRun γ} (request : β → Request)
    (part : β → Except Fault Reply → γ) {empty : γ} {append : γ → γ → γ} {success : γ → List α}
    {failed : γ → List Failure} (hnil : loop [] = pure empty)
    (hcons : ∀ b rest, loop (b :: rest) = attempt (request b) >>= fun outcome =>
      loop rest >>= fun others => pure (append (part b outcome) others))
    (hsend : ∀ b, (request b).isSendable = true)
    (hempty : success empty = [] ∧ failed empty = [])
    (happend : ∀ o o', success (append o o') = success o ++ success o' ∧
      failed (append o o') = failed o ++ failed o')
    (hpart : ∀ b answer, Adds accept (request b, answer)
      (success (part b (answer.outcome (request b).action)))
      (failed (part b (answer.outcome (request b).action))))
    (bs : List β) (q : QueueSession) :
    ∃ outcome, (loop bs).exec q
        = (.ok outcome, { q with session := q.session.advance (bs.map request) }) ∧
      Reports accept (Session.replay q.session.script (bs.map request)) (success outcome)
        (failed outcome) := by
  induction bs generalizing q with
  | nil =>
      refine ⟨empty, ?_, ?_⟩
      · rw [hnil, List.map_nil, Session.advance_nil]
        rfl
      · rw [hempty.1, hempty.2]
        exact .nil
  | cons b rest ih =>
      obtain ⟨others, hexec, hreports⟩ := ih { q with session := q.session.advance [request b] }
      have hhead := hpart b (Session.answerTo q.session.script (request b))
      refine ⟨append (part b ((Session.answerTo q.session.script (request b)).outcome
        (request b).action)) others, ?_, ?_⟩
      · rw [hcons, exec_bind, exec_attempt (hsend b)]
        show (loop rest >>= _ : QueueRun γ).exec _ = _
        rw [exec_bind, hexec, Session.advance_append, List.map_cons, List.singleton_append]
        rfl
      · rw [(happend _ _).1, (happend _ _).2]
        refine .cons hhead ?_
        rwa [← List.drop_one]

/-- How a push tells of an entry that was taken. -/
def pushed (a : Acceptance) : PushSuccess := ⟨some a.id, a.messageId⟩

/-- **Batches of messages** are all sent, whatever is answered, and what each answer reports is
    added up in order. -/
theorem exec_pushBatches (known : String) (bs : List (List PushEntry)) (q : QueueSession) :
    ∃ outcome, (pushBatches known bs).exec q = (.ok outcome,
        { q with session := q.session.advance (bs.map (.sendMessageBatch known)) }) ∧
      Reports pushed (Session.replay q.session.script (bs.map (.sendMessageBatch known)))
        outcome.success outcome.failed := by
  refine exec_loop (.sendMessageBatch known)
    (fun entries outcome => PushOutcome.ofBatch (entries.map (·.id)) outcome) rfl
    (fun entries rest => by rw [pushBatches]) (fun _ => rfl) ⟨rfl, rfl⟩ (fun _ _ => ⟨rfl, rfl⟩)
    (fun entries answer => ?_) bs q
  cases answer with
  | reply reply => exact .answered _ reply
  | _ => exact .failed _ rfl

/-- **Batches of deletions** are all sent, whatever is answered, and what each answer reports is
    added up in order. -/
theorem exec_deleteBatches (known : String) (bs : List (List DeleteEntry)) (q : QueueSession) :
    ∃ outcome, (deleteBatches known bs).exec q = (.ok outcome,
        { q with session := q.session.advance (bs.map (.deleteMessageBatch known)) }) ∧
      Reports Acceptance.id (Session.replay q.session.script (bs.map (.deleteMessageBatch known)))
        outcome.success outcome.failed := by
  refine exec_loop (.deleteMessageBatch known)
    (fun entries outcome => DeleteOutcome.ofBatch (entries.map (·.id)) outcome) rfl
    (fun entries rest => by rw [deleteBatches]) (fun _ => rfl) ⟨rfl, rfl⟩ (fun _ _ => ⟨rfl, rfl⟩)
    (fun entries answer => ?_) bs q
  cases answer with
  | reply reply => exact .answered _ reply
  | _ => exact .failed _ rfl

/-! ## Calls -/

/-- The entries of messages, with the ids of a supply from a number on. -/
def entriesFrom (ids : Nat → String) (taken : Nat) (messages : List Message) : List PushEntry :=
  messages.mapIdx fun i m => m.entry (ids (taken + i))

/-- What becomes of the entries of the given ids when requests for them are sent in a session. -/
structure Reported (accept : Acceptance → α) (idOf : α → Option String) (ids : List String)
    (before after : Session) (rs : List Request) (success : List α) (failed : List Failure) :
    Prop where
  /-- Every request is sent, whatever became of those before it. -/
  sent : after = before.advance rs
  /-- The report is made of what each of them adds. -/
  report : Reports accept (Session.replay before.script rs) success failed
  /-- It tells of every entry once, if every answer does. -/
  once : (∀ x ∈ Session.replay before.script rs, TellsOnce x) →
    (success.map idOf ++ failed.map (·.id)).Perm (ids.map some)

/-- What is reported about exchanges tells of every id once, as long as each answer does so of its
    own request. -/
theorem Reports.reported {ids : List String} {before after : Session} {rs : List Request}
    {success : List α} {failed : List Failure} (hid : ∀ a, idOf (accept a) = some a.id)
    (hsent : after = before.advance rs) (hids : rs.flatMap Request.entryIds = ids)
    (h : Reports accept (Session.replay before.script rs) success failed) :
    Reported accept idOf ids before after rs success failed := by
  refine ⟨hsent, h, fun honce => ?_⟩
  have hperm := h.perm hid honce
  have hflat : ((Session.replay before.script rs).flatMap fun x => x.1.entryIds)
      = rs.flatMap Request.entryIds := by
    rw [← List.flatMap_map, Session.map_fst_replay]
  rwa [hflat, hids] at hperm

/-- What is read off the elements of all batches is read off the elements of the list. -/
theorem flatMap_batches {β : Type} (entries : List β) (f : β → String) :
    ((batches entries).flatMap fun b => b.map f) = entries.map f := by
  rw [List.flatMap_def, ← List.map_flatten, flatten_batches]

/-- A call that needs the URL of a queue, and then gives a result in any case, fails exactly when the
    URL cannot be resolved. -/
theorem exec_url_bind {γ : Type} {name : String} {q : QueueSession} {body : String → QueueRun γ}
    {P : String → QueueSession → γ → QueueSession → Prop}
    (hbody : ∀ known next, ∃ outcome last, (body known).exec next = (.ok outcome, last) ∧
      P known next outcome last) :
    (∀ e, ((url name >>= body).exec q).1 = .error e ↔ ((url name).exec q).1 = .error e) ∧
      ∀ known next, (url name).exec q = (.ok known, next) →
        ∃ outcome last, (url name >>= body).exec q = (.ok outcome, last) ∧
          P known next outcome last := by
  rw [exec_bind]
  constructor
  · intro e
    cases (url name).exec q with
    | mk result next =>
        cases result with
        | error fault =>
            show (Except.error fault : Except Error γ) = .error e
              ↔ (Except.error fault : Except Error String) = .error e
            rw [Except.error.injEq, Except.error.injEq]
        | ok known =>
            obtain ⟨outcome, last, hexec, -⟩ := hbody known next
            show ((body known).exec next).1 = .error e ↔ _
            rw [hexec]
            exact ⟨(fun h => nomatch h), (fun h => nomatch h)⟩
  · intro known next hurl
    rw [hurl]
    exact hbody known next

/-- **No entry of a batch is lost or told of twice**, whatever ids the entries take. Pushing messages
    and deleting received ones fail exactly when the URL of the queue cannot be resolved; otherwise all
    batches are sent and every entry is reported. -/
theorem entries_reported (name : String) (q : QueueSession) :
    (∀ messages : List Message, messages ≠ [] →
      (∀ e, ((pushAll name messages).exec q).1 = .error e ↔ ((url name).exec q).1 = .error e) ∧
      ∀ known next, (url name).exec q = (.ok known, next) →
        ∃ outcome last, (pushAll name messages).exec q = (.ok outcome, last) ∧
          Reported pushed PushSuccess.id ((entriesFrom next.ids next.taken messages).map (·.id))
            next.session last.session
            ((batches (entriesFrom next.ids next.taken messages)).map (.sendMessageBatch known))
            outcome.success outcome.failed) ∧
    ∀ entries : List DeleteEntry, entries ≠ [] →
      (∀ e, ((deleteMessages name entries).exec q).1 = .error e ↔
        ((url name).exec q).1 = .error e) ∧
      ∀ known next, (url name).exec q = (.ok known, next) →
        ∃ outcome last, (deleteMessages name entries).exec q = (.ok outcome, last) ∧
          Reported Acceptance.id some (entries.map (·.id)) next.session last.session
            ((batches entries).map (.deleteMessageBatch known)) outcome.success outcome.failed := by
  constructor
  · intro messages hne
    have hcall : pushAll name messages = url name >>= fun known =>
        takeEntries messages >>= fun entries => pushBatches known (batches entries) := by
      rw [pushAll, if_neg (by simpa using hne)]
    rw [hcall]
    refine exec_url_bind fun known next => ?_
    obtain ⟨outcome, hexec, hreports⟩ := exec_pushBatches known
      (batches (entriesFrom next.ids next.taken messages))
      { next with taken := next.taken + messages.length }
    refine ⟨outcome, _, hexec, hreports.reported (fun _ => rfl) rfl ?_⟩
    rw [List.flatMap_map]
    exact flatMap_batches _ PushEntry.id
  · intro entries hne
    have hcall : deleteMessages name entries = url name >>= fun known =>
        deleteBatches known (batches entries) := by
      rw [deleteMessages, if_neg (by simpa using hne)]
    rw [hcall]
    refine exec_url_bind fun known next => ?_
    obtain ⟨outcome, hexec, hreports⟩ := exec_deleteBatches known (batches entries) next
    refine ⟨outcome, _, hexec, hreports.reported (fun _ => rfl) rfl ?_⟩
    rw [List.flatMap_map]
    exact flatMap_batches entries DeleteEntry.id

/-- Eleven messages for a queue whose URL is known; the request for the first ten is lost. -/
def interrupted : QueueSession where
  session := .start [fun _ => .dropped, fun r => .reply
    { Reply.blank with successful := r.entryIds.map fun id => ⟨id, "accepted"⟩ }]
  urls := .ofList [("jobs", "https://queues/jobs")]
  ids := QueueSession.numberedId
  taken := 0

theorem entries_reported_interrupted :
    ∃ outcome last, (pushAll "jobs" (List.replicate 11 (.ofBody (.text "run")))).exec interrupted
        = (.ok outcome, last) ∧ last.session.sent.length = 2 ∧
      (outcome.success.map (·.id) ++ outcome.failed.map (·.id)).Perm
        ((List.range 11).map fun i => some (QueueSession.numberedId i)) := by
  obtain ⟨-, hcall⟩ := (entries_reported "jobs" interrupted).1
    (List.replicate 11 (.ofBody (.text "run"))) (List.cons_ne_nil _ _)
  obtain ⟨outcome, last, hexec, hreported⟩ := hcall "https://queues/jobs" interrupted rfl
  have hbatches : batches (entriesFrom interrupted.ids interrupted.taken
        (List.replicate 11 (.ofBody (.text "run"))))
      = [(List.range 10).map fun i => (Message.ofBody (.text "run")).entry (interrupted.ids i),
        [(Message.ofBody (.text "run")).entry (interrupted.ids 10)]] := by
    simp [batches, maxBatchSize, pieces, entriesFrom, interrupted, List.replicate, List.range,
      List.range.loop]
  rw [hbatches] at hreported
  refine ⟨outcome, last, hexec, ?_, hreported.once fun x hx => ?_⟩
  · rw [hreported.sent]
    rfl
  · -- The first answer tells of nothing, the second one of the only entry of its request.
    intro reply hreply
    rcases List.mem_cons.mp hx with rfl | hx
    · cases hreply
    · obtain rfl := List.mem_singleton.mp hx
      obtain rfl := Response.reply.inj hreply
      exact List.Perm.refl _

end Queue

end Depot
