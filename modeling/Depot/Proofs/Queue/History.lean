import Depot.Proofs.Mapping
import Depot.Proofs.Queue.Listing

/-!
# Histories of queue calls — what is sent, answered, and set

A run of calls on queues has a **`history`**: the requests that were sent with the answers they got,
and the end of every call. Of the moments of a history only some set the entry of a name
(**`Moment.sets`**): an answer that gives the URL of the queue, a direct change of the entry, and the
end of a deletion that succeeded. What the last of these left is **`latest`**.

What a single call sends, and which entries it leaves, is **`QueueCall.Performs`**; the case
analysis over the calls is made here once (`exists_performs`).
-/

namespace Depot

/-! ## Histories -/

/-- What happens in a call. -/
inductive Event where
  | exchange (r : Request) (answer : Response)
  | finish (succeeded : Bool)

/-- Something that happens in a call. -/
structure Moment where
  call : QueueCall
  event : Event

/-- The name that a request creates a queue under, or asks the URL of. -/
def Request.named? : Request → Option String
  | .createQueue name => some name
  | .getQueueUrl name => some name
  | _ => none

/-- What a moment makes of the entry of a name, if it sets it. -/
def Moment.sets (name : String) : Moment → Option (Option String)
  | ⟨_, .exchange r answer⟩ =>
      if r.named? = some name then (Queue.given? answer).map some else none
  | ⟨.remember other url, .finish _⟩ => if other = name then some (some url) else none
  | ⟨.forget other, .finish _⟩ => if other = name then some none else none
  | ⟨.forgetAll, .finish _⟩ => some none
  | ⟨.delete other, .finish succeeded⟩ => if other = name ∧ succeeded then some none else none
  | ⟨_, .finish _⟩ => none

/-- The entry of a name after some moments: the last of them that sets it decides. -/
def latestFrom (name : String) (old : Option String) (ms : List Moment) : Option String :=
  (ms.reverse.findSome? (Moment.sets name)).getD old

/-- The entry of a name after some moments, when there was none before. -/
def latest (name : String) (ms : List Moment) : Option String := latestFrom name none ms

namespace QueueCall

/-- The requests that a call sends. -/
def requests (call : QueueCall) (q : QueueSession) : List Request :=
  (call.perform.exec q).2.session.sent.drop q.session.sent.length

/-- The exchange of requests for the answers of a script. -/
def exchanges (call : QueueCall) (script : List (Request → Response)) (rs : List Request) :
    List Moment :=
  (Session.replay script rs).map fun x => ⟨call, .exchange x.1 x.2⟩

/-- What happens in a call. -/
def moments (call : QueueCall) (q : QueueSession) : List Moment :=
  call.exchanges q.session.script (call.requests q) ++
    [⟨call, .finish (call.perform.exec q).1.isOk⟩]

/-- What happens in calls one after the other. -/
def history : List QueueCall → QueueSession → List Moment
  | [], _ => []
  | call :: rest, q => call.moments q ++ history rest (call.perform.exec q).2

/-- The name whose URL a call needs. -/
def needs? : QueueCall → Option String
  | .delete name => some name
  | .clear name => some name
  | .url name => some name
  | .push name _ => some name
  | .pushAll name messages => if messages.isEmpty then none else some name
  | .deleteMessages name entries => if entries.isEmpty then none else some name
  | _ => none

end QueueCall

/-! ## The latest entry -/

theorem latestFrom_nil (name : String) (old : Option String) : latestFrom name old [] = old := rfl

/-- The entry after further moments is the one that they make of the entry before them. -/
theorem latestFrom_append (name : String) (old : Option String) (ms ms' : List Moment) :
    latestFrom name old (ms ++ ms') = latestFrom name (latestFrom name old ms) ms' := by
  rw [latestFrom, latestFrom, latestFrom, List.reverse_append, List.findSome?_append]
  cases ms'.reverse.findSome? (Moment.sets name) <;> rfl

/-- The first moment sets the entry from which the others go on, or leaves it. -/
theorem latestFrom_cons (name : String) (old : Option String) (m : Moment) (ms : List Moment) :
    latestFrom name old (m :: ms) = latestFrom name ((m.sets name).getD old) ms := by
  rw [← List.singleton_append, latestFrom_append]
  congr 1
  cases hm : m.sets name <;> simp [latestFrom, hm]

/-- Moments that do not set an entry leave it as it was. -/
theorem latestFrom_eq_self {name : String} {ms : List Moment}
    (h : ∀ m ∈ ms, m.sets name = none) (old : Option String) : latestFrom name old ms = old := by
  induction ms generalizing old with
  | nil => rfl
  | cons m ms ih =>
      rw [latestFrom_cons, h m List.mem_cons_self]
      exact ih (fun m' hm' => h m' (List.mem_cons_of_mem m hm')) old

/-- An exchange sets the entry of the name in its request to the URL in its answer, if there is one.
    -/
theorem sets_exchange (name : String) (call : QueueCall) (r : Request) (answer : Response) :
    Moment.sets name ⟨call, .exchange r answer⟩
      = if r.named? = some name then (Queue.given? answer).map some else none := by
  cases call <;> rfl

theorem sets_exchange_of_named {name : String} {r : Request} (hr : r.named? ≠ some name)
    (call : QueueCall) (answer : Response) :
    Moment.sets name ⟨call, .exchange r answer⟩ = none := by
  rw [sets_exchange, if_neg hr]

theorem sets_exchange_of_name {name : String} {r : Request} (hr : r.named? = some name)
    (other : String) (call : QueueCall) (answer : Response) :
    Moment.sets other ⟨call, .exchange r answer⟩
      = if name = other then (Queue.given? answer).map some else none := by
  rw [sets_exchange, hr]
  by_cases h : name = other
  · rw [if_pos h, if_pos (congrArg some h)]
  · rw [if_neg h, if_neg fun heq => h (Option.some.inj heq)]

/-! ## One call -/

namespace QueueCall

/-- The lookups that a call makes first: one, if it needs the URL of a name without an entry. -/
def lookups (call : QueueCall) (entry : String → Option String) : List Request :=
  match call.needs? with
  | some name => if entry name = none then [.getQueueUrl name] else []
  | none => []

/-- What a call does with the URLs, when the given requests are those that it sends. -/
structure Performs (call : QueueCall) (q : QueueSession) (rs : List Request) : Prop where
  session : (call.perform.exec q).2.session = q.session.advance rs
  entries : ∀ name, (call.perform.exec q).2.urls.find? name
    = latestFrom name (q.urls.find? name) (call.exchanges q.session.script rs ++
      [⟨call, .finish (call.perform.exec q).1.isOk⟩])
  looks : ∃ rest, rs = call.lookups q.urls.find? ++ rest ∧
    ∀ r ∈ rest, ∀ name, r.named? = some name → r = .createQueue name ∧ call = .create name
  carries : ∀ i r url, rs[i]? = some r → Queue.carried? r = some url →
    ∃ name, call.needs? = some name ∧
      latestFrom name (q.urls.find? name) (call.exchanges q.session.script (rs.take i)) = some url

/-- A request with a URL has no name. -/
theorem named?_of_carries {url : String} {r : Request} (h : Queue.Carries url r) :
    r.named? = none := by
  cases r <;> first | rfl | exact nomatch h

theorem named?_of_lists {r : Request} (h : Queue.Lists r) : r.named? = none := by
  obtain ⟨startingWith, token, rfl⟩ := h
  rfl

theorem exchanges_cons (call : QueueCall) (script : List (Request → Response)) (r : Request)
    (rs : List Request) :
    call.exchanges script (r :: rs)
      = ⟨call, .exchange r (Session.answerTo script r)⟩ :: call.exchanges script.tail rs := rfl

/-- Exchanges without a name leave every entry. -/
theorem latestFrom_exchanges {rs : List Request} (h : ∀ r ∈ rs, r.named? = none)
    (call : QueueCall) (script : List (Request → Response)) (name : String) (old : Option String) :
    latestFrom name old (call.exchanges script rs) = old := by
  refine latestFrom_eq_self (fun m hm => ?_) old
  obtain ⟨x, hx, rfl⟩ := List.mem_map.mp hm
  have hmem : x.1 ∈ rs := by
    have := List.mem_map_of_mem (f := Prod.fst) hx
    rwa [Session.map_fst_replay] at this
  refine sets_exchange_of_named ?_ call x.2
  rw [h x.1 hmem]
  exact fun hname => nomatch hname

/-- **A lookup** and the requests with its URL set the entries that are there afterwards. -/
theorem latestFrom_looked {name : String} {q : QueueSession} {rs : List Request} {urls : UrlCache}
    (h : Queue.Looked name q rs urls) (call : QueueCall) (other : String) :
    latestFrom other (q.urls.find? other) (call.exchanges q.session.script rs)
      = urls.find? other := by
  cases h with
  | known hfind hrs =>
      exact latestFrom_exchanges (fun r hr => named?_of_carries (hrs r hr)) call _ other _
  | @found found rs hfind hgiven hrs =>
      have hrest := latestFrom_exchanges (fun r hr => named?_of_carries (hrs r hr)) call
        q.session.script.tail other
      rw [exchanges_cons, latestFrom_cons, hrest, sets_exchange_of_name rfl, hgiven,
        Mapping.find?_insert]
      split <;> rfl
  | failed hfind hgiven =>
      rw [exchanges_cons, latestFrom_cons, show call.exchanges _ [] = [] from rfl, latestFrom_nil,
        sets_exchange_of_name rfl, hgiven]
      split <;> rfl

/-- Every request that carries a URL carries the entry of its moment: the one that was there, or the
    one that the lookup in front has just set. -/
theorem carries_looked {name : String} {q : QueueSession} {rs : List Request} {urls : UrlCache}
    (h : Queue.Looked name q rs urls) (call : QueueCall) {i : Nat} {r : Request} {url : String}
    (hr : rs[i]? = some r) (hurl : Queue.carried? r = some url) :
    latestFrom name (q.urls.find? name) (call.exchanges q.session.script (rs.take i))
      = some url := by
  have hcarries {u : String} {rs' : List Request} (hrs : ∀ r ∈ rs', Queue.Carries u r)
      {j : Nat} (hj : rs'[j]? = some r) : u = url :=
    Option.some.inj ((hrs r (List.mem_of_getElem? hj)).symm.trans hurl)
  cases h with
  | known hfind hrs =>
      rw [latestFrom_exchanges fun r hr => named?_of_carries (hrs r (List.mem_of_mem_take hr)),
        hfind, hcarries hrs hr]
  | @found found rs hfind hgiven hrs =>
      cases i with
      | zero =>
          obtain rfl := Option.some.inj hr
          exact nomatch hurl
      | succ i =>
          have hnamed : ∀ r ∈ rs.take i, r.named? = none := fun r hr =>
            named?_of_carries (hrs r (List.mem_of_mem_take hr))
          have hrest := latestFrom_exchanges hnamed call q.session.script.tail name
          rw [List.take_succ_cons, exchanges_cons, latestFrom_cons, hrest, sets_exchange_of_name rfl,
            hgiven, if_pos rfl, ← hcarries hrs hr]
          rfl
  | failed hfind hgiven =>
      cases i with
      | zero =>
          obtain rfl := Option.some.inj hr
          exact nomatch hurl
      | succ i => exact nomatch hr

/-- A call looks up exactly the URL that it needs. -/
theorem looks_looked {name : String} {q : QueueSession} {rs : List Request} {urls : UrlCache}
    (h : Queue.Looked name q rs urls) {call : QueueCall} (hneeds : call.needs? = some name) :
    ∃ rest, rs = call.lookups q.urls.find? ++ rest ∧ ∀ r ∈ rest, r.named? = none := by
  have hlookups : call.lookups q.urls.find?
      = if q.urls.find? name = none then [.getQueueUrl name] else [] := by
    rw [lookups, hneeds]
  rw [hlookups]
  cases h with
  | known hfind hrs =>
      refine ⟨rs, ?_, fun r hr => named?_of_carries (hrs r hr)⟩
      rw [hfind, if_neg (Option.some_ne_none _), List.nil_append]
  | @found found rs hfind hgiven hrs =>
      refine ⟨rs, ?_, fun r hr => named?_of_carries (hrs r hr)⟩
      rw [if_pos hfind, List.singleton_append]
  | failed hfind hgiven =>
      refine ⟨[], ?_, fun r hr => nomatch hr⟩
      rw [if_pos hfind, List.append_nil]

variable {call : QueueCall} {q : QueueSession} {rs : List Request}

/-- A call that looks a URL up first is accounted for by its lookup and by its end. -/
theorem performs_of_looked {name : String} {urls : UrlCache} (hneeds : call.needs? = some name)
    (hsession : (call.perform.exec q).2.session = q.session.advance rs)
    (h : Queue.Looked name q rs urls)
    (hfinish : ∀ other, (call.perform.exec q).2.urls.find? other
      = (Moment.sets other ⟨call, .finish (call.perform.exec q).1.isOk⟩).getD (urls.find? other)) :
    call.Performs q rs := by
  constructor
  case session => exact hsession
  case entries =>
    intro other
    rw [latestFrom_append, latestFrom_looked h, latestFrom_cons, latestFrom_nil]
    exact hfinish other
  case looks =>
    obtain ⟨rest, heq, hrest⟩ := looks_looked h hneeds
    refine ⟨rest, heq, ?_⟩
    intro r hr other hname
    rw [hrest r hr] at hname
    exact nomatch hname
  case carries =>
    intro i r url hr hurl
    exact ⟨name, hneeds, carries_looked h call hr hurl⟩

/-- **A call that goes on with a URL** is accounted for, as long as it sends nothing without that
    URL. -/
theorem performs_of_bind {name : String} {body : String → QueueRun QueueResult}
    (hneeds : call.needs? = some name) (hperform : call.perform = Queue.url name >>= body)
    (hbody : ∀ u, QueueRun.Sends (Queue.Carries u) (body u))
    (hfinish : ∀ other succeeded, Moment.sets other ⟨call, .finish succeeded⟩ = none) :
    ∃ rs, call.Performs q rs := by
  obtain ⟨rs, hsession, hlooked⟩ := Queue.looked_url_bind hbody name q
  rw [← hperform] at hsession hlooked
  refine ⟨rs, performs_of_looked hneeds hsession hlooked fun other => ?_⟩
  rw [hfinish]
  rfl

/-- A call that only lists queues leaves the URLs. -/
theorem performs_of_lists (hneeds : call.needs? = none)
    (hperform : QueueRun.Sends Queue.Lists call.perform)
    (hfinish : ∀ other succeeded, Moment.sets other ⟨call, .finish succeeded⟩ = none) :
    ∃ rs, call.Performs q rs := by
  obtain ⟨rs, hsession, hurls, hrs⟩ := hperform q
  refine ⟨rs, ?_⟩
  constructor
  case session => exact hsession
  case entries =>
    intro other
    rw [latestFrom_append, latestFrom_exchanges fun r hr => named?_of_lists (hrs r hr),
      latestFrom_cons, latestFrom_nil, hfinish, hurls]
    rfl
  case looks =>
    refine ⟨rs, ?_, ?_⟩
    · rw [lookups, hneeds]
      rfl
    · intro r hr other hname
      rw [named?_of_lists (hrs r hr)] at hname
      exact nomatch hname
  case carries =>
    intro i r url hr hurl
    obtain ⟨startingWith, token, rfl⟩ := hrs r (List.mem_of_getElem? hr)
    exact nomatch hurl

/-- A call without a request is accounted for by its end. -/
theorem performs_of_local (hneeds : call.needs? = none)
    (hsession : (call.perform.exec q).2.session = q.session)
    (hfinish : ∀ other, (call.perform.exec q).2.urls.find? other
      = (Moment.sets other ⟨call, .finish (call.perform.exec q).1.isOk⟩).getD
        (q.urls.find? other)) : ∃ rs, call.Performs q rs := by
  refine ⟨[], ?_⟩
  constructor
  case session => exact hsession.trans (Session.advance_nil _).symm
  case entries =>
    intro other
    show _ = latestFrom other _ [_]
    rw [latestFrom_cons, latestFrom_nil]
    exact hfinish other
  case looks =>
    refine ⟨[], ?_, fun r hr => nomatch hr⟩
    rw [lookups, hneeds]
    rfl
  case carries => exact fun i r url hr => nomatch hr

/-- The creation of a queue sets its entry by the answer. -/
theorem performs_create (name : String) (q : QueueSession) :
    (create name).Performs q [.createQueue name] := by
  -- The call only wraps the name that a creation gives.
  have hexec : ((create name).perform.exec q).2 = ((Queue.create name).exec q).2 := by
    show ((Queue.create name >>= _ : QueueRun QueueResult).exec q).2 = _
    rw [QueueRun.exec_bind]
    cases (Queue.create name).exec q with
    | mk result next => cases result <;> rfl
  obtain ⟨hsession, hurls⟩ := Queue.create_spec name q
  constructor
  case session => exact hexec ▸ hsession
  case entries =>
    intro other
    have hfinish (b : Bool) : Moment.sets other ⟨create name, .finish b⟩ = none := rfl
    show _ = latestFrom other _ [_, _]
    rw [latestFrom_cons, latestFrom_cons, latestFrom_nil, sets_exchange_of_name rfl, hfinish, hexec,
      hurls]
    cases Queue.given? (Session.answerTo q.session.script (.createQueue name)) with
    | none =>
        rw [Option.map_none, ite_self]
        rfl
    | some found =>
        show (q.urls.insert name found).find? other = _
        rw [Mapping.find?_insert]
        by_cases hname : name = other
        · rw [if_pos hname, if_pos hname]
          rfl
        · rw [if_neg hname, if_neg hname]
          rfl
  case looks =>
    refine ⟨[.createQueue name], rfl, ?_⟩
    intro r hr other hname
    obtain rfl := List.mem_singleton.mp hr
    obtain rfl := Option.some.inj hname
    exact ⟨rfl, rfl⟩
  case carries =>
    intro i r url hr hurl
    obtain rfl := List.mem_singleton.mp (List.mem_of_getElem? hr)
    exact nomatch hurl

/-- A deletion ends by dropping the entry, unless its request came to nothing. -/
theorem exec_delete (name : String) (q : QueueSession) :
    (delete name).perform.exec q
      = match (Queue.url name >>= fun u => QueueRun.ask (.deleteQueue u)).exec q with
        | (.ok _, next) => (.ok .done, { next with urls := next.urls.erase name })
        | (.error e, next) => (.error e, next) := by
  -- Regrouped, everything up to the request is a lookup with something behind it.
  have hperform : (delete name).perform
      = (Queue.url name >>= fun u => QueueRun.ask (.deleteQueue u)) >>= fun _ =>
        QueueRun.forget name >>= fun _ => pure .done := by
    rw [bind_assoc]
    exact (bind_assoc _ _ _).trans (congrArg _ (funext fun _ => bind_assoc _ _ _))
  rw [hperform, QueueRun.exec_bind]
  cases (Queue.url name >>= fun u => QueueRun.ask (.deleteQueue u)).exec q with
  | mk result next => cases result <;> rfl

/-- The deletion of a queue drops its entry if it succeeds. -/
theorem exists_performs_delete (name : String) (q : QueueSession) :
    ∃ rs, (delete name).Performs q rs := by
  obtain ⟨rs, hsession, hlooked⟩ := Queue.looked_url_bind
    (fun u => show QueueRun.Sends (Queue.Carries u) (QueueRun.ask (.deleteQueue u)) from
      QueueRun.sends_ask rfl rfl) name q
  refine ⟨rs, performs_of_looked rfl ?_ hlooked fun other => ?_⟩
  · rw [exec_delete, ← hsession]
    cases (Queue.url name >>= fun u => QueueRun.ask (.deleteQueue u)).exec q with
    | mk result next => cases result <;> rfl
  · rw [exec_delete]
    cases (Queue.url name >>= fun u => QueueRun.ask (.deleteQueue u)).exec q with
    | mk result next =>
        cases result with
        | ok reply =>
            show (next.urls.erase name).find? other
              = (if name = other ∧ true = true then some none else none).getD (next.urls.find? other)
            rw [Mapping.find?_erase]
            by_cases hname : name = other
            · rw [if_pos hname, if_pos ⟨hname, rfl⟩]
              rfl
            · rw [if_neg hname, if_neg fun h => hname h.1]
              rfl
        | error e =>
            show next.urls.find? other
              = (if name = other ∧ false = true then some none else none).getD (next.urls.find? other)
            rw [if_neg fun h => Bool.false_ne_true h.2]
            rfl

/-- **What a call does with the URLs**, whatever the service answers. -/
theorem exists_performs (call : QueueCall) (q : QueueSession) : ∃ rs, call.Performs q rs := by
  -- Creations, listings and direct changes apart, a call is a lookup with its requests behind it.
  cases call with
  | create name => exact ⟨_, performs_create name q⟩
  | delete name => exact exists_performs_delete name q
  | clear name =>
      refine performs_of_bind rfl (bind_assoc _ _ _) (fun u => ?_) fun _ _ => rfl
      have hask : QueueRun.Sends (Queue.Carries u) (QueueRun.ask (.purgeQueue u)) :=
        QueueRun.sends_ask rfl rfl
      exact (hask.bind fun _ => QueueRun.sends_pure _).bind fun _ => QueueRun.sends_pure _
  | url name =>
      exact performs_of_bind rfl rfl (fun u => QueueRun.sends_pure _) fun _ _ => rfl
  | push name m =>
      refine performs_of_bind rfl (bind_assoc _ _ _) (fun u => ?_) fun _ _ => rfl
      have hattempt : QueueRun.Sends (Queue.Carries u)
          (QueueRun.attempt (.sendMessage u m.body.wireText m.delivery)) :=
        QueueRun.sends_attempt rfl rfl
      exact (hattempt.bind fun _ => QueueRun.sends_pure _).bind fun _ => QueueRun.sends_pure _
  | pushAll name messages =>
      cases messages with
      | nil =>
          exact performs_of_lists rfl ((QueueRun.sends_pure _).bind fun _ => QueueRun.sends_pure _)
            fun _ _ => rfl
      | cons m rest =>
          refine performs_of_bind rfl (bind_assoc _ _ _) (fun u => ?_) fun _ _ => rfl
          exact ((Queue.sends_takeEntries _).bind fun _ => Queue.sends_pushBatches u _).bind
            fun _ => QueueRun.sends_pure _
  | deleteMessages name entries =>
      cases entries with
      | nil =>
          exact performs_of_lists rfl ((QueueRun.sends_pure _).bind fun _ => QueueRun.sends_pure _)
            fun _ _ => rfl
      | cons entry rest =>
          refine performs_of_bind rfl (bind_assoc _ _ _) (fun u => ?_) fun _ _ => rfl
          exact (Queue.sends_deleteBatches u _).bind fun _ => QueueRun.sends_pure _
  | list startingWith =>
      exact performs_of_lists rfl ((Queue.sends_list startingWith).bind fun _ => QueueRun.sends_pure _)
        fun _ _ => rfl
  | lookUp name => exact performs_of_local rfl rfl fun _ => rfl
  | remember name target =>
      refine performs_of_local rfl rfl fun other => ?_
      show (q.urls.insert name target).find? other = (if name = other then _ else _ : Option _).getD _
      rw [Mapping.find?_insert]
      split <;> rfl
  | forget name =>
      refine performs_of_local rfl rfl fun other => ?_
      show (q.urls.erase name).find? other = (if name = other then _ else _ : Option _).getD _
      rw [Mapping.find?_erase]
      split <;> rfl
  | forgetAll => exact performs_of_local rfl rfl fun _ => rfl

theorem requests_eq (h : call.Performs q rs) : call.requests q = rs := by
  rw [requests, h.session]
  exact List.drop_left

/-- **Every call of a queue** is accounted for by the requests that it sends. -/
theorem performs (call : QueueCall) (q : QueueSession) : call.Performs q (call.requests q) := by
  obtain ⟨rs, h⟩ := exists_performs call q
  rwa [requests_eq h]

end QueueCall

end Depot
