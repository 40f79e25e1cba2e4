import Depot.Proofs.Queue.History

/-!
# Known URLs — where they come from

The main result, **`urls_provenance`**, is that after any calls, in whatever way the service answered
them, the entry of every name is the latest one that the history gives, and that whatever is called
next is **`Accounted`**: it looks a URL up exactly when it needs one that is not there, what it sends
carries the entry of that moment, and it leaves every entry that is not its own.
-/

namespace Depot

/-- The request of a moment. -/
def Moment.request? : Moment → Option Request
  | ⟨_, .exchange r _⟩ => some r
  | ⟨_, .finish _⟩ => none

namespace QueueCall

/-- The name that a call is about. -/
def name? : QueueCall → Option String
  | .create name => some name
  | .delete name => some name
  | .clear name => some name
  | .url name => some name
  | .push name _ => some name
  | .pushAll name _ => some name
  | .deleteMessages name _ => some name
  | .lookUp name => some name
  | .remember name _ => some name
  | .forget name => some name
  | .list _ => none
  | .forgetAll => none

/-- A direct change of the URLs that are known. -/
def isDirect : QueueCall → Bool
  | .remember _ _ => true
  | .forget _ => true
  | .forgetAll => true
  | _ => false

/-- A call that may add a URL that it has looked up, and changes none. -/
def keepsUrls : QueueCall → Bool
  | .create _ => false
  | .delete _ => false
  | call => !call.isDirect

/-- The URLs that are known behind a call. -/
def urlsAfter (call : QueueCall) (q : QueueSession) : UrlCache := (call.perform.exec q).2.urls

end QueueCall

/-- What becomes of the URLs in a call, and which of them it sends, when the given moments have
    passed. -/
structure Accounted (past : List Moment) (call : QueueCall) (q : QueueSession) : Prop where
  /-- The URL of a name is asked for first, and only if it is needed and not there. -/
  looks : ∃ rest, call.requests q = call.lookups (fun name => latest name past) ++ rest ∧
    ∀ r ∈ rest, ∀ name, r ≠ .getQueueUrl name
  /-- A request carries the entry of its moment. -/
  carries : ∀ i r url, (call.requests q)[i]? = some r → Queue.carried? r = some url →
    ∃ name, call.needs? = some name ∧ latest name
      (past ++ call.exchanges q.session.script ((call.requests q).take i)) = some url
  /-- The entries of other names stay. -/
  others : call ≠ .forgetAll → ∀ name, call.name? ≠ some name →
    (call.urlsAfter q).find? name = q.urls.find? name
  /-- Only a creation, a deletion or a direct change replaces an entry or drops it. -/
  keeps : call.keepsUrls = true → ∀ name url, q.urls.find? name = some url →
    (call.urlsAfter q).find? name = some url
  /-- All entries stay when every request fails. -/
  failed : call.isDirect = false →
    (∀ x ∈ Session.replay q.session.script (call.requests q), ∀ reply, x.2 ≠ .reply reply) →
    ∀ name, (call.urlsAfter q).find? name = q.urls.find? name

namespace QueueCall

/-! ## Entries that stay -/

variable {call : QueueCall} {q : QueueSession} {name : String}

theorem name?_of_needs? (h : call.needs? = some name) : call.name? = some name := by
  -- Only an empty list of messages or entries needs no URL although it has a name.
  cases call with
  | pushAll other messages =>
      cases messages with
      | nil => exact nomatch h
      | cons m rest => exact h
  | deleteMessages other entries =>
      cases entries with
      | nil => exact nomatch h
      | cons entry rest => exact h
  | _ => first | exact h | exact nomatch h

/-- A name is sent to look it up, when it has no entry, or to create its queue. -/
theorem Performs.named {rs : List Request} (h : call.Performs q rs) {r : Request} (hr : r ∈ rs)
    (hname : r.named? = some name) :
    (call.needs? = some name ∧ q.urls.find? name = none) ∨ call = .create name := by
  obtain ⟨rest, rfl, hrest⟩ := h.looks
  rcases List.mem_append.mp hr with hr | hr
  · rw [lookups] at hr
    split at hr
    · split at hr
      · rename_i other hneeds hfind
        obtain rfl := List.mem_singleton.mp hr
        obtain rfl := Option.some.inj hname
        exact .inl ⟨hneeds, hfind⟩
      · cases hr
    · cases hr
  · exact .inr (hrest r hr name hname).2

/-- An entry stays when neither an answer nor the end of the call sets it. -/
theorem Performs.unchanged {rs : List Request} (h : call.Performs q rs)
    (hexchange : ∀ x ∈ Session.replay q.session.script rs, x.1.named? = some name →
      Queue.given? x.2 = none)
    (hfinish : Moment.sets name ⟨call, .finish (call.perform.exec q).1.isOk⟩ = none) :
    (call.urlsAfter q).find? name = q.urls.find? name := by
  rw [urlsAfter, h.entries, latestFrom_append, latestFrom_cons, latestFrom_nil, hfinish]
  refine latestFrom_eq_self (fun m hm => ?_) _
  obtain ⟨x, hx, rfl⟩ := List.mem_map.mp hm
  rw [sets_exchange]
  split
  · rename_i hname
    rw [hexchange x hx hname]
    rfl
  · rfl

theorem sets_finish_of_name? (hall : call ≠ .forgetAll) (hname : call.name? ≠ some name)
    (succeeded : Bool) : Moment.sets name ⟨call, .finish succeeded⟩ = none := by
  cases call with
  | delete other => exact if_neg fun h => hname (congrArg some h.1)
  | remember other target => exact if_neg fun h => hname (congrArg some h)
  | forget other => exact if_neg fun h => hname (congrArg some h)
  | forgetAll => exact absurd rfl hall
  | _ => rfl

/-- A call leaves the entries of other names, unless it forgets them all. -/
theorem find?_urlsAfter_of_name? (hall : call ≠ .forgetAll) (hname : call.name? ≠ some name) :
    (call.urlsAfter q).find? name = q.urls.find? name := by
  refine (performs call q).unchanged (fun x hx hx' => absurd ?_ hname)
    (sets_finish_of_name? hall hname _)
  rcases (performs call q).named (Session.mem_of_mem_replay hx) hx' with ⟨hneeds, -⟩ | rfl
  · exact name?_of_needs? hneeds
  · rfl

/-- A call that keeps the URLs leaves every entry that there is. -/
theorem find?_urlsAfter_of_keepsUrls (hkeeps : call.keepsUrls = true) {url : String}
    (hfind : q.urls.find? name = some url) : (call.urlsAfter q).find? name = some url := by
  refine ((performs call q).unchanged (fun x hx hx' => ?_) ?_).trans hfind
  · rcases (performs call q).named (Session.mem_of_mem_replay hx) hx' with ⟨-, hnone⟩ | rfl
    · exact nomatch hfind.symm.trans hnone
    · exact nomatch hkeeps
  · cases call <;> first | rfl | exact nomatch hkeeps

theorem exists_reply_of_delete (h : ((delete name).perform.exec q).1.isOk = true) :
    ∃ x ∈ Session.replay q.session.script ((delete name).requests q), ∃ reply,
      x.2 = .reply reply := by
  have hexec := exec_delete name q
  have hok : ((Queue.url name >>= fun u => QueueRun.ask (.deleteQueue u)).exec q).1.isOk = true ∧
      ((delete name).perform.exec q).2.session
        = ((Queue.url name >>= fun u => QueueRun.ask (.deleteQueue u)).exec q).2.session := by
    rw [hexec] at h ⊢
    cases hask : (Queue.url name >>= fun u => QueueRun.ask (.deleteQueue u)).exec q with
    | mk result next =>
        rw [hask] at h
        cases result with
        | ok reply => exact ⟨rfl, rfl⟩
        | error e => exact nomatch h
  obtain ⟨rs, hsession, hreply⟩ := Queue.exists_reply_of_isOk (fun _ => rfl) hok.1
  have hrs : (delete name).requests q = rs := by
    rw [requests, hok.2, hsession]
    exact List.drop_left
  rwa [hrs]

/-- A call without a reply leaves every entry, unless it is made to change the entries. -/
theorem find?_urlsAfter_of_failed (hdirect : call.isDirect = false)
    (hfailed : ∀ x ∈ Session.replay q.session.script (call.requests q), ∀ reply,
      x.2 ≠ .reply reply) : (call.urlsAfter q).find? name = q.urls.find? name := by
  refine (performs call q).unchanged (fun x hx _ => ?_) ?_
  · cases hanswer : x.2 with
    | reply reply => exact absurd hanswer (hfailed x hx reply)
    | _ => rfl
  · -- Without a reply not even a deletion can have succeeded.
    cases call with
    | delete other =>
        refine if_neg fun h => ?_
        obtain ⟨x, hx, reply, hreply⟩ := exists_reply_of_delete h.2
        exact hfailed x hx reply hreply
    | remember other target => exact nomatch hdirect
    | forget other => exact nomatch hdirect
    | forgetAll => exact nomatch hdirect
    | _ => rfl

/-- **Whatever is called is accounted for**, when the entries are the latest ones. -/
theorem accounted {past : List Moment} (hpast : ∀ name, q.urls.find? name = latest name past)
    (call : QueueCall) : Accounted past call q := by
  have hperforms := performs call q
  constructor
  case looks =>
    obtain ⟨rest, heq, hrest⟩ := hperforms.looks
    refine ⟨rest, ?_, ?_⟩
    · rwa [funext hpast] at heq
    · rintro r hr name rfl
      exact nomatch (hrest _ hr name rfl).1
  case carries =>
    intro i r url hr hurl
    obtain ⟨name, hneeds, hentry⟩ := hperforms.carries i r url hr hurl
    refine ⟨name, hneeds, ?_⟩
    rw [latest, latestFrom_append, ← latest, ← hpast]
    exact hentry
  case others =>
    intro hall name hname
    exact find?_urlsAfter_of_name? hall hname
  case keeps =>
    intro hkeeps name url hfind
    exact find?_urlsAfter_of_keepsUrls hkeeps hfind
  case failed =>
    intro hdirect hfailed name
    exact find?_urlsAfter_of_failed hdirect hfailed

/-! ## Runs -/

theorem request?_moments (call : QueueCall) (q : QueueSession) :
    (call.moments q).filterMap Moment.request? = call.requests q := by
  rw [moments, exchanges, List.filterMap_append, List.filterMap_map]
  have hfst : Moment.request? ∘ (fun x : Request × Response => ⟨call, .exchange x.1 x.2⟩)
      = some ∘ Prod.fst := rfl
  have hend : [(⟨call, .finish (call.perform.exec q).1.isOk⟩ : Moment)].filterMap Moment.request?
      = [] := rfl
  rw [hfst, hend, List.append_nil, List.filterMap_eq_map, Session.map_fst_replay]

/-- One call after the other leaves the latest entries. -/
theorem find?_performAll (calls : List QueueCall) (q : QueueSession) (name : String) :
    (performAll calls q).2.urls.find? name
      = latestFrom name (q.urls.find? name) (history calls q) := by
  induction calls generalizing q with
  | nil => rfl
  | cons call rest ih =>
      show (performAll rest (call.perform.exec q).2).2.urls.find? name = _
      rw [ih, history, latestFrom_append, (performs call q).entries]
      rfl

/-- The requests in the history of a run are those that the run sends. -/
theorem sent_performAll (calls : List QueueCall) (q : QueueSession) :
    (performAll calls q).2.session.sent
      = q.session.sent ++ (history calls q).filterMap Moment.request? := by
  induction calls generalizing q with
  | nil => exact (List.append_nil _).symm
  | cons call rest ih =>
      show (performAll rest (call.perform.exec q).2).2.session.sent = _
      rw [ih, history, List.filterMap_append, request?_moments, ← List.append_assoc,
        (performs call q).session]
      rfl

/-- **Where known URLs come from.** After any calls and any answers, and with any supply of ids, the
entry of every name is the latest one of the history, the history has every request that was sent,
and whatever is called next is accounted for. -/
theorem urls_provenance (ids : Nat → String) (script : List (Request → Response))
    (calls : List QueueCall) :
    let q := (performAll calls (.opening ids script)).2
    let past := history calls (.opening ids script)
    (∀ name, q.urls.find? name = latest name past) ∧
      q.session.sent = past.filterMap Moment.request? ∧
      ∀ call, Accounted past call q := by
  have hentries (name : String) : (performAll calls (.opening ids script)).2.urls.find? name
      = latest name (history calls (.opening ids script)) := find?_performAll calls _ name
  exact ⟨hentries, sent_performAll calls _, accounted hentries⟩

end QueueCall

end Depot
