import Depot.Proofs.Document
import Depot.Proofs.Queue.Exchange

/-!
# Listings — every page once

A listing asks for one page after the other, each behind the token of the page before it, up to the
first response that has no token. Which responses these are is said by **`PagesUpTo`**: pages that
have a token, and the response that ends the listing, be it the last page or an error. One turn of the
loop is `pages_eq`, and the whole loop follows from it by induction on the pages (`pages_eq_of_pagesUpTo`).

The main result, **`every_page_once`**, is that every listing ends, and that it asks for each page once
and gives the URLs of all of them in order, or none if the last response is an error (**`Listed`**).
-/

namespace Depot

namespace Queue

open QueueRun

/-- The requests for pages: the first one has the given token, and each later one that of the page
    before it. -/
def pageRequests (startingWith token : Option String) (before : List Reply) : List Request :=
  (token :: before.map (·.nextToken)).map (.listQueues startingWith)

/-- The responses to the requests for pages, up to the first one that has no token. -/
structure PagesUpTo (startingWith token : Option String) (script : List (Request → Response))
    (before : List Reply) (last : Response) : Prop where
  /-- The pages come before the last response. -/
  responses : (Session.replay script (pageRequests startingWith token before)).map (·.2)
    = before.map .reply ++ [last]
  /-- Each of the pages has a token. -/
  goesOn : ∀ page ∈ before, page.nextToken ≠ none
  /-- The last response is an error, or a page that has none. -/
  ends : ∀ page, last = .reply page → page.nextToken = none

variable {startingWith token : Option String} {script : List (Request → Response)}
  {before : List Reply} {last : Response}

theorem pageRequests_cons (page : Reply) :
    pageRequests startingWith token (page :: before)
      = .listQueues startingWith token :: pageRequests startingWith page.nextToken before := rfl

/-- The first page is the last one when it is no reply or has no token. -/
theorem pagesUpTo_nil_iff : PagesUpTo startingWith token script [] last ↔
    Session.answerTo script (.listQueues startingWith token) = last ∧
      ∀ page, last = .reply page → page.nextToken = none := by
  constructor
  · intro h
    exact ⟨List.singleton_inj.mp h.responses, h.ends⟩
  · rintro ⟨hanswer, hends⟩
    exact ⟨congrArg ([·]) hanswer, (fun _ hpage => nomatch hpage), hends⟩

/-- There are pages behind the first one when it is a reply with a token, and they start at that
    token. -/
theorem pagesUpTo_cons_iff {page : Reply} :
    PagesUpTo startingWith token script (page :: before) last ↔
      Session.answerTo script (.listQueues startingWith token) = .reply page ∧
        page.nextToken ≠ none ∧
        PagesUpTo startingWith page.nextToken script.tail before last := by
  constructor
  · intro h
    obtain ⟨hanswer, hrest⟩ := List.cons.inj h.responses
    exact ⟨hanswer, h.goesOn page List.mem_cons_self, hrest,
      fun other hother => h.goesOn other (List.mem_cons_of_mem page hother), h.ends⟩
  · rintro ⟨hanswer, htoken, hrest⟩
    refine ⟨?_, List.forall_mem_cons.mpr ⟨htoken, hrest.goesOn⟩, hrest.ends⟩
    show Session.answerTo script (.listQueues startingWith token) :: _ = _
    rw [hanswer]
    exact congrArg (Response.reply page :: ·) hrest.responses

/-- Responses that come whatever is asked are pages up to the first one that has no token. -/
theorem pagesUpTo_of_responses {rest : List Response}
    (hscript : script = (before.map Response.reply ++ last :: rest).map fun response _ => response)
    (hgoesOn : ∀ page ∈ before, page.nextToken ≠ none)
    (hends : ∀ page, last = .reply page → page.nextToken = none) :
    PagesUpTo startingWith token script before last := by
  subst hscript
  induction before generalizing token with
  | nil => exact pagesUpTo_nil_iff.mpr ⟨rfl, hends⟩
  | cons page before ih =>
      obtain ⟨htoken, hrest⟩ := List.forall_mem_cons.mp hgoesOn
      exact pagesUpTo_cons_iff.mpr ⟨rfl, htoken, ih hrest⟩

/-! ## The loop -/

/-- **One turn of the loop**: one request, and what its response means. -/
theorem pages_eq (startingWith token : Option String) (script : List (Request → Response)) :
    pages startingWith script token
      = match (Session.answerTo script (.listQueues startingWith token)).outcome .listQueues with
        | .error fault => (.error fault, [.listQueues startingWith token], script.tail)
        | .ok page => match page.nextToken with
          | none => (.ok page.queueUrls, [.listQueues startingWith token], script.tail)
          | some next =>
            let (urls, sent, left) := pages startingWith script.tail (some next)
            (urls.map (page.queueUrls ++ ·), .listQueues startingWith token :: sent, left) := by
  cases script <;> rfl

/-- **The whole loop** over the pages up to the first response without a token. -/
theorem pages_eq_of_pagesUpTo (h : PagesUpTo startingWith token script before last) :
    pages startingWith script token
      = ((last.outcome .listQueues).map fun page => (before ++ [page]).flatMap (·.queueUrls),
        pageRequests startingWith token before, script.drop (before.length + 1)) := by
  induction before generalizing token script with
  | nil =>
      obtain ⟨hanswer, hends⟩ := pagesUpTo_nil_iff.mp h
      rw [pages_eq, hanswer, ← List.drop_one]
      cases last with
      | reply page =>
          simp only [Response.outcome, hends page rfl]
          rw [Except.map, List.nil_append, List.flatMap_singleton]
          rfl
      | _ => rfl
  | cons page before ih =>
      obtain ⟨hanswer, htoken, hrest⟩ := pagesUpTo_cons_iff.mp h
      obtain ⟨next, hnext⟩ := Option.ne_none_iff_exists'.mp htoken
      rw [hnext] at hrest
      rw [pages_eq, hanswer]
      simp only [Response.outcome, hnext]
      rw [ih hrest, List.drop_tail, pageRequests_cons, hnext]
      cases last <;> rfl

/-- **Every listing ends**, since the answers that are left run out. -/
theorem exists_pagesUpTo (startingWith token : Option String)
    (script : List (Request → Response)) :
    ∃ before last, PagesUpTo startingWith token script before last := by
  induction script generalizing token with
  | nil => exact ⟨[], .reply .blank, pagesUpTo_nil_iff.mpr ⟨rfl, fun page h => by cases h; rfl⟩⟩
  | cons answer rest ih =>
      cases hanswer : answer (.listQueues startingWith token) with
      | reply page =>
          cases htoken : page.nextToken with
          | none =>
              refine ⟨[], .reply page, pagesUpTo_nil_iff.mpr ⟨hanswer, ?_⟩⟩
              rintro _ ⟨⟩
              exact htoken
          | some next =>
              obtain ⟨before, last, hrest⟩ := ih (some next)
              rw [← htoken] at hrest
              refine ⟨page :: before, last, pagesUpTo_cons_iff.mpr ⟨hanswer, ?_, hrest⟩⟩
              rw [htoken]
              exact nofun
      | _ => exact ⟨[], _, pagesUpTo_nil_iff.mpr ⟨hanswer, fun _ h => nomatch h⟩⟩

/-! ## Listings -/

/-- There is one request for each page. -/
theorem length_pageRequests (startingWith token : Option String) (before : List Reply) :
    (pageRequests startingWith token before).length = before.length + 1 := by
  rw [pageRequests, List.length_map, List.length_cons, List.length_map]

/-- **A listing** asks for all pages and collects their URLs, or has the error of the last one. -/
theorem exec_list (q : QueueSession)
    (h : PagesUpTo (startingWith.filter (· ≠ "")) none q.session.script before last) :
    (list startingWith).exec q
      = (((last.outcome .listQueues).map fun page =>
          (before ++ [page]).flatMap (·.queueUrls)).mapError Error.queue,
        { q with session :=
          q.session.advance (pageRequests (startingWith.filter (· ≠ "")) none before) }) := by
  have hloop : (list startingWith).exec q
      = ((pages (startingWith.filter (· ≠ "")) q.session.script none).1.mapError Error.queue,
        { q with session :=
          ⟨(pages (startingWith.filter (· ≠ "")) q.session.script none).2.2,
            q.session.sent ++ (pages (startingWith.filter (· ≠ "")) q.session.script none).2.1⟩ }) := by
    rw [list, exec_modifyGet_bind]
    cases (pages (startingWith.filter (· ≠ "")) q.session.script none).1 <;> rfl
  rw [hloop, pages_eq_of_pagesUpTo h, Session.advance, length_pageRequests]

/-- A request for a page of a listing. -/
def Lists (r : Request) : Prop := ∃ startingWith token, r = .listQueues startingWith token

/-- Every page is asked for as one of a listing. -/
theorem lists_of_mem_pageRequests : ∀ r ∈ pageRequests startingWith token before, Lists r := by
  intro r hr
  obtain ⟨token, -, rfl⟩ := List.mem_map.mp hr
  exact ⟨startingWith, token, rfl⟩

/-- A listing only asks for pages. -/
theorem sends_list (startingWith : Option String) : Sends Lists (list startingWith) := by
  intro q
  obtain ⟨before, last, h⟩ :=
    exists_pagesUpTo (startingWith.filter (· ≠ "")) none q.session.script
  rw [exec_list q h]
  exact ⟨_, rfl, rfl, lists_of_mem_pageRequests⟩

/-- What a listing does when it is answered with the given pages and the response behind them. -/
structure Listed (startingWith : Option String) (q : QueueSession) (before : List Reply)
    (last : Response) (rs : List Request) : Prop where
  /-- These requests are sent, and nothing else changes. -/
  sent : ((list startingWith).exec q).2 = { q with session := q.session.advance rs }
  /-- There is one request for each response. -/
  count : rs.length = before.length + 1
  /-- Each of them asks for a page. -/
  action : ∀ r ∈ rs, r.action = .listQueues
  /-- The first one has no token, and each later one has that of the response before it. -/
  tokens : rs.map (·.body.member? "NextToken")
    = none :: before.map fun page => page.nextToken.map .text
  /-- Each of them has the text that the names start with, unless it is empty. -/
  startsWith : ∀ r ∈ rs, ∀ j, r.body.member? "QueueNamePrefix" = some j ↔
    ∃ text, startingWith = some text ∧ text ≠ "" ∧ j = .text text
  /-- With the last page the URLs of all pages are given in order. -/
  collected : ∀ page, last = .reply page →
    ((list startingWith).exec q).1 = .ok ((before ++ [page]).flatMap (·.queueUrls))
  /-- An error is that of the whole listing. -/
  failed : ∀ fault, last.outcome .listQueues = .error fault →
    ((list startingWith).exec q).1 = .error (.queue fault)

/-- The fields of a request for a page. -/
theorem member?_body_listQueues (startingWith token : Option String) :
    (Request.listQueues startingWith token).body.member? "NextToken" = token.map .text ∧
      (Request.listQueues startingWith token).body.member? "QueueNamePrefix"
        = startingWith.map .text := by
  rw [Request.body]
  constructor
  · exact Json.member?_present (by simp) (by simp [Wire.textOf?])
  · exact Json.member?_present (by simp) (by simp [Wire.textOf?])

/-- The first request has the token to start at, and every other one that of the page before
    it. -/
theorem tokens_pageRequests (startingWith token : Option String) (before : List Reply) :
    (pageRequests startingWith token before).map (·.body.member? "NextToken")
      = (token :: before.map (·.nextToken)).map (·.map .text) := by
  rw [pageRequests, List.map_map]
  exact List.map_congr_left fun token _ => (member?_body_listQueues _ _).1

/-- The pages up to the last one account for the listing as a whole. -/
theorem listed (q : QueueSession)
    (h : PagesUpTo (startingWith.filter (· ≠ "")) none q.session.script before last) :
    Listed startingWith q before last
      (pageRequests (startingWith.filter (· ≠ "")) none before) := by
  have hexec := exec_list q h
  constructor
  case sent => rw [hexec]
  case count => exact length_pageRequests _ _ _
  case action =>
    intro r hr
    obtain ⟨_, _, rfl⟩ := lists_of_mem_pageRequests r hr
    rfl
  case tokens =>
    rw [tokens_pageRequests, List.map_cons, List.map_map]
    rfl
  case startsWith =>
    intro r hr j
    obtain ⟨token, -, rfl⟩ := List.mem_map.mp hr
    rw [(member?_body_listQueues _ _).2, Option.map_eq_some_iff]
    constructor
    · rintro ⟨text, htext, rfl⟩
      obtain ⟨hgiven, hne⟩ := Option.filter_eq_some_iff.mp htext
      exact ⟨text, hgiven, of_decide_eq_true hne, rfl⟩
    · rintro ⟨text, hgiven, hne, rfl⟩
      exact ⟨text, Option.filter_eq_some_iff.mpr ⟨hgiven, decide_eq_true hne⟩, rfl⟩
  case collected =>
    rintro page rfl
    rw [hexec]
    rfl
  case failed =>
    intro fault hfault
    rw [hexec, hfault]
    rfl

/-- **Every page is listed once.** Whatever the answers are, some response ends the listing, and the
    pages before it with the response itself say what is sent and what is given. -/
theorem every_page_once (startingWith : Option String) (q : QueueSession) :
    (∃ before last, PagesUpTo (startingWith.filter (· ≠ "")) none q.session.script before last) ∧
      ∀ before last, PagesUpTo (startingWith.filter (· ≠ "")) none q.session.script before last →
        Listed startingWith q before last
          (pageRequests (startingWith.filter (· ≠ "")) none before) :=
  ⟨exists_pagesUpTo _ none _, fun _ _ h => listed q h⟩

/-- A page with an empty token, and one without a URL. -/
def earlierPages : List Reply :=
  [{ Reply.blank with queueUrls := ["https://queues/jobs"], nextToken := some "" },
    { Reply.blank with nextToken := some "next" }]

/-- A page without a token. -/
def lastPage : Reply := { Reply.blank with queueUrls := ["https://queues/jobs-late"] }

/-- The earlier pages, something behind them, and one page more. -/
def answeredWith (last : Response) : QueueSession :=
  .start ((earlierPages.map Response.reply ++ [last, .reply lastPage]).map fun response _ => response)

theorem every_page_once_answeredWith :
    ((list (some "jobs")).exec (answeredWith (.reply lastPage))).1
        = .ok ["https://queues/jobs", "https://queues/jobs-late"] ∧
      ((list (some "jobs")).exec (answeredWith (.reply lastPage))).2.session.sent
        = [none, some "", some "next"].map (.listQueues (some "jobs")) ∧
      ((list (some "")).exec (answeredWith .dropped)).1 = .error (.queue .unreachable) ∧
      ((list (some "")).exec (answeredWith .dropped)).2.session.sent
        = [none, some "", some "next"].map (.listQueues none) := by
  have hgoesOn : ∀ page ∈ earlierPages, page.nextToken ≠ none := by decide
  have hpages := (every_page_once (some "jobs") (answeredWith (.reply lastPage))).2 earlierPages
    (.reply lastPage) (pagesUpTo_of_responses rfl hgoesOn (by rintro _ ⟨⟩; rfl))
  have hdropped := (every_page_once (some "") (answeredWith .dropped)).2 earlierPages .dropped
    (pagesUpTo_of_responses rfl hgoesOn fun _ h => nomatch h)
  refine ⟨hpages.collected _ rfl, ?_, hdropped.failed _ rfl, ?_⟩
  · rw [hpages.sent]
    rfl
  · rw [hdropped.sent]
    rfl

end Queue

end Depot
