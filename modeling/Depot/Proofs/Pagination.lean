import Depot.Proofs.Cursor
import Depot.Proofs.Encoding
import Depot.Proofs.Store

/-!
# Pagination — a page begins where an earlier one stopped

What a query makes of a reply is **`Reads`**: a page has a cursor exactly when the table reports a last
key with an attribute, and no cursor is the empty text, so no option drops it. In the run of a store's
calls a query sends what it asks for, and only a reply becomes a page (**`Sound`**).

The main result, **`turns_resume`**, says that every query of a run that is given the cursor of an
earlier page, by the field or by the setter and beside any other options, starts at the last key
that the table reported with that page, whatever is called between the two.
-/

namespace Depot

/-! ## Pages -/

namespace Page

/-- A reply has a last key when it reports one that has an attribute. -/
def EndsAt (reply : Reply) (key : Attributes) : Prop :=
  reply.lastEvaluatedKey = some key ∧ key.entries ≠ []

/-- A reply that ends at a key has the cursor of that key. -/
theorem cursor?_of_endsAt {reply : Reply} {key : Attributes} (h : EndsAt reply key) :
    cursor? reply.lastEvaluatedKey = (Cursor.encode key).map some := by
  rw [cursor?, h.1, Option.bind_some, Mapping.nonempty?_of_ne_nil h.2]

/-- A reply that ends at no key has no cursor, an empty key among them. -/
theorem cursor?_of_not_endsAt {reply : Reply} (h : ∀ key, ¬ EndsAt reply key) :
    cursor? reply.lastEvaluatedKey = .ok none := by
  rw [cursor?]
  cases hkey : reply.lastEvaluatedKey with
  | none => rfl
  | some key =>
      have hempty : key.entries = [] := Decidable.byContradiction fun hne => h key ⟨hkey, hne⟩
      rw [Option.bind_some, Mapping.nonempty?_eq_none_iff.mpr hempty]

/-- A page has the cursor of its reply. -/
theorem ofReply_eq_ok {reply : Reply} {p : Page} (h : ofReply reply = .ok p) :
    cursor? reply.lastEvaluatedKey = .ok p.offset := by
  obtain ⟨items, -, h⟩ := bind_eq_ok.mp h
  obtain ⟨offset, hoffset, h⟩ := bind_eq_ok.mp h
  obtain rfl := Except.ok.inj h
  exact hoffset

/-- **The cursor of a page** stands for the last key of its reply. -/
theorem decode_offset {reply : Reply} {p : Page} (h : ofReply reply = .ok p) {cursor : String}
    (hcursor : p.offset = some cursor) :
    cursor ≠ "" ∧ ∃ key, EndsAt reply key ∧ Cursor.decode cursor = .ok key := by
  have hoffset := ofReply_eq_ok h
  rw [hcursor] at hoffset
  by_cases hends : ∃ key, EndsAt reply key
  · obtain ⟨key, hends⟩ := hends
    rw [cursor?_of_endsAt hends] at hoffset
    obtain ⟨given, hgiven, heq⟩ := map_eq_ok.mp hoffset
    obtain rfl := Option.some.inj heq
    obtain ⟨hne, hdecode⟩ := Cursor.encode_eq_ok hgiven
    exact ⟨hne, key, hends, hdecode⟩
  · rw [cursor?_of_not_endsAt fun key hkey => hends ⟨key, hkey⟩] at hoffset
    exact nomatch hoffset

/-- A page has a cursor exactly when its reply ends at a key. -/
theorem isSome_offset {reply : Reply} {p : Page} (h : ofReply reply = .ok p) :
    p.offset.isSome = true ↔ ∃ key, EndsAt reply key := by
  constructor
  · intro hsome
    obtain ⟨cursor, hcursor⟩ := Option.isSome_iff_exists.mp hsome
    obtain ⟨-, key, hends, -⟩ := decode_offset h hcursor
    exact ⟨key, hends⟩
  · rintro ⟨key, hends⟩
    have hoffset := ofReply_eq_ok h
    rw [cursor?_of_endsAt hends] at hoffset
    obtain ⟨cursor, -, heq⟩ := map_eq_ok.mp hoffset
    rw [← heq]
    rfl

/-- What is made of a reply. -/
structure Reads (reply : Reply) (result : Except Error Page) : Prop where
  /-- An item without a JSON value decides the error, whatever the last key is. -/
  item : ∀ fault, Attributes.decodeAll reply.items = .error fault → result = .error (.value fault)
  /-- If there is none, an attribute of the last key that no key can have decides it. -/
  lastKey : ∀ items key, Attributes.decodeAll reply.items = .ok items →
    reply.lastEvaluatedKey = some key → (∃ x ∈ key.entries, ¬ Cursor.IsScalar x.2) →
    ∃ x ∈ key.entries, ¬ Cursor.IsScalar x.2 ∧ result = .error (.unsupportedCursorValue x.1)
  /-- Otherwise there is a page of all the items. -/
  page : ∀ items, Attributes.decodeAll reply.items = .ok items →
    (∀ key, reply.lastEvaluatedKey = some key → ∀ x ∈ key.entries, Cursor.IsScalar x.2) →
    ∃ offset, result = .ok ⟨items, offset⟩
  /-- A page has a cursor exactly when there is a last key with an attribute. -/
  cursor : ∀ p, result = .ok p → (p.offset.isSome = true ↔ ∃ key, EndsAt reply key)
  /-- No cursor is the empty text. -/
  nonempty : ∀ p, result = .ok p → p.offset ≠ some ""

/-- A page whose items decode fails for its cursor only. -/
theorem ofReply_of_decodeAll {reply : Reply} {items : List Json}
    (h : Attributes.decodeAll reply.items = .ok items) :
    ofReply reply = (cursor? reply.lastEvaluatedKey).map fun offset => ⟨items, offset⟩ := by
  rw [ofReply, h]
  cases cursor? reply.lastEvaluatedKey <;> rfl

/-- **A page is read off a reply** with the items before the cursor. -/
theorem reads_ofReply (reply : Reply) : Reads reply (ofReply reply) := by
  constructor
  case item =>
    intro fault h
    rw [ofReply, h]
    rfl
  case lastKey =>
    intro items key h hkey hbad
    have hends : EndsAt reply key := by
      refine ⟨hkey, ?_⟩
      rintro hempty
      obtain ⟨x, hx, -⟩ := hbad
      rw [hempty] at hx
      exact nomatch hx
    obtain ⟨x, hx, hnot, herror⟩ := Cursor.exists_encode_eq_error hbad
    refine ⟨x, hx, hnot, ?_⟩
    rw [ofReply_of_decodeAll h, cursor?_of_endsAt hends, herror]
    rfl
  case page =>
    intro items h hscalar
    rw [ofReply_of_decodeAll h]
    by_cases hends : ∃ key, EndsAt reply key
    · obtain ⟨key, hends⟩ := hends
      obtain ⟨cursor, hcursor, -, -⟩ := Cursor.exists_encode_eq_ok (hscalar key hends.1)
      rw [cursor?_of_endsAt hends, hcursor]
      exact ⟨some cursor, rfl⟩
    · rw [cursor?_of_not_endsAt fun key hkey => hends ⟨key, hkey⟩]
      exact ⟨none, rfl⟩
  case cursor =>
    intro p h
    exact isSome_offset h
  case nonempty =>
    intro p h hempty
    obtain ⟨hne, -⟩ := decode_offset h hempty
    exact hne rfl

end Page

/-! ## Options -/

namespace QueryOptions

/-- Options that a cursor was given to, by the field or by the setter and beside any other options.
    A setter that is given no cursor afterwards changes nothing. -/
inductive Given (cursor : String) : QueryOptions → Prop where
  | field {o : QueryOptions} : o.offset = some cursor → Given cursor o
  | setter (o : QueryOptions) : Given cursor (o.withOffset (some cursor))
  | indexName {o : QueryOptions} (name : Option String) :
      Given cursor o → Given cursor (o.withIndexName name)
  | limit {o : QueryOptions} (limit : Option Int) :
      Given cursor o → Given cursor (o.withLimit limit)
  | select {o : QueryOptions} (select : Option String) :
      Given cursor o → Given cursor (o.withSelect select)
  | ascending {o : QueryOptions} (ascending : Option Bool) :
      Given cursor o → Given cursor (o.withAscending ascending)
  | falsy {o : QueryOptions} {offset : Option String} : offset = none ∨ offset = some "" →
      Given cursor o → Given cursor (o.withOffset offset)

variable {o : QueryOptions} {cursor : String}

/-- A cursor that is not empty is set. -/
theorem offset_withOffset (hne : cursor ≠ "") :
    (o.withOffset (some cursor)).offset = some cursor := by
  show ((some cursor).filter (· ≠ "")).or o.offset = some cursor
  rw [Option.filter_some_pos (by simpa using hne)]
  rfl

/-- **A cursor that is not the empty text is not lost.** -/
theorem Given.offset (h : Given cursor o) (hne : cursor ≠ "") : o.offset = some cursor := by
  induction h with
  | field ho => exact ho
  | setter o => exact offset_withOffset hne
  | indexName _ _ ih => exact ih
  | limit _ _ ih => exact ih
  | select _ _ ih => exact ih
  | ascending _ _ ih => exact ih
  | falsy hoffset _ ih =>
      rcases hoffset with rfl | rfl
      · exact ih
      · exact ih

theorem offset_truthy (hne : cursor ≠ "") (h : o.offset = some cursor) :
    o.truthy.offset = some cursor := by
  show (((empty.withIndexName o.indexName).withLimit o.limit).withOffset o.offset).offset = _
  rw [h]
  exact offset_withOffset hne

theorem offset_truthy_of_falsy (h : o.offset = none ∨ o.offset = some "") :
    o.truthy.offset = none := by
  show (((empty.withIndexName o.indexName).withLimit o.limit).withOffset o.offset).offset = _
  rcases h with h | h
  · rw [h]
    rfl
  · rw [h]
    rfl

end QueryOptions

/-! ## Runs -/

namespace Query

/-- A query without a cursor, or with an empty one, starts where its items do. -/
theorem startKey_of_falsy {q : Query} {r : QueryRequest} (h : q.request = .ok r)
    (hoffset : q.options.offset = none ∨ q.options.offset = some "") : r.startKey = none := by
  obtain ⟨f, startKey, -, hdecode, rfl⟩ := request_eq_ok.mp h
  rw [QueryOptions.offset_truthy_of_falsy hoffset] at hdecode
  exact (Except.ok.inj hdecode).symm

/-- **A query with the cursor of a key** starts at the key. -/
theorem request_of_offset {q : Query} {cursor : String} {key : Attributes} (hne : cursor ≠ "")
    (hoffset : q.options.offset = some cursor) (hkey : Cursor.decode cursor = .ok key) :
    (∀ f, q.condition.compile = .ok f → ∃ r, q.request = .ok r) ∧
      ∀ r, q.request = .ok r → r.startKey = some key := by
  have hdecode : Cursor.decode? q.options.truthy.offset = .ok (some key) := by
    rw [QueryOptions.offset_truthy hne hoffset, Cursor.decode?, hkey]
    rfl
  constructor
  · intro f hf
    exact ⟨_, request_eq_ok.mpr ⟨f, some key, hf, hdecode, rfl⟩⟩
  · intro r hr
    obtain ⟨f, startKey, -, hstart, rfl⟩ := request_eq_ok.mp hr
    exact Except.ok.inj (hstart.symm.trans hdecode)

/-- What a query does in its turn: it sends what it asks for, and only a reply becomes a page. -/
structure Sound (q : Query) (t : StoreCall.Turn) : Prop where
  /-- The request is sent once it is built, unless the name of the table is blank. -/
  sent : ∀ r, q.request = .ok r → Text.isAllBlank q.tableName = false →
    ∃ response, t.exchanges = [(.query r, response)]
  /-- Nothing else is sent. -/
  asks : ∀ x ∈ t.exchanges, ∃ r, q.request = .ok r ∧ x.1 = .query r
  /-- The documents that are sent show what is asked. -/
  shown : ∀ r, q.request = .ok r → r.ShownIn (Request.query r).body
  /-- Without a cursor the request starts at the first item. -/
  first : q.options.offset = none ∨ q.options.offset = some "" →
    ∀ r, q.request = .ok r → r.startKey = none
  /-- A reply is read. -/
  answered : ∀ r reply, t.exchanges = [(r, .reply reply)] →
    ∃ result, Page.Reads reply result ∧ t.result = result.map .page
  /-- Whatever comes of it is a page that is read from a reply. -/
  page : ∀ result, t.result = .ok result →
    ∃ p r reply, result = .page p ∧ t.exchanges = [(r, .reply reply)]

/-- **Every query of a run** does so. -/
theorem sound_turn (store : Store) (q : Query) (s : Session) :
    q.Sound (StoreCall.turn store (.query q) s) := by
  constructor
  case sent =>
    intro r hr hname
    exact ⟨_, StoreCall.exchanges_of_request s (map_eq_ok.mpr ⟨r, hr, rfl⟩) rfl hname⟩
  case asks =>
    intro x hx
    obtain ⟨r, hr, heq⟩ := map_eq_ok.mp ((StoreCall.sound_turn store (.query q) s).asks x hx).1
    exact ⟨r, hr, heq.symm⟩
  case shown => exact fun r _ => r.shownIn_body
  case first => exact fun hoffset r hr => startKey_of_falsy hr hoffset
  case answered =>
    intro r reply hreply
    exact ⟨_, Page.reads_ofReply reply, StoreCall.result_of_reply hreply⟩
  case page =>
    intro result hresult
    obtain ⟨r, reply, hreply, hread⟩ := StoreCall.exists_reply_of_ok rfl hresult
    obtain ⟨p, -, rfl⟩ := map_eq_ok.mp hread
    exact ⟨p, r, reply, rfl, hreply⟩

/-- A query starts at the last key that an earlier turn was told, and so does its document. -/
def Resumes (q : Query) (t : StoreCall.Turn) : Prop :=
  ∃ r reply key, t.exchanges = [(r, .reply reply)] ∧ Page.EndsAt reply key ∧
    (∀ f, q.condition.compile = .ok f → ∃ r', q.request = .ok r') ∧
    ∀ r', q.request = .ok r' → r'.startKey = some key ∧
      (Request.query r').body.member? "ExclusiveStartKey" = some key.wire

/-- **A query with the cursor of a page** resumes the turn that the page came of. -/
theorem resumes_turn {store : Store} {q q' : Query} {s : Session} {p : Page} {cursor : String}
    (hp : (StoreCall.turn store (.query q) s).result = .ok (.page p))
    (hcursor : p.offset = some cursor) (hgiven : q'.options.Given cursor) :
    q'.Resumes (StoreCall.turn store (.query q) s) := by
  obtain ⟨r, reply, hreply, hread⟩ := StoreCall.exists_reply_of_ok rfl hp
  obtain ⟨page, hpage, heq⟩ := map_eq_ok.mp hread
  obtain rfl := StoreResult.page.inj heq
  obtain ⟨hne, key, hends, hkey⟩ := Page.decode_offset hpage hcursor
  obtain ⟨hbuilds, hstarts⟩ := request_of_offset hne (hgiven.offset hne) hkey
  refine ⟨r, reply, key, hreply, hends, hbuilds, fun r' hr' => ⟨hstarts r' hr', ?_⟩⟩
  rw [r'.shownIn_body.startKey, hstarts r' hr', Option.map_some]

/-- **A query that is given the cursor of an earlier page starts where that page stopped**, in runs
    of any length, with whatever answers, and whatever else is called. -/
theorem turns_resume (store : Store) (calls : List StoreCall) (s : Session) :
    let turns := StoreCall.turns store calls s
    StoreCall.performAll store calls s
        = (turns.map (·.result), s.advance (turns.flatMap fun t => t.exchanges.map (·.1))) ∧
      turns.map (·.call) = calls ∧
      (∀ t ∈ turns, ∀ q, t.call = .query q → q.Sound t) ∧
      turns.Pairwise fun t u => ∀ q q' p cursor, t.call = .query q → u.call = .query q' →
        t.result = .ok (.page p) → p.offset = some cursor → q'.options.Given cursor →
          q'.Resumes t := by
  refine ⟨StoreCall.performAll_eq store calls s, StoreCall.map_call_turns store calls s, ?_, ?_⟩
  · intro t ht q hq
    obtain ⟨s', hturn⟩ := StoreCall.exists_turn_of_mem ht
    rw [hturn, hq]
    exact sound_turn store q s'
  · refine List.pairwise_of_forall_mem_list fun t ht u _ q q' p cursor hq _ hp hcursor hgiven => ?_
    obtain ⟨s', hturn⟩ := StoreCall.exists_turn_of_mem ht
    rw [hq] at hturn
    rw [hturn] at hp ⊢
    exact resumes_turn hp hcursor hgiven

/-- The key at which a page stops. -/
def stoppedKey : Attributes := .ofList [("pk", .text "a"), ("sk", .number "7.0")]

/-- A reply without items that stops at a key all the same. -/
def stopped : Reply := { Reply.blank with lastEvaluatedKey := some stoppedKey }

/-- A query for at most two events. -/
def events : Query :=
  ⟨"events", ⟨⟨"pk", .text "a"⟩, none⟩, QueryOptions.empty.withLimit (some 2)⟩

/-- The same query with a cursor, read backwards. -/
def events.after (cursor : String) : Query :=
  { events with options := (events.options.withOffset (some cursor)).withAscending (some false) }

/-- A store for both queries. -/
def eventStore : Store := ⟨"eu-west-1", "pk", "sk"⟩

theorem turns_resume_events :
    ∃ cursor t u, StoreCall.turns eventStore [.query events, .query (events.after cursor)]
        (.start [fun _ => .reply stopped]) = [t, u] ∧
      u.exchanges.length = 1 ∧ (events.after cursor).Resumes t := by
  have hends : Page.EndsAt stopped stoppedKey := ⟨rfl, List.cons_ne_nil _ _⟩
  have hscalar : ∀ x ∈ stoppedKey.entries, Cursor.IsScalar x.2 := by decide
  have hitems : Attributes.decodeAll stopped.items = .ok [] := rfl
  obtain ⟨cursor, hcursor, -, -⟩ := Cursor.exists_encode_eq_ok hscalar
  have hpage : Page.ofReply stopped = .ok ⟨[], some cursor⟩ := by
    rw [Page.ofReply_of_decodeAll hitems, Page.cursor?_of_endsAt hends, hcursor]
    rfl
  have hresult : (StoreCall.turn eventStore (.query events) (.start [fun _ => .reply stopped])).result
      = .ok (.page ⟨[], some cursor⟩) := by
    obtain ⟨r, hr⟩ : ∃ r, (StoreCall.query events).request eventStore = .ok r := ⟨_, rfl⟩
    rw [StoreCall.result_of_reply (StoreCall.exchanges_of_request _ hr rfl rfl)]
    exact map_eq_ok.mpr ⟨_, hpage, rfl⟩
  obtain ⟨-, -, hsound, hresume⟩ := turns_resume eventStore
    [.query events, .query (events.after cursor)] (.start [fun _ => .reply stopped])
  obtain ⟨hnext, -⟩ := List.pairwise_cons.mp hresume
  have hresumes := hnext _ List.mem_cons_self events (events.after cursor) _ cursor rfl rfl hresult
    rfl (.ascending _ (.setter _))
  refine ⟨cursor, _, _, rfl, ?_, hresumes⟩
  obtain ⟨-, -, -, -, -, hbuilds, -⟩ := hresumes
  obtain ⟨r, hr⟩ := hbuilds _ rfl
  have hname : Text.isAllBlank "events" = false := rfl
  obtain ⟨response, hsent⟩ :=
    (hsound _ (List.mem_cons_of_mem _ List.mem_cons_self) _ rfl).sent r hr hname
  rw [hsent]
  rfl

end Query

end Depot
