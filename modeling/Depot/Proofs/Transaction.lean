import Mathlib.Data.List.Forall2
import Depot.Proofs.Failure
import Depot.Proofs.Operation
import Depot.Proofs.Session
import Depot.Proofs.Setting
import Depot.Wire.Request

/-!
# Transactions — the ordered composition of their operations

A transaction is composed of its operations one by one: what an operation becomes, its
**`PartOf`** the transaction, is what it becomes alone, and it has the fields of the request that the
operation sends on its own. The first operation that cannot be built decides the error
(**`FirstFault`**), and then nothing is sent.

The main result, **`composed`**, says so of every transaction, in whatever way its token was set; a
transaction of two lists has the parts of the first list followed by those of the second.
-/

namespace Depot

/-- An object without the members of the given names. -/
def Json.without (names : List String) : Json → Json
  | .object members => .object (members.filter fun m => m.1 ∉ names)
  | j => j

/-- Without some members a document has the fields of other names. -/
theorem Json.without_present (names : List String) (members : List (String × Option Json)) :
    (Json.present members).without names
      = Json.present (members.filter fun m => m.1 ∉ names) := by
  rw [present, present, without]
  congr 1
  induction members with
  | nil => rfl
  | cons m rest ih =>
      obtain ⟨name, value⟩ := m
      by_cases hname : name ∈ names
      · rw [List.filter_cons_of_neg (by simpa using hname), ← ih]
        cases value with
        | none => rfl
        | some v => exact List.filter_cons_of_neg (by simpa using hname)
      · rw [List.filter_cons_of_pos (by simpa using hname)]
        cases value with
        | none => exact ih
        | some v =>
            show List.filter _ ((name, v) :: _) = (name, v) :: _
            rw [List.filter_cons_of_pos (by simpa using hname), ih]

theorem Json.without_nil (members : List (String × Option Json)) :
    (Json.present members).without [] = Json.present members := by
  rw [Json.without_present]
  congr 1
  exact List.filter_eq_self.mpr fun m _ => by simp

/-- A request on a table can be sent unless the name of the table is blank. -/
theorem Request.isSendable_of_tableName {r : Request} {name : String}
    (hr : r.tableName? = some name) : r.isSendable = !Text.isAllBlank name := by
  rw [Request.isSendable, hr, Option.any_some]

namespace Operation

/-- The table that an operation is about. -/
def tableName : Operation → String
  | .put p => p.options.tableName
  | .delete d => d.options.tableName
  | .update u => u.options.tableName
  | .check c => c.tableName

/-- The name under which a part of a transaction holds an operation. -/
def member : Operation → String
  | .put _ => "Put"
  | .delete _ => "Delete"
  | .update _ => "Update"
  | .check _ => "ConditionCheck"

/-- The call that sends an operation on its own, if there is one. -/
def alone? : Operation → Option (Run Reply)
  | .put p => some p.send
  | .delete d => some d.send
  | .update u => some u.send
  | .check _ => none

/-- The fields that an operation has only in a request of its own. -/
def ownFields : Operation → List String
  | .update _ => ["ReturnValues"]
  | _ => []

/-! ## Lists of operations -/

/-- The parts of a transaction are built in order, and the first one that fails stops the others. -/
theorem items_eq_mapM (os : List Operation) : items os = os.mapM item := by
  induction os with
  | nil => rfl
  | cons o rest ih =>
      rw [items, List.mapM_cons, ih]
      rfl

/-- **Operations are built one by one.** -/
theorem items_eq_ok_iff {os : List Operation} {ts : List TransactItem} :
    items os = .ok ts ↔ List.Forall₂ (fun o t => o.item = .ok t) os ts := by
  rw [items_eq_mapM, mapM_eq_ok_iff]

/-- The first operation of a list that cannot be built has the given error. -/
inductive FirstFault : List Operation → Error → Prop where
  | here {o : Operation} {rest : List Operation} {e : Error} :
      o.item = .error e → FirstFault (o :: rest) e
  | later {o : Operation} {t : TransactItem} {rest : List Operation} {e : Error} :
      o.item = .ok t → FirstFault rest e → FirstFault (o :: rest) e

/-- **The first operation that cannot be built** decides the error. -/
theorem items_eq_error_iff {os : List Operation} {e : Error} :
    items os = .error e ↔ FirstFault os e := by
  induction os with
  | nil => exact ⟨(fun h => nomatch h), (fun h => nomatch h)⟩
  | cons o rest ih =>
      rw [items, bind_eq_error]
      constructor
      · rintro (ho | ⟨t, ho, hrest⟩)
        · exact .here ho
        · rcases bind_eq_error.mp hrest with hrest | ⟨others, -, hok⟩
          · exact .later ho (ih.mp hrest)
          · exact nomatch hok
      · intro h
        cases h with
        | here ho => exact .inl ho
        | later ho hrest => exact .inr ⟨_, ho, bind_eq_error.mpr (.inl (ih.mpr hrest))⟩

/-- The first fault of some operations is an error that an operation can have. -/
theorem FirstFault.ofOperation {os : List Operation} {e : Error} (h : FirstFault os e) :
    e.OfOperation := by
  induction h with
  | here ho => exact failsWith_item _ _ ho
  | later _ _ ih => exact ih

/-! ## One operation -/

/-- What an operation becomes in a transaction. -/
structure PartOf (o : Operation) (t : TransactItem) : Prop where
  /-- It is what a transaction of this operation alone has. -/
  alone : (Transaction.ofOperations [o]).request = .ok (.transactWriteItems [t] none)
  /-- It has one member, the one of the operation's kind. -/
  member : ∃ content, t.wire = .object [(o.member, content)]
  /-- An operation that is sent on its own has the same fields there, but for its own ones. -/
  content : ∀ call, o.alone? = some call → Text.isAllBlank o.tableName = false →
    ∃ r, (∀ s, (call.exec s).2 = s.advance [r]) ∧
      t.wire = .object [(o.member, r.body.without o.ownFields)]
  /-- On its own nothing is sent for a table whose name is blank. -/
  blank : ∀ call, o.alone? = some call → Text.isAllBlank o.tableName = true →
    ∀ s, call.exec s = (.error (.store .unreachable), s)

/-- An operation keeps its table in whatever it is built into. -/
theorem tableName_item {o : Operation} {t : TransactItem} (h : o.item = .ok t) :
    t.guard.tableName = o.tableName := by
  have hguard {options : WriteOptions} {g : Guard} (hg : options.guard = .ok g) :
      g.tableName = options.tableName := by
    obtain ⟨f, -, rfl⟩ := WriteOptions.guard_eq_ok hg
    rfl
  cases o with
  | put p =>
      obtain ⟨r, hr, rfl⟩ := map_eq_ok.mp h
      obtain ⟨item, -, hr⟩ := bind_eq_ok.mp hr
      obtain ⟨guard, hg, hr⟩ := bind_eq_ok.mp hr
      obtain rfl := Except.ok.inj hr
      exact hguard hg
  | delete d =>
      obtain ⟨r, hr, rfl⟩ := map_eq_ok.mp h
      obtain ⟨key, -, hr⟩ := bind_eq_ok.mp hr
      obtain ⟨guard, hg, hr⟩ := bind_eq_ok.mp hr
      obtain rfl := Except.ok.inj hr
      exact hguard hg
  | update u =>
      obtain ⟨r, hr, rfl⟩ := map_eq_ok.mp h
      obtain ⟨key, -, hr⟩ := bind_eq_ok.mp hr
      obtain ⟨guard, hg, hr⟩ := bind_eq_ok.mp hr
      obtain ⟨g, -, hr⟩ := bind_eq_ok.mp hr
      obtain rfl := Except.ok.inj hr
      -- The values of the clauses join the table of placeholders, and nothing else changes.
      show guard.tableName = _
      exact hguard hg
  | check c =>
      obtain ⟨r, hr, rfl⟩ := map_eq_ok.mp h
      unfold Check.request at hr
      split at hr
      · exact nomatch hr
      · obtain ⟨key, -, hr⟩ := bind_eq_ok.mp hr
        obtain ⟨guard, hg, hr⟩ := bind_eq_ok.mp hr
        split at hr
        · exact nomatch hr
        · obtain rfl := Except.ok.inj hr
          exact hguard hg

/-- An operation that can be built asks, on its own, for what it becomes in a transaction. -/
theorem exec_alone {o : Operation} {t : TransactItem} (h : o.item = .ok t) {call : Run Reply}
    (hcall : o.alone? = some call) :
    ∃ r, r.tableName? = some o.tableName ∧
      t.wire = .object [(o.member, r.body.without o.ownFields)] ∧
      ∀ s, call.exec s = (Run.ask r).exec s := by
  have hname := tableName_item h
  cases o with
  | put p =>
      obtain ⟨r, hr, rfl⟩ := map_eq_ok.mp h
      obtain rfl := Option.some.inj hcall
      refine ⟨.putItem r, congrArg some hname, ?_, Run.exec_bind_of_ok hr _⟩
      exact congrArg (fun j => Json.object [("Put", j)]) (Json.without_nil _).symm
  | delete d =>
      obtain ⟨r, hr, rfl⟩ := map_eq_ok.mp h
      obtain rfl := Option.some.inj hcall
      refine ⟨.deleteItem r, congrArg some hname, ?_, Run.exec_bind_of_ok hr _⟩
      exact congrArg (fun j => Json.object [("Delete", j)]) (Json.without_nil _).symm
  | update u =>
      obtain ⟨r, hr, rfl⟩ := map_eq_ok.mp h
      obtain rfl := Option.some.inj hcall
      refine ⟨.updateItem r _, congrArg some hname, ?_, Run.exec_bind_of_ok hr _⟩
      refine congrArg (fun j => Json.object [("Update", j)]) ?_
      rw [ownFields, Request.body, Json.without_present]
      rfl
  | check c => exact nomatch hcall

/-- **Every part that is built** is a part of the transaction for its operation. -/
theorem partOf_item {o : Operation} {t : TransactItem} (h : o.item = .ok t) : PartOf o t := by
  constructor
  case alone =>
    have hitems : items [o] = .ok [t] := items_eq_ok_iff.mpr (.cons h .nil)
    show (items [o] >>= fun ts => Except.ok (Request.transactWriteItems ts none)) = _
    rw [hitems]
    rfl
  case member =>
    cases o with
    | _ =>
        obtain ⟨r, -, rfl⟩ := map_eq_ok.mp h
        exact ⟨_, rfl⟩
  case content =>
    intro call hcall hname
    obtain ⟨r, hr, hwire, hexec⟩ := exec_alone h hcall
    refine ⟨r, fun s => ?_, hwire⟩
    have hsendable : r.isSendable = true := by rw [Request.isSendable_of_tableName hr, hname]; rfl
    rw [hexec, Run.exec_ask hsendable]
  case blank =>
    intro call hcall hname s
    obtain ⟨r, hr, -, hexec⟩ := exec_alone h hcall
    have hsendable : r.isSendable = false := by rw [Request.isSendable_of_tableName hr, hname]; rfl
    rw [hexec, Run.exec_ask_of_not_sendable hsendable]

end Operation

namespace Transaction

open Operation

/-- A transaction with an operation is built from its parts. -/
theorem request_of_ne_nil {t : Transaction} (h : t.operations ≠ []) :
    t.request = items t.operations >>= fun ts => .ok (.transactWriteItems ts t.token) := by
  rw [request, if_neg (by simpa using h)]

/-- A transaction with an operation fails exactly with the first fault of its operations. -/
theorem request_eq_error_iff {t : Transaction} (h : t.operations ≠ []) {e : Error} :
    t.request = .error e ↔ FirstFault t.operations e := by
  rw [request_of_ne_nil h, bind_eq_error, ← items_eq_error_iff]
  constructor
  · rintro (he | ⟨ts, -, hok⟩)
    · exact he
    · exact nomatch hok
  · exact .inl

/-- A transaction with an operation is built exactly when all of its parts are. -/
theorem request_eq_ok_iff {t : Transaction} (h : t.operations ≠ []) {r : Request} :
    t.request = .ok r ↔
      ∃ ts, items t.operations = .ok ts ∧ r = .transactWriteItems ts t.token := by
  rw [request_of_ne_nil h, bind_eq_ok]
  simp only [Except.ok.injEq, @eq_comm _ _ r]

/-! ## Tokens -/

/-- The last token that is not absent, and the first one if there is none. -/
theorem token_foldl_withToken (tokens : List (Option String)) (t : Transaction) :
    (tokens.foldl withToken t).token = (tokens.filterMap id).getLast?.or t.token :=
  foldl_eq_lastGiven (g := token) (fun _ _ => rfl) tokens t

theorem operations_foldl_withToken (tokens : List (Option String)) (t : Transaction) :
    (tokens.foldl withToken t).operations = t.operations :=
  foldl_eq_self (f := withToken) (g := operations) (fun _ _ => rfl) tokens t

/-! ## Transactions -/

/-- What becomes of a transaction. -/
structure Composed (t : Transaction) : Prop where
  /-- The error says so exactly when there is no operation. -/
  empty : t.request = .error .emptyTransaction ↔ t.operations = []
  /-- Otherwise the first operation that cannot be built decides the error. -/
  fails : t.operations ≠ [] → ∀ e, t.request = .error e ↔ FirstFault t.operations e
  /-- In either case nothing is sent. -/
  silent : ∀ e, t.request = .error e → ∀ s, t.send.exec s = (.error e, s)
  /-- If every operation can be built, the one request that is sent has their parts in order. -/
  builds : t.operations ≠ [] → (∀ e, ¬ FirstFault t.operations e) →
    ∃ ts, t.request = .ok (.transactWriteItems ts t.token) ∧
      List.Forall₂ PartOf t.operations ts ∧
      ∀ s, (t.send.exec s).2 = s.advance [.transactWriteItems ts t.token]
  /-- The parts of two lists of operations stand one after the other. -/
  append : ∀ xs ys ts us, t.operations = xs ++ ys →
    (ofOperations xs).request = .ok (.transactWriteItems ts none) →
    (ofOperations ys).request = .ok (.transactWriteItems us none) →
    t.request = .ok (.transactWriteItems (ts ++ us) t.token)

/-- A transaction counts as empty exactly when it has no operation. -/
theorem request_eq_emptyTransaction_iff (t : Transaction) :
    t.request = .error .emptyTransaction ↔ t.operations = [] := by
  constructor
  · intro h
    by_contra hne
    exact ((request_eq_error_iff hne).mp h).ofOperation
  · intro h
    rw [request, h]
    rfl

/-- A transaction whose operations have no fault is sent with their parts, in order, and its token.
    -/
theorem exists_request {t : Transaction} (hne : t.operations ≠ [])
    (h : ∀ e, ¬ FirstFault t.operations e) :
    ∃ ts, t.request = .ok (.transactWriteItems ts t.token) ∧
      List.Forall₂ PartOf t.operations ts := by
  cases hitems : items t.operations with
  | error e => exact absurd (items_eq_error_iff.mp hitems) (h e)
  | ok ts =>
      refine ⟨ts, (request_eq_ok_iff hne).mpr ⟨ts, hitems, rfl⟩, ?_⟩
      exact (items_eq_ok_iff.mp hitems).imp fun o p hp => partOf_item hp

/-- The parts of two lists of operations one behind the other are those of the first list and then
    those of the second one. -/
theorem request_append {t : Transaction} {xs ys : List Operation} {ts us : List TransactItem}
    (h : t.operations = xs ++ ys)
    (hxs : (ofOperations xs).request = .ok (.transactWriteItems ts none))
    (hys : (ofOperations ys).request = .ok (.transactWriteItems us none)) :
    t.request = .ok (.transactWriteItems (ts ++ us) t.token) := by
  -- A list that is composed is not empty, so neither is the whole.
  have hitems {zs : List Operation} {vs : List TransactItem}
      (hzs : (ofOperations zs).request = .ok (.transactWriteItems vs none)) :
      zs ≠ [] ∧ items zs = .ok vs := by
    have hne : zs ≠ [] := by
      rintro rfl
      exact nomatch hzs
    obtain ⟨ws, hws, heq⟩ := (request_eq_ok_iff (t := ofOperations zs) hne).mp hzs
    rw [(Request.transactWriteItems.inj heq).1]
    exact ⟨hne, hws⟩
  obtain ⟨hne, hleft⟩ := hitems hxs
  obtain ⟨-, hright⟩ := hitems hys
  have hall : items t.operations = .ok (ts ++ us) := by
    rw [h, items_eq_ok_iff]
    exact List.rel_append (items_eq_ok_iff.mp hleft) (items_eq_ok_iff.mp hright)
  have hwhole : t.operations ≠ [] := by
    rw [h]
    exact List.append_ne_nil_of_left_ne_nil hne ys
  exact (request_eq_ok_iff hwhole).mpr ⟨_, hall, rfl⟩

/-- **A transaction is the ordered composition of its operations**, in whatever way its token was
    set: of the tokens that are given one after the other the last one counts that is not absent. -/
theorem composed (t : Transaction) (tokens : List (Option String)) :
    Composed (tokens.foldl withToken t) ∧
      (tokens.foldl withToken t).operations = t.operations ∧
      (tokens.foldl withToken t).token = (tokens.filterMap id).getLast?.or t.token := by
  refine ⟨?_, operations_foldl_withToken tokens t, token_foldl_withToken tokens t⟩
  generalize tokens.foldl withToken t = t
  constructor
  case empty => exact request_eq_emptyTransaction_iff t
  case fails =>
    intro hne e
    exact request_eq_error_iff hne
  case silent =>
    intro e he s
    exact Run.exec_bind_of_error he _ s
  case builds =>
    intro hne h
    obtain ⟨ts, hts, hparts⟩ := exists_request hne h
    refine ⟨ts, hts, hparts, fun s => ?_⟩
    rw [send, Run.exec_bind_of_ok hts, Run.exec_ask rfl]
  case append =>
    intro xs ys ts us h hxs hys
    exact request_append h hxs hys

/-- One operation of each kind. -/
def fourKinds : List Operation :=
  [.put ⟨.map [(.text "pk", .text "a")],
      (WriteOptions.ofTable "events").withCondition (some ⟨[⟨"pk", .absent⟩], []⟩)⟩,
    .delete ⟨⟨⟨"pk", .text "b"⟩, none⟩, .ofTable "events"⟩,
    .update
      { keys := ⟨⟨"pk", .text "c"⟩, none⟩
        returnValues := some "NONE"
        clauses := { Clauses.empty with add := .ofList [("count", .integer 1)] }
        options := .ofTable "totals" },
    .check ⟨⟨⟨"pk", .text "d"⟩, none⟩, ⟨[], [⟨"state", .compare .equal (.text "open")⟩]⟩, none,
      "events"⟩]

theorem composed_fourKinds :
    ∃ ts, (([some "first", none, some "second", none].foldl withToken
        (ofOperations fourKinds)).request = .ok (.transactWriteItems ts (some "second"))) ∧
      ts.length = 4 ∧ List.Forall₂ PartOf fourKinds ts := by
  obtain ⟨hcomposed, -, -⟩ :=
    composed (ofOperations fourKinds) [some "first", none, some "second", none]
  obtain ⟨items, hitems⟩ : ∃ ts, Operation.items fourKinds = .ok ts := ⟨_, rfl⟩
  have hbuilds (e : Error) : ¬ FirstFault fourKinds e := by
    intro hfault
    rw [items_eq_error_iff.mpr hfault] at hitems
    exact nomatch hitems
  obtain ⟨ts, hts, hparts, -⟩ := hcomposed.builds (List.cons_ne_nil _ _) hbuilds
  exact ⟨ts, hts, hparts.length_eq.symm, hparts⟩

/-- A put into a table whose name is blank without being empty. -/
def blankPut : Operation := .put ⟨.map [(.text "pk", .text "a")], .ofTable " "⟩

/-- **A table name that is not empty is not enough** for an operation to be sent on its own. -/
theorem unsent_blankPut :
    ¬ ∀ (o : Operation) (t : TransactItem) (call : Run Reply), o.item = .ok t →
      o.alone? = some call → o.tableName ≠ "" → ∃ r, (∀ s, (call.exec s).2 = s.advance [r]) ∧
        t.wire = .object [(o.member, r.body.without o.ownFields)] := by
  intro h
  obtain ⟨t, ht⟩ : ∃ t, blankPut.item = .ok t := ⟨_, rfl⟩
  obtain ⟨r, hsent, -⟩ := h blankPut t _ ht rfl (by decide)
  have hstays : Session.start [] = (Session.start []).advance [r] := by
    rw [← hsent, (partOf_item ht).blank _ rfl rfl]
  exact nomatch congrArg Session.sent hstays

end Transaction

end Depot
