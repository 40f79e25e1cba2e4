import Depot.Proofs.Transaction

/-!
# Guards — a condition is never lost

Every condition has a text, whichever attribute it is about, so a filter that has a condition compiles
to a text that is not empty. An operation is therefore **`Guarded`** by its filter: its request has a
condition exactly when the filter has one, and then it is what the filter compiles to. Every document
that it is sent in is **`GuardedIn`** the same way (**`GuardedWrite`**).

The main result, **`never_unguarded`**, says so of puts, deletes and updates, in whatever way their
filter was attached, and of the parts of a transaction. A check fails for want of a condition only when
its filter has none (`Check.request_eq_emptyCondition_iff`), so that the test that is made after the
filter has been compiled changes nothing (`Check.request_eq`).
-/

namespace Depot

/-- The guard of an operation that has the given filter. -/
structure Guarded (f : Filter) (g : Guard) : Prop where
  /-- There is a condition exactly when the filter has one. -/
  present : g.condition ≠ none ↔ f.conditions ≠ []
  /-- The condition is not empty. -/
  nonempty : g.condition ≠ some ""
  /-- The condition is what the filter compiles to. -/
  compiled : ∀ text, g.condition = some text → ∃ c, f.compile = .ok c ∧ c.text = text

/-- A guard that has the text of a compiled filter, or none if that is empty, is one for the filter.
    -/
theorem guarded_of_compile {f : Filter} {c : Fragment} {g : Guard} (hc : f.compile = .ok c)
    (hg : g.condition = if c.text = "" then none else some c.text) : Guarded f g := by
  have hempty := Filter.compile_text_eq_empty_iff hc
  by_cases htext : c.text = ""
  · rw [if_pos htext] at hg
    constructor
    case present => exact iff_of_false (fun h => h hg) fun h => h (hempty.mp htext)
    case nonempty =>
      rw [hg]
      exact nofun
    case compiled =>
      intro text h
      rw [hg] at h
      exact nomatch h
  · rw [if_neg htext] at hg
    constructor
    case present =>
      refine iff_of_true ?_ fun h => htext (hempty.mpr h)
      rw [hg]
      exact nofun
    case nonempty =>
      rw [hg]
      exact fun h => htext (Option.some.inj h)
    case compiled =>
      intro text h
      exact ⟨c, hc, Option.some.inj (hg.symm.trans h)⟩

/-- A guard with a condition has a text that is not empty. -/
theorem Guarded.exists_text {f : Filter} {g : Guard} (h : Guarded f g) (hf : f.conditions ≠ []) :
    ∃ text, g.condition = some text ∧ text ≠ "" := by
  obtain ⟨text, htext⟩ := Option.ne_none_iff_exists'.mp (h.present.mpr hf)
  refine ⟨text, htext, ?_⟩
  rintro rfl
  exact h.nonempty htext

/-- A document that has the condition of a filter as a member. -/
structure GuardedIn (f : Filter) (document : Json) : Prop where
  /-- There is a condition exactly when the filter has one. -/
  present : document.member? "ConditionExpression" ≠ none ↔ f.conditions ≠ []
  /-- The condition is not empty. -/
  nonempty : document.member? "ConditionExpression" ≠ some (.text "")
  /-- The condition is what the filter compiles to. -/
  compiled : ∀ j, document.member? "ConditionExpression" = some j →
    ∃ c, f.compile = .ok c ∧ j = .text c.text

/-- A document that shows a guard is guarded as the guard is. -/
theorem Guarded.shownIn {f : Filter} {g : Guard} {document : Json} (h : Guarded f g)
    (hshown : g.ShownIn document) : GuardedIn f document := by
  constructor
  case present =>
    rw [hshown.condition, ← h.present, Ne, Option.map_eq_none_iff]
  case nonempty =>
    intro hempty
    rw [hshown.condition] at hempty
    obtain ⟨text, htext, heq⟩ := Option.map_eq_some_iff.mp hempty
    obtain rfl := Json.text.inj heq
    exact h.nonempty htext
  case compiled =>
    intro j hj
    rw [hshown.condition] at hj
    obtain ⟨text, htext, rfl⟩ := Option.map_eq_some_iff.mp hj
    obtain ⟨c, hc, rfl⟩ := h.compiled text htext
    exact ⟨c, hc, rfl⟩

/-- A write that is guarded by a filter, and so is every document that it is sent in. -/
structure GuardedWrite (f : Filter) (t : TransactItem) : Prop where
  guard : Guarded f t.guard
  documents : ∀ document, t.SentAs document → GuardedIn f document

/-- A write whose guard is one for a filter is sent in documents that show the condition. -/
theorem Guarded.write {f : Filter} {t : TransactItem} (h : Guarded f t.guard) : GuardedWrite f t :=
  ⟨h, fun _ hsent => h.shownIn hsent.shownIn.guard⟩

/-- Options of a write that compile give it a guard for their filter, and for the empty one if there
    is none. -/
theorem WriteOptions.guarded_guard {o : WriteOptions} {g : Guard} (h : o.guard = .ok g) :
    Guarded (o.condition.getD .empty) g := by
  obtain ⟨c, hc, rfl⟩ := guard_eq_ok h
  exact guarded_of_compile hc rfl

/-- **What is built is guarded by its own filter.** -/
theorem Operation.guarded_item {o : Operation} {t : TransactItem} (h : o.item = .ok t) :
    GuardedWrite o.filter t := by
  obtain ⟨c, _, hb⟩ := item_eq_ok h
  exact (guarded_of_compile hb.filter hb.condition).write

/-! ## Filters that are attached -/

/-- The last filter that is not absent, and the first one if there is none. -/
theorem WriteOptions.condition_foldl_withCondition (attached : List (Option Filter))
    (o : WriteOptions) :
    (attached.foldl withCondition o).condition = lastGiven attached o.condition :=
  foldl_eq_lastGiven (g := condition) (fun _ _ => rfl) attached o

/-- Of several conditions attached to an update the last one that is given counts. -/
theorem Update.condition_foldl_withCondition (attached : List (Option Filter)) (u : Update) :
    (attached.foldl withCondition u).options.condition = lastGiven attached u.options.condition :=
  foldl_eq_lastGiven (g := fun u => u.options.condition) (fun _ _ => rfl) attached u

/-! ## Checks -/

/-- A filter has no condition when both of its lists are empty. -/
theorem Filter.conditions_eq_nil_iff {f : Filter} :
    f.conditions = [] ↔ f.all = [] ∧ f.any = [] := List.append_eq_nil_iff

/-- A filter counts as empty exactly when it has no conditions. -/
theorem Filter.isEmpty_iff {f : Filter} : f.isEmpty = true ↔ f.conditions = [] := by
  rw [isEmpty, Bool.and_eq_true, List.isEmpty_iff, List.isEmpty_iff, conditions_eq_nil_iff]

namespace Check

/-- The options of the write that a check is compiled as. -/
def options (c : Check) : WriteOptions := ⟨c.tableName, some c.condition, c.onFailure⟩

/-- A filter with a condition leaves one behind when it is compiled. -/
theorem condition_ne_none {c : Check} (h : c.condition.conditions ≠ []) {g : Guard}
    (hg : c.options.guard = .ok g) : g.condition ≠ none :=
  (WriteOptions.guarded_guard hg).present.mpr h

/-- **The test after compilation changes nothing**: a check with a condition is built of its keys and
    its guard. -/
theorem request_eq {c : Check} (h : c.condition.conditions ≠ []) :
    c.request = c.keys.encode >>= fun key => c.options.guard >>= fun g => .ok ⟨key, g⟩ := by
  rw [request, if_neg fun hempty => h (Filter.isEmpty_iff.mp hempty)]
  refine bind_congr fun key => ?_
  show (c.options.guard >>= fun g =>
    if g.condition.isNone then .error .emptyCondition else .ok (CheckRequest.mk key g)) = _
  cases hg : c.options.guard with
  | error e => rfl
  | ok g =>
      have hsome : ¬ g.condition.isNone := fun hnone =>
        condition_ne_none h hg (Option.isNone_iff_eq_none.mp hnone)
      exact if_neg hsome

/-- A check fails for want of a condition exactly when its filter has none. -/
theorem request_eq_emptyCondition_iff (c : Check) :
    c.request = .error .emptyCondition ↔ c.condition.conditions = [] := by
  constructor
  · intro he
    by_contra h
    have hfails : FailsWith Error.OfOperand c.request := by
      rw [request_eq h]
      exact c.keys.failsWith_encode.bind fun _ =>
        c.options.failsWith_guard.bind fun _ => failsWith_ok _
    exact hfails _ he
  · intro h
    rw [request, if_pos (Filter.isEmpty_iff.mpr h)]

end Check

/-! ## Transactions -/

namespace Operation

theorem exists_item_of_mem {os : List Operation} {ts : List TransactItem} (h : items os = .ok ts)
    {t : TransactItem} (ht : t ∈ ts) : ∃ o ∈ os, o.item = .ok t := by
  have hparts := items_eq_ok_iff.mp h
  clear h
  induction hparts with
  | nil => exact nomatch ht
  | @cons o part os ts ho _ ih =>
      rcases List.mem_cons.mp ht with rfl | ht
      · exact ⟨o, List.mem_cons_self, ho⟩
      · obtain ⟨o', ho', hitem⟩ := ih ht
        exact ⟨o', List.mem_cons_of_mem o ho', hitem⟩

/-- Only a check becomes a check, and it has a condition. -/
theorem exists_text_of_check {o : Operation} {r : CheckRequest} (h : o.item = .ok (.check r)) :
    ∃ text, r.guard.condition = some text ∧ text ≠ "" := by
  refine (guarded_item h).guard.exists_text ?_
  cases o with
  | check c =>
      intro hnil
      obtain ⟨_, hr, -⟩ := map_eq_ok.mp h
      rw [c.request_eq_emptyCondition_iff.mpr hnil] at hr
      exact nomatch hr
  | _ =>
      obtain ⟨_, -, hr⟩ := map_eq_ok.mp h
      exact nomatch hr

end Operation

/-- The operations of a transaction have become its parts. -/
theorem Transaction.items_of_request {t : Transaction} {items : List TransactItem}
    {token : Option String} (h : t.request = .ok (.transactWriteItems items token)) :
    Operation.items t.operations = .ok items := by
  have hne : t.operations ≠ [] := by
    intro hnil
    rw [(request_eq_emptyTransaction_iff t).mpr hnil] at h
    exact nomatch h
  obtain ⟨parts, hparts, heq⟩ := (request_eq_ok_iff hne).mp h
  rw [hparts, (Request.transactWriteItems.inj heq).1]

/-! ## Whatever is written -/

/-- The filter of a write: the last one that was attached, or the one that it had before. -/
def effectiveFilter (o : WriteOptions) (attached : List (Option Filter)) : Filter :=
  (lastGiven attached o.condition).getD .empty

/-- Writes are guarded by the last filter that was attached. -/
structure GuardsWrites (o : WriteOptions) (attached : List (Option Filter)) : Prop where
  put : ∀ item r, Put.request ⟨item, attached.foldl .withCondition o⟩ = .ok r →
    GuardedWrite (effectiveFilter o attached) (.put r)
  delete : ∀ keys r, Delete.request ⟨keys, attached.foldl .withCondition o⟩ = .ok r →
    GuardedWrite (effectiveFilter o attached) (.delete r)
  update : ∀ keys returnValues clauses r,
    (attached.foldl Update.withCondition ⟨keys, returnValues, clauses, o⟩).request = .ok r →
      GuardedWrite (effectiveFilter o attached) (.update r)

/-- **Every put, delete and update** is guarded by the condition that was attached last. -/
theorem guardsWrites (o : WriteOptions) (attached : List (Option Filter)) :
    GuardsWrites o attached := by
  constructor
  case put =>
    intro item r hr
    rw [effectiveFilter, ← WriteOptions.condition_foldl_withCondition]
    exact Operation.guarded_item (o := .put _) (map_eq_ok.mpr ⟨r, hr, rfl⟩)
  case delete =>
    intro keys r hr
    rw [effectiveFilter, ← WriteOptions.condition_foldl_withCondition]
    exact Operation.guarded_item (o := .delete _) (map_eq_ok.mpr ⟨r, hr, rfl⟩)
  case update =>
    intro keys returnValues clauses r hr
    have hcondition := Update.condition_foldl_withCondition attached ⟨keys, returnValues, clauses, o⟩
    rw [effectiveFilter, ← hcondition]
    exact Operation.guarded_item (o := .update _) (map_eq_ok.mpr ⟨r, hr, rfl⟩)

/-- **A guarded write is never silently unguarded.** A filter compiles to nothing only when it has no
    condition. So every write has the condition of the filter that was attached last, in the request as
    in every document of it, a check fails for want of a condition only when its filter has none and not
    once the filter has been compiled, and in a transaction every part is guarded by its own filter and
    every check has a condition. -/
theorem never_unguarded :
    (∀ (f : Filter) (c : Fragment), f.compile = .ok c → (c.text = "" ↔ f.conditions = [])) ∧
      (∀ (o : WriteOptions) (attached : List (Option Filter)), GuardsWrites o attached) ∧
      (∀ c : Check, (c.request = .error .emptyCondition ↔ c.condition.conditions = []) ∧
        (c.condition.conditions ≠ [] → ∀ g, c.options.guard = .ok g → g.condition ≠ none)) ∧
      ∀ (t : Transaction) (items : List TransactItem) (token : Option String),
        t.request = .ok (.transactWriteItems items token) →
          List.Forall₂ (fun o part => GuardedWrite o.filter part) t.operations items ∧
          ∀ r, .check r ∈ items → ∃ text, r.guard.condition = some text ∧ text ≠ "" ∧
            ∀ document, TransactItem.SentAs (.check r) document →
              document.member? "ConditionExpression" = some (.text text) := by
  refine ⟨fun f c h => Filter.compile_text_eq_empty_iff h, guardsWrites, fun c => ?check,
    fun t items token h => ?transaction⟩
  case check =>
    exact ⟨c.request_eq_emptyCondition_iff, fun h g hg => Check.condition_ne_none h hg⟩
  case transaction =>
    have hitems := Transaction.items_of_request h
    refine ⟨(Operation.items_eq_ok_iff.mp hitems).imp fun o part => Operation.guarded_item, ?_⟩
    intro r hr
    obtain ⟨o, -, ho⟩ := Operation.exists_item_of_mem hitems hr
    obtain ⟨text, htext, hne⟩ := Operation.exists_text_of_check ho
    refine ⟨text, htext, hne, fun document hsent => ?_⟩
    rw [hsent.shownIn.guard.condition]
    exact congrArg (Option.map Json.text) htext

/-- A condition on an attribute without a name. -/
def nameless : Filter := ⟨[], [⟨"", .absent⟩]⟩

/-- The condition is attached behind an empty one, and nothing is attached after it. -/
def attachedNameless : List (Option Filter) := [some .empty, some nameless, none]

/-- An item whose key is a text. -/
def textKeys : Keys := ⟨⟨"pk", .text "a"⟩, none⟩

/-- A put on the condition. -/
def namelessPut : Put :=
  ⟨.map [], attachedNameless.foldl .withCondition (.ofTable "events")⟩

/-- A delete on the condition. -/
def namelessDelete : Delete :=
  ⟨textKeys, attachedNameless.foldl .withCondition (.ofTable "events")⟩

/-- An update on the condition. -/
def namelessUpdate : Update :=
  attachedNameless.foldl .withCondition
    ⟨textKeys, none, { Clauses.empty with remove := ["count"] }, .ofTable "events"⟩

/-- A check of the condition. -/
def namelessCheck : Check := ⟨textKeys, nameless, none, "events"⟩

theorem never_unguarded_nameless :
    (∃ c, nameless.compile = .ok c ∧ c.text ≠ "") ∧
      (∃ r, namelessPut.request = .ok r ∧ GuardedWrite nameless (.put r)) ∧
      (∃ r, namelessDelete.request = .ok r ∧ GuardedWrite nameless (.delete r)) ∧
      (∃ r, namelessUpdate.request = .ok r ∧ GuardedWrite nameless (.update r)) ∧
      (∃ g, namelessCheck.options.guard = .ok g ∧ g.condition ≠ none) ∧
      ∃ r, (Transaction.ofOperations [.check namelessCheck]).request
          = .ok (.transactWriteItems [.check r] none) ∧
        ∃ text, r.guard.condition = some text ∧ text ≠ "" ∧
          ∀ document, TransactItem.SentAs (.check r) document →
            document.member? "ConditionExpression" = some (.text text) := by
  obtain ⟨hfilter, hwrites, hcheck, htransaction⟩ := never_unguarded
  have hguards := hwrites (.ofTable "events") attachedNameless
  have hne : nameless.conditions ≠ [] := List.cons_ne_nil _ _
  refine ⟨?filter, ?put, ?delete, ?update, ?check, ?transaction⟩
  case filter =>
    obtain ⟨c, hc⟩ : ∃ c, nameless.compile = .ok c := ⟨_, rfl⟩
    exact ⟨c, hc, fun h => hne ((hfilter nameless c hc).mp h)⟩
  case put =>
    obtain ⟨r, hr⟩ : ∃ r, namelessPut.request = .ok r := ⟨_, rfl⟩
    exact ⟨r, hr, hguards.put _ r hr⟩
  case delete =>
    obtain ⟨r, hr⟩ : ∃ r, namelessDelete.request = .ok r := ⟨_, rfl⟩
    exact ⟨r, hr, hguards.delete _ r hr⟩
  case update =>
    obtain ⟨r, hr⟩ : ∃ r, namelessUpdate.request = .ok r := ⟨_, rfl⟩
    exact ⟨r, hr, hguards.update _ _ _ r hr⟩
  case check =>
    obtain ⟨g, hg⟩ : ∃ g, namelessCheck.options.guard = .ok g := ⟨_, rfl⟩
    exact ⟨g, hg, (hcheck namelessCheck).2 hne g hg⟩
  case transaction =>
    obtain ⟨r, hr⟩ : ∃ r, (Transaction.ofOperations [.check namelessCheck]).request
        = .ok (.transactWriteItems [.check r] none) := ⟨_, rfl⟩
    exact ⟨r, hr, (htransaction _ _ _ hr).2 r List.mem_cons_self⟩

end Depot
