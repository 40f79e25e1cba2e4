import Depot.Proofs.Clauses
import Depot.Proofs.Condition
import Depot.Proofs.Document
import Depot.Transaction

/-!
# Placeholders of a write — the table of a request is closed

The condition of a write and the clauses of an update share one table of placeholders. What an
operation is built from is its **`Operation.filter`** and its **`Operation.clauses`**, either of which
may be empty; **`Operation.item_eq_ok`** says what is built of them.

The main result, **`closed_item`**, is that the table is **`Closed`**: it has one entry for each operand
of the condition and for each entry of the clauses, its keys are the placeholders that stand in the
two expressions, each of them once, and each placeholder finds the value that it was rendered for. The
table and the two expressions are those of every document that the operation is sent in.
-/

namespace Depot

/-! ## What is built -/

namespace TransactItem

/-- The table of placeholders, without entries if there is none. -/
def table (t : TransactItem) : Attributes := t.guard.values.getD .empty

/-- The placeholders that stand in the condition and in the update expression. -/
def occurrences (t : TransactItem) : List String :=
  (t.guard.condition.toList ++ t.expression.toList).flatMap fun text => placeholdersIn text.toList

end TransactItem

namespace Operation

/-- The condition of an operation, without conditions if there is none. -/
def filter : Operation → Filter
  | .put p => p.options.condition.getD .empty
  | .delete d => d.options.condition.getD .empty
  | .update u => u.options.condition.getD .empty
  | .check c => c.condition

/-- The clauses of an operation, without entries if it is no update. -/
def clauses : Operation → Clauses
  | .update u => u.clauses
  | _ => .empty

/-- The names of the attributes that an operation mentions in its expressions. -/
def names (o : Operation) : List String := o.filter.conditions.map (·.column) ++ o.clauses.names

/-- The operands of the condition and the values of the clauses, in order. -/
def operands (o : Operation) : List Value := o.filter.operands ++ o.clauses.operands

/-- The placeholders that are made for them. -/
def placeholders (o : Operation) : List String := o.filter.placeholders ++ o.clauses.placeholders

end Operation

/-- The guard with a compiled condition. -/
def WriteOptions.guardOf (o : WriteOptions) (f : Fragment) : Guard :=
  ⟨o.tableName, if f.text = "" then none else some f.text, f.values.nonempty?, o.onFailure⟩

/-- A write without a condition is guarded like one with a condition that compiles to nothing. -/
theorem WriteOptions.guard_eq_ok {o : WriteOptions} {g : Guard} (h : o.guard = .ok g) :
    ∃ f, (o.condition.getD .empty).compile = .ok f ∧ g = o.guardOf f := by
  unfold guard at h
  cases hc : o.condition with
  | none =>
      rw [hc] at h
      exact ⟨Fragment.empty, rfl, (Except.ok.inj h).symm⟩
  | some filter =>
      rw [hc] at h
      obtain ⟨f, hf, h⟩ := bind_eq_ok.mp h
      exact ⟨f, hf, (Except.ok.inj h).symm⟩

namespace Operation

/-- What an operation is built into, of a compiled condition and rendered clauses. -/
structure Builds (o : Operation) (t : TransactItem) (f g : Fragment) : Prop where
  filter : o.filter.compile = .ok f
  clauses : o.clauses.Renders g
  update : ∀ u, o = .update u → u.clauses.compile = .ok g
  condition : t.guard.condition = if f.text = "" then none else some f.text
  expression : t.expression.getD "" = g.text
  values : t.guard.values = (f.values.union g.values).nonempty?

/-- **What an operation is built into.** -/
theorem item_eq_ok {o : Operation} {t : TransactItem} (h : o.item = .ok t) :
    ∃ f g, o.Builds t f g := by
  -- All but an update go with the clauses that do nothing; only an update joins two tables.
  cases o with
  | put p =>
      obtain ⟨r, hr, rfl⟩ := map_eq_ok.mp h
      obtain ⟨item, -, hr⟩ := bind_eq_ok.mp hr
      obtain ⟨guard, hguard, hr⟩ := bind_eq_ok.mp hr
      obtain ⟨f, hf, rfl⟩ := WriteOptions.guard_eq_ok hguard
      obtain rfl := Except.ok.inj hr
      exact ⟨f, .empty, hf, Clauses.renders_empty, (fun _ hu => nomatch hu), rfl, rfl, rfl⟩
  | delete d =>
      obtain ⟨r, hr, rfl⟩ := map_eq_ok.mp h
      obtain ⟨key, -, hr⟩ := bind_eq_ok.mp hr
      obtain ⟨guard, hguard, hr⟩ := bind_eq_ok.mp hr
      obtain ⟨f, hf, rfl⟩ := WriteOptions.guard_eq_ok hguard
      obtain rfl := Except.ok.inj hr
      exact ⟨f, .empty, hf, Clauses.renders_empty, (fun _ hu => nomatch hu), rfl, rfl, rfl⟩
  | update u =>
      obtain ⟨r, hr, rfl⟩ := map_eq_ok.mp h
      obtain ⟨key, -, hr⟩ := bind_eq_ok.mp hr
      obtain ⟨guard, hguard, hr⟩ := bind_eq_ok.mp hr
      obtain ⟨g, hg, hr⟩ := bind_eq_ok.mp hr
      obtain ⟨f, hf, rfl⟩ := WriteOptions.guard_eq_ok hguard
      obtain rfl := Except.ok.inj hr
      refine ⟨f, g, hf, Clauses.renders_of_compile hg, ?_, rfl, rfl, ?_⟩
      · rintro u' ⟨⟩
        exact hg
      · have hvalues : f.values.nonempty?.getD .empty = f.values := Mapping.getD_nonempty? _
        show ((f.values.nonempty?.getD .empty).union g.values).nonempty? = _
        rw [hvalues]
  | check c =>
      obtain ⟨r, hr, rfl⟩ := map_eq_ok.mp h
      unfold Check.request at hr
      split at hr
      · exact nomatch hr
      · obtain ⟨key, -, hr⟩ := bind_eq_ok.mp hr
        obtain ⟨guard, hguard, hr⟩ := bind_eq_ok.mp hr
        obtain ⟨f, hf, rfl⟩ := WriteOptions.guard_eq_ok hguard
        split at hr
        · exact nomatch hr
        · obtain rfl := Except.ok.inj hr
          exact ⟨f, .empty, hf, Clauses.renders_empty, (fun _ hu => nomatch hu), rfl, rfl, rfl⟩

/-! ## The table -/

/-- The placeholders of an operation are not repeated: an operand never has that of an entry. -/
theorem nodup_placeholders (o : Operation) : o.placeholders.Nodup := by
  -- Both have their own numbers, which may agree; an entry's placeholder has no underscore.
  rw [placeholders, List.nodup_append]
  refine ⟨o.filter.nodup_placeholders, o.clauses.nodup_placeholders, ?_⟩
  rintro p hp q hq rfl
  obtain ⟨name, tag, i, -, -, hoperand⟩ :=
    (Condition.numbered_placeholdersFrom o.filter.conditions 0).exists_of_mem hp
  obtain ⟨k, -, hk⟩ := List.mem_flatMap.mp hq
  obtain ⟨j, -, hentry⟩ := List.mem_map.mp hk
  exact operandPlaceholder_ne_placeholder name tag i k j (hoperand.symm.trans hentry.symm)

/-- An operation has one placeholder for each of its operands. -/
theorem length_placeholders (o : Operation) : o.placeholders.length = o.operands.length := by
  rw [placeholders, operands, List.length_append, List.length_append,
    o.filter.length_placeholders, o.clauses.length_placeholders]

/-- The table of an operation is that of its placeholders with the operands beside them, those of
    the condition first. -/
theorem Builds.table {o : Operation} {t : TransactItem} {f g : Fragment} (h : o.Builds t f g) :
    ∃ left right, Value.encodeList o.filter.operands = .ok left ∧
      Value.encodeList o.clauses.operands = .ok right ∧
      f.values = Mapping.ofList (o.filter.placeholders.zip left) ∧
      g.values = Mapping.ofList (o.clauses.placeholders.zip right) ∧
      t.table = Mapping.ofList (o.placeholders.zip (left ++ right)) := by
  obtain ⟨-, -, left, -, -, hleft, -, hf⟩ := Filter.compile_eq_ok h.filter
  obtain ⟨right, hright, hg⟩ := h.clauses.values
  have hlength : o.filter.placeholders.length = left.length := by
    rw [o.filter.length_placeholders, Value.length_of_encodeList hleft]
  refine ⟨left, right, hleft, hright, hf, hg, ?_⟩
  rw [TransactItem.table, h.values, Mapping.getD_nonempty?, placeholders,
    List.zip_append hlength, Mapping.ofList_append, hf, hg]

/-- The names in the table are the placeholders of the operation, each of them once. -/
theorem Builds.names_perm {o : Operation} {t : TransactItem} {f g : Fragment} (h : o.Builds t f g) :
    t.table.names.Perm o.placeholders := by
  obtain ⟨left, right, hleft, hright, -, -, htable⟩ := h.table
  have hlength : o.placeholders.length = (left ++ right).length := by
    rw [o.length_placeholders]
    exact (Value.length_of_encodeList (Value.encodeList_append hleft hright)).symm
  have hkeys : (o.placeholders.zip (left ++ right)).map (·.1) = o.placeholders :=
    List.map_fst_zip (Nat.le_of_eq hlength)
  have hperm : t.table.entries.Perm (o.placeholders.zip (left ++ right)) := by
    rw [htable]
    refine Mapping.ofList_entries_perm ?_
    rw [hkeys]
    exact o.nodup_placeholders
  have hnames := hperm.map (·.1)
  rwa [hkeys] at hnames

/-- Every placeholder of an operation finds its own operand, in the condition and in the clauses. -/
theorem Builds.map_find? {o : Operation} {t : TransactItem} {f g : Fragment} (h : o.Builds t f g)
    {left right : List AttributeValue} (hleft : Value.encodeList o.filter.operands = .ok left)
    (hright : Value.encodeList o.clauses.operands = .ok right) :
    o.filter.placeholders.map t.table.find? = left.map some ∧
      o.clauses.placeholders.map t.table.find? = right.map some := by
  obtain ⟨left', right', hleft', hright', -, -, htable⟩ := h.table
  obtain rfl : left' = left := Except.ok.inj (hleft'.symm.trans hleft)
  obtain rfl : right' = right := Except.ok.inj (hright'.symm.trans hright)
  have hlength : o.placeholders.length = (left' ++ right').length := by
    rw [o.length_placeholders]
    exact (Value.length_of_encodeList (Value.encodeList_append hleft hright)).symm
  have hfind := Mapping.map_find?_zip o.nodup_placeholders hlength
  rw [← htable, placeholders, List.map_append, List.map_append] at hfind
  refine List.append_inj hfind ?_
  rw [List.length_map, List.length_map, o.filter.length_placeholders,
    Value.length_of_encodeList hleft]

/-- The placeholders that are found in the texts are those of the operation in order, as long as no
    name has a colon. -/
theorem Builds.occurrences {o : Operation} {t : TransactItem} {f g : Fragment} (h : o.Builds t f g)
    (hn : ∀ name ∈ o.names, ':' ∉ name.toList) : t.occurrences = o.placeholders := by
  have hcondition : (t.guard.condition.toList.flatMap fun text => placeholdersIn text.toList)
      = o.filter.placeholders := by
    rw [← Filter.placeholdersIn_compile h.filter fun c hc =>
      hn c.column (List.mem_append_left _ (List.mem_map_of_mem hc)), h.condition]
    by_cases hempty : f.text = ""
    · rw [if_pos hempty, hempty]
      rfl
    · rw [if_neg hempty]
      exact List.append_nil _
  have hexpression : (t.expression.toList.flatMap fun text => placeholdersIn text.toList)
      = o.clauses.placeholders := by
    rw [← h.clauses.placeholdersIn_text fun name hname => hn name (List.mem_append_right _ hname),
      ← h.expression]
    cases t.expression with
    | none => rfl
    | some text => exact List.append_nil _
  rw [TransactItem.occurrences, List.flatMap_append, hcondition, hexpression, placeholders]

end Operation

/-- A request whose table of placeholders is closed. -/
structure Closed (o : Operation) (t : TransactItem) : Prop where
  /-- There is one entry for each operand and each entry of a clause. -/
  size : t.table.entries.length = o.operands.length
  /-- Every key is a colon and a word. -/
  form : ∀ p ∈ t.table.names, Placeholder p
  /-- No placeholder stands twice in the expressions. -/
  once : t.occurrences.Nodup
  /-- What stands in the expressions are the keys. -/
  keys : ∀ p, p ∈ t.table.names ↔ p ∈ t.occurrences
  /-- In order, what stands in the expressions finds the encoded operands. -/
  found : ∃ encoded, Value.encodeList o.operands = .ok encoded ∧
    t.occurrences.map t.table.find? = encoded.map some
  /-- A condition stands in the text with placeholders that find its own operands. -/
  condition : ∀ x ∈ Condition.indexed o.filter.conditions 0,
    Fragment.Part (x.1.text x.2) (t.guard.condition.getD "") ∧
    ∃ own, Value.encodeList x.1.test.operands = .ok own ∧
      (x.1.placeholders x.2).map t.table.find? = own.map some
  /-- An entry of a clause stands in the text with a placeholder that finds its own value. -/
  entry : ∀ k index name value, (o.clauses.assignments k).entries[index]? = some (name, value) →
    Fragment.Part (k.entryText index name) (t.expression.getD "") ∧
    ∃ own, Value.encode value = .ok own ∧ t.table.find? (k.placeholder index) = some own
  /-- What the condition finds when it is compiled alone it finds in the table. -/
  conditionAlone : ∃ f, o.filter.compile = .ok f ∧
    ∀ p ∈ placeholdersIn f.text.toList, t.table.find? p = f.values.find? p
  /-- What the update finds when it is compiled alone it finds in the table. -/
  updateAlone : ∀ u, o = .update u → ∃ g, u.clauses.compile = .ok g ∧
    ∀ p ∈ placeholdersIn g.text.toList, t.table.find? p = g.values.find? p
  /-- There is no table exactly when nothing would be in it. -/
  absent : t.guard.values = none ↔ o.operands = []

/-- **Whatever is built is closed**, as long as no name has a colon. -/
theorem Operation.closed {o : Operation} {t : TransactItem} (h : o.item = .ok t)
    (hn : ∀ name ∈ o.names, ':' ∉ name.toList) : Closed o t := by
  obtain ⟨f, g, hb⟩ := Operation.item_eq_ok h
  obtain ⟨left, right, hleft, hright, hf, hg, -⟩ := hb.table
  obtain ⟨hfilter, hclauses⟩ := hb.map_find? hleft hright
  have hocc := hb.occurrences hn
  have hnames := hb.names_perm
  have hsize : t.table.entries.length = o.operands.length := by
    rw [← o.length_placeholders, ← hnames.length_eq, Mapping.names, List.length_map]
  -- Once the table is known as pairs of placeholders and operands, every fact is one about them.
  refine
    { size := hsize
      form := fun p hp => ?form
      once := hocc ▸ o.nodup_placeholders
      keys := fun p => hocc ▸ hnames.mem_iff
      found := ⟨left ++ right, Value.encodeList_append hleft hright, ?found⟩
      condition := fun x hx => ?condition
      entry := fun k index name value hentry => ?entry
      conditionAlone := ⟨f, hb.filter, ?conditionAlone⟩
      updateAlone := fun u hu => ⟨g, hb.update u hu, ?updateAlone⟩
      absent := ?absent }
  case form =>
    rcases List.mem_append.mp (hnames.mem_iff.mp hp) with hp | hp
    · exact (Condition.numbered_placeholdersFrom o.filter.conditions 0).placeholder hp
    · exact Clauses.placeholder_of_mem hp
  case found => rw [hocc, Operation.placeholders, List.map_append, List.map_append, hfilter, hclauses]
  case condition =>
    have htext : t.guard.condition.getD "" = f.text := by
      rw [hb.condition]
      split
      · rename_i hempty
        exact hempty.symm
      · rfl
    rw [htext]
    exact ⟨Filter.part_compile hb.filter x hx, Condition.map_find?_indexed hleft hfilter x hx⟩
  case entry =>
    have hname : (o.clauses.assignments k).names[index]? = some name := by
      rw [Assignments.names, List.getElem?_map, hentry]
      rfl
    rw [hb.expression]
    exact ⟨hb.clauses.part_text hname, Clauses.find?_placeholder hright hclauses hentry⟩
  case conditionAlone =>
    rw [Filter.placeholdersIn_compile hb.filter fun c hc =>
      hn c.column (List.mem_append_left _ (List.mem_map_of_mem hc)), ← List.map_inj_left, hfilter,
      hf, Filter.map_find?_placeholders hleft]
  case updateAlone =>
    rw [hb.clauses.placeholdersIn_text fun name hname => hn name (List.mem_append_right _ hname),
      ← List.map_inj_left, hclauses, hg, Clauses.map_find?_placeholders hright]
  case absent =>
    have hvalues : t.table = f.values.union g.values := by
      rw [TransactItem.table, hb.values, Mapping.getD_nonempty?]
    rw [hb.values, Mapping.nonempty?_eq_none_iff, ← hvalues, ← List.length_eq_zero_iff, hsize,
      List.length_eq_zero_iff]

/-- **The placeholders of a request are closed and free of collisions**, whatever is written, when no
    name of an attribute has a colon, and the documents of the request have this table and these
    expressions. -/
theorem closed_item {o : Operation} {t : TransactItem} (h : o.item = .ok t)
    (hn : ∀ name ∈ o.names, ':' ∉ name.toList) :
    Closed o t ∧ ∀ document, t.SentAs document → t.ShownIn document :=
  ⟨Operation.closed h hn, fun _ hsent => hsent.shownIn⟩

/-- An update whose attributes are named like the placeholders of other ones. -/
def contested : Operation :=
  .update
    { keys := ⟨⟨"pk", .text "a"⟩, none⟩
      returnValues := none
      clauses :=
        { set := .ofList [("ADD0", .integer 1), ("x", .integer 2)]
          remove := ["uniqueId1 "]
          add := .ofList [("größe", .integer 3)]
          delete := .ofList [("x_eq", .integer 4)] }
      options :=
        { tableName := "table"
          condition := some ⟨[⟨"x_eq", .compare .equal (.integer 5)⟩, ⟨"x", .present⟩],
            [⟨"x-eq0", .between (.integer 6) (.integer 7)⟩]⟩
          onFailure := none } }

theorem closed_contested :
    ∃ t, contested.item = .ok t ∧ (∀ name ∈ contested.names, ':' ∉ name.toList) ∧
      t.expression = some ("SET ADD0 = :uniqueId0, x = :uniqueId1 REMOVE uniqueId1  "
        ++ "ADD größe :ADD0 DELETE x_eq :DELETE0") ∧
      t.guard.condition = some ("x_eq = :x_eq_eq0 and attribute_exists(x)"
        ++ " and (x-eq0 between :x_eq0_start1 and :x_eq0_end2)") ∧
      Closed contested t ∧
      ∀ document, t.SentAs document → document.member? "UpdateExpression"
        = some (.text ("SET ADD0 = :uniqueId0, x = :uniqueId1 REMOVE uniqueId1  "
          ++ "ADD größe :ADD0 DELETE x_eq :DELETE0")) := by
  have hn : ∀ name ∈ contested.names, ':' ∉ name.toList := by decide
  obtain ⟨t, ht⟩ : ∃ t, contested.item = .ok t := ⟨_, rfl⟩
  obtain ⟨hclosed, hshown⟩ := closed_item ht hn
  refine ⟨t, ht, hn, ?_, ?_, hclosed, fun document hsent => (hshown document hsent).expression.trans ?_⟩
  all_goals
    obtain rfl := Except.ok.inj ht
    rfl

end Depot
