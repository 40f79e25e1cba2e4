import Depot.Proofs.Guard

/-!
# Demands — what has to hold for something to be built

Whatever is built makes **`Demand`**s one after the other: an item has to be a map, a value has to
become an attribute value, a test of membership needs an element, a check needs a condition, an update
needs an entry, and a cursor has to be one. The demands of an operation are listed here in the order in
which they are made, which is not the order of its fields: the sort key comes before the partition key,
the condition of an update before its clauses, and that a check has a condition before its keys.

Building is **`DecidedBy`** these lists: it succeeds exactly when every demand is met, and otherwise its
error is that of the first one that is not. The main result, **`first_unmet_demand`**, says so of
filters, of puts, deletes, updates and checks, and of queries.
-/

namespace Depot

/-! ## Demands -/

/-- Something that has to hold. -/
inductive Demand where
  /-- A value is an item: it encodes, and it is a map. -/
  | item (v : Value)
  /-- A value encodes. -/
  | value (v : Value)
  /-- A test of membership in a list has a list that is not empty. -/
  | elements (column : String) (vs : List Value)
  /-- A check has a condition. -/
  | condition (f : Filter)
  /-- An update has an entry in one of its clauses. -/
  | entries (c : Clauses)
  /-- A text is a cursor. -/
  | cursor (s : String)

/-- The error of a computation, if it has one. -/
def errorOf? {ε α : Type} : Except ε α → Option ε
  | .ok _ => none
  | .error e => some e

/-- The error of a demand that is not met. A filter has no condition when both of its lists are empty,
    and an update has no entry when all four are. -/
def Demand.fault? : Demand → Option Error
  | .item v => (errorOf? v.item).map .value
  | .value v => (errorOf? v.encode).map .value
  | .elements column [] => some (.emptyInList column)
  | .elements _ (_ :: _) => none
  | .condition f => if f.all = [] ∧ f.any = [] then some .emptyCondition else none
  | .entries c =>
      if c.set.entries = [] ∧ c.remove = [] ∧ c.add.entries = [] ∧ c.delete.entries = [] then
        some .emptyUpdate
      else none
  | .cursor s => errorOf? (Cursor.decode s)

/-- The error of the first demand that is not met. -/
def firstFault (ds : List Demand) : Option Error := ds.findSome? Demand.fault?

/-- The sort key, if there is one, and the partition key. -/
def Keys.demands (k : Keys) : List Demand :=
  match k.sort with
  | none => [.value k.partition.value]
  | some sort => [.value sort.value, .value k.partition.value]

/-- The operands of a condition in order, behind the list that they are in. -/
def Condition.demands (c : Condition) : List Demand :=
  match c.test with
  | .compare _ v => [.value v]
  | .contains v => [.value v]
  | .beginsWith v => [.value v]
  | .between low high => [.value low, .value high]
  | .oneOf vs => .elements c.column vs :: vs.map .value
  | .present => []
  | .absent => []

/-- The conditions that must hold, and behind them those of which one must hold. -/
def Filter.demands (f : Filter) : List Demand :=
  f.all.flatMap Condition.demands ++ f.any.flatMap Condition.demands

/-- The condition of a write, if it has one. -/
def WriteOptions.demands (o : WriteOptions) : List Demand :=
  match o.condition with
  | none => []
  | some f => f.demands

/-- An entry, and then the values of the clauses in the order in which they are rendered. -/
def Clauses.demands (c : Clauses) : List Demand :=
  .entries c :: (c.set.values.map .value ++ (c.add.values.map .value ++ c.delete.values.map .value))

/-- The item, then the condition. -/
def Put.demands (p : Put) : List Demand := .item p.item :: p.options.demands

/-- The keys, then the condition. -/
def Delete.demands (d : Delete) : List Demand := d.keys.demands ++ d.options.demands

/-- The keys, then the condition, then the clauses. -/
def Update.demands (u : Update) : List Demand :=
  u.keys.demands ++ (u.options.demands ++ u.clauses.demands)

/-- That there is a condition, then the keys, then the condition. -/
def Check.demands (c : Check) : List Demand :=
  .condition c.condition :: (c.keys.demands ++ c.condition.demands)

/-- The operands of a test of the sort key, in order. -/
def SortKey.demands (k : SortKey) : List Demand :=
  match k.test with
  | .compare _ v => [.value v]
  | .beginsWith v => [.value v]
  | .between low high => [.value low, .value high]

/-- The test of the sort key, if there is one, then the partition key. -/
def KeyCondition.demands (c : KeyCondition) : List Demand :=
  match c.sort with
  | none => [.value c.partition.value]
  | some k => k.demands ++ [.value c.partition.value]

/-- The key condition, then the cursor, if there is one and it is not empty. -/
def Query.demands (q : Query) : List Demand :=
  q.condition.demands ++ (q.options.offset.filter (· ≠ "")).toList.map .cursor

/-! ## The first fault -/

section

variable {ε α β : Type}

theorem errorOf?_eq_none_iff {x : Except ε α} : errorOf? x = none ↔ ∃ a, x = .ok a := by
  cases x <;> simp [errorOf?]

theorem errorOf?_eq_some_iff {x : Except ε α} {e : ε} : errorOf? x = some e ↔ x = .error e := by
  cases x <;> simp [errorOf?]

/-- An error that is renamed is the renamed error. -/
theorem errorOf?_mapError {ε' : Type} (x : Except ε α) (f : ε → ε') :
    errorOf? (x.mapError f) = (errorOf? x).map f := by
  cases x <;> rfl

/-- What is made of a result without failing adds no error. -/
theorem errorOf?_bind_ok (x : Except ε α) (f : α → β) :
    errorOf? (x >>= fun a => .ok (f a)) = errorOf? x := by
  cases x <;> rfl

/-- Of two lists of demands the first fault of the first one counts, and else that of the second
    one. -/
theorem firstFault_append (ds es : List Demand) :
    firstFault (ds ++ es) = (firstFault ds).or (firstFault es) :=
  List.findSome?_append

theorem firstFault_cons (d : Demand) (ds : List Demand) :
    firstFault (d :: ds) = d.fault?.or (firstFault ds) := by
  rw [firstFault, List.findSome?_cons]
  cases d.fault? <;> rfl

theorem firstFault_singleton (d : Demand) : firstFault [d] = d.fault? := by
  rw [firstFault_cons]
  exact Option.or_none

/-- **Two steps one after the other** make the demands of the first and then those of the second. -/
theorem errorOf?_bind {x : Except Error α} {f : α → Except Error β} {ds es : List Demand}
    (hx : errorOf? x = firstFault ds) (hf : ∀ a, x = .ok a → errorOf? (f a) = firstFault es) :
    errorOf? (x >>= f) = firstFault (ds ++ es) := by
  rw [firstFault_append, ← hx]
  cases x with
  | ok a => exact hf a rfl
  | error e => rfl

/-- What is built succeeds exactly when every demand of a list is met, and otherwise has the error of
    the first one that is not. -/
structure DecidedBy (ds : List Demand) (x : Except Error α) : Prop where
  /-- It succeeds exactly when every demand is met. -/
  succeeds : (∃ a, x = .ok a) ↔ ∀ d ∈ ds, d.fault? = none
  /-- Its error is that of a demand before which every other one is met. -/
  fails : ∀ e, x = .error e ↔ ∃ before d after, ds = before ++ d :: after ∧
    (∀ b ∈ before, b.fault? = none) ∧ d.fault? = some e

/-- Something is decided by demands when its error is that of the first one that is not met. -/
theorem decidedBy_of_errorOf? {x : Except Error α} {ds : List Demand}
    (h : errorOf? x = firstFault ds) : DecidedBy ds x := by
  constructor
  case succeeds => rw [← errorOf?_eq_none_iff, h, firstFault, List.findSome?_eq_none_iff]
  case fails =>
    intro e
    rw [← errorOf?_eq_some_iff, h, firstFault, List.findSome?_eq_some_iff]
    constructor
    · rintro ⟨before, d, after, heq, hd, hbefore⟩
      exact ⟨before, d, after, heq, hbefore, hd⟩
    · rintro ⟨before, d, after, heq, hbefore, hd⟩
      exact ⟨before, d, after, heq, hd, hbefore⟩

end

/-! ## Values -/

theorem Value.errorOf?_encodeList (vs : List Value) :
    (errorOf? (encodeList vs)).map Error.value = firstFault (vs.map .value) := by
  induction vs with
  | nil => rfl
  | cons v rest ih =>
      rw [List.map_cons, firstFault_cons, ← ih, encodeList, Demand.fault?]
      cases v.encode with
      | error fault => rfl
      | ok encoded => exact congrArg (Option.map Error.value) (errorOf?_bind_ok _ _)

/-- What is made of encoded values makes the demand that they encode, value by value. -/
theorem Value.errorOf?_of_encodeList {α : Type} {vs : List Value} {x : Except Error α}
    (hok : ∀ encoded, encodeList vs = .ok encoded → ∃ a, x = .ok a)
    (herror : ∀ fault, encodeList vs = .error fault → x = .error (.value fault)) :
    errorOf? x = firstFault (vs.map .value) := by
  rw [← errorOf?_encodeList]
  cases h : encodeList vs with
  | ok encoded => exact errorOf?_eq_none_iff.mpr (hok encoded h)
  | error fault => exact errorOf?_eq_some_iff.mpr (herror fault h)

/-- A value makes the demand that it encodes. -/
theorem Value.errorOf?_encode (v : Value) :
    errorOf? (v.encode.mapError Error.value) = firstFault [.value v] := by
  rw [errorOf?_mapError, firstFault_singleton, Demand.fault?]

/-- Keys fail with the sort key before the partition key. -/
theorem Keys.errorOf?_encode (k : Keys) : errorOf? k.encode = firstFault k.demands := by
  have hdemands : k.demands = (k.parts.map (·.value)).map .value := by
    obtain ⟨partition, sort⟩ := k
    cases sort <;> rfl
  rw [hdemands]
  refine Value.errorOf?_of_encodeList (fun encoded h => ?_) fun fault h => ?_
  · exact ⟨_, by rw [encode, h]⟩
  · rw [encode, h]

/-! ## Conditions -/

/-- A condition fails for its empty list before it fails for an operand. -/
theorem Condition.errorOf?_compile (c : Condition) (index : Nat) :
    errorOf? (c.compile index) = firstFault c.demands := by
  -- Only an empty list of elements makes a demand beside those of the operands.
  have hoperands (h : c.test ≠ .oneOf []) :
      errorOf? (c.compile index) = firstFault (c.test.operands.map .value) := by
    refine Value.errorOf?_of_encodeList (fun encoded hencoded => ?_) fun fault hfault => ?_
    · rw [compile]
      split
      · rename_i heq
        exact absurd heq h
      · exact ⟨_, by rw [hencoded]⟩
    · rw [compile]
      split
      · rename_i heq
        exact absurd heq h
      · rw [hfault]
  obtain ⟨column, test⟩ := c
  cases test with
  | oneOf vs =>
      cases vs with
      | nil => rfl
      | cons v rest =>
          refine hoperands ?_
          rintro ⟨⟩
  | _ =>
      refine hoperands ?_
      rintro ⟨⟩

/-- A list of conditions fails with the first condition that does, whatever their indices are. -/
theorem Condition.errorOf?_compileAll (cs : List Condition) (index : Nat) :
    errorOf? (compileAll cs index) = firstFault (cs.flatMap demands) := by
  induction cs generalizing index with
  | nil => rfl
  | cons c rest ih =>
      rw [List.flatMap_cons]
      refine errorOf?_bind (c.errorOf?_compile index) fun f _ => ?_
      rw [errorOf?_bind_ok, ih]

/-- A filter fails for the conditions that must hold before those of which one must. -/
theorem Filter.errorOf?_compile (f : Filter) : errorOf? f.compile = firstFault f.demands := by
  refine errorOf?_bind (Condition.errorOf?_compileAll f.all 0) fun all _ => ?_
  rw [errorOf?_bind_ok, Condition.errorOf?_compileAll]

/-- The options of a write fail for their condition alone. -/
theorem WriteOptions.errorOf?_guard (o : WriteOptions) :
    errorOf? o.guard = firstFault o.demands := by
  obtain ⟨tableName, condition, onFailure⟩ := o
  cases condition with
  | none => rfl
  | some f => exact (errorOf?_bind_ok _ _).trans f.errorOf?_compile

/-! ## Clauses -/

/-- A clause with values fails with the first value that does not encode. -/
theorem Clauses.errorOf?_compileValued (k : ValuedClause) (a : Assignments) :
    errorOf? (compileValued k a) = firstFault (a.values.map .value) := by
  refine Value.errorOf?_of_encodeList (fun encoded h => ?_) fun fault h => ?_
  · exact ⟨_, by rw [compileValued, h]⟩
  · rw [compileValued, h]

/-- Clauses fail for having no entry before they fail for a value. -/
theorem Clauses.errorOf?_compile (c : Clauses) : errorOf? c.compile = firstFault c.demands := by
  rw [demands, firstFault_cons, Demand.fault?, compile]
  simp only [← isEmpty_iff]
  split
  · rfl
  · refine errorOf?_bind (errorOf?_compileValued .set c.set) fun set _ => ?_
    refine errorOf?_bind (errorOf?_compileValued .add c.add) fun add _ => ?_
    rw [errorOf?_bind_ok, errorOf?_compileValued]

/-! ## Operations -/

/-- A put fails for its item before it fails for its condition. -/
theorem Put.errorOf?_request (p : Put) : errorOf? p.request = firstFault p.demands := by
  have hitem : errorOf? (p.item.item.mapError Error.value) = firstFault [.item p.item] := by
    rw [errorOf?_mapError, firstFault_singleton, Demand.fault?]
  rw [demands, ← List.singleton_append]
  refine errorOf?_bind hitem fun item _ => ?_
  rw [errorOf?_bind_ok, WriteOptions.errorOf?_guard]

/-- A delete fails for its keys before it fails for its condition. -/
theorem Delete.errorOf?_request (d : Delete) : errorOf? d.request = firstFault d.demands := by
  refine errorOf?_bind d.keys.errorOf?_encode fun key _ => ?_
  rw [errorOf?_bind_ok, WriteOptions.errorOf?_guard]

/-- An update fails for its keys, then for its condition, and then for its clauses. -/
theorem Update.errorOf?_request (u : Update) : errorOf? u.request = firstFault u.demands := by
  refine errorOf?_bind u.keys.errorOf?_encode fun key _ => ?_
  refine errorOf?_bind u.options.errorOf?_guard fun guard _ => ?_
  rw [errorOf?_bind_ok, Clauses.errorOf?_compile]

/-- A check fails for having no condition before anything else is looked at. -/
theorem Check.errorOf?_request (c : Check) : errorOf? c.request = firstFault c.demands := by
  rw [demands, firstFault_cons, Demand.fault?]
  by_cases h : c.condition.conditions = []
  · rw [if_pos (Filter.conditions_eq_nil_iff.mp h), c.request_eq_emptyCondition_iff.mpr h]
    rfl
  · rw [if_neg (mt Filter.conditions_eq_nil_iff.mpr h), request_eq h]
    refine errorOf?_bind c.keys.errorOf?_encode fun key _ => ?_
    rw [errorOf?_bind_ok]
    exact c.options.errorOf?_guard

/-! ## Queries -/

/-- A sort condition fails with the first of its operands that does not encode. -/
theorem SortKey.errorOf?_compile (k : SortKey) (partition : String) :
    errorOf? (k.compile partition) = firstFault k.demands := by
  have hdemands : k.demands = k.operands.map .value := by
    obtain ⟨name, test⟩ := k
    cases test <;> rfl
  rw [hdemands]
  refine Value.errorOf?_of_encodeList (fun encoded h => ?_) fun fault h => ?_
  · exact ⟨_, by rw [compile, h]⟩
  · rw [compile, h]

/-- A key condition fails for the sort condition before the partition key. -/
theorem KeyCondition.errorOf?_compile (c : KeyCondition) :
    errorOf? c.compile = firstFault c.demands := by
  have hsort : errorOf? c.sortFragments = firstFault (c.sort.elim [] SortKey.demands) := by
    obtain ⟨partition, sort⟩ := c
    cases sort with
    | none => rfl
    | some k => exact (errorOf?_bind_ok _ _).trans (k.errorOf?_compile _)
  have hdemands : c.demands = c.sort.elim [] SortKey.demands ++ [.value c.partition.value] := by
    obtain ⟨partition, sort⟩ := c
    cases sort <;> rfl
  rw [hdemands]
  refine errorOf?_bind hsort fun sort _ => ?_
  rw [errorOf?_bind_ok, Value.errorOf?_encode]

theorem Cursor.errorOf?_decode? (cursor : Option String) :
    errorOf? (decode? cursor) = firstFault (cursor.toList.map .cursor) := by
  cases cursor with
  | none => rfl
  | some s =>
      rw [Option.toList_some, List.map_singleton, firstFault_singleton, Demand.fault?, decode?]
      cases decode s <;> rfl

/-- A query fails for its key condition, then for its cursor, and then for its filter. -/
theorem Query.errorOf?_request (q : Query) : errorOf? q.request = firstFault q.demands := by
  have hoffset : q.options.truthy.offset = q.options.offset.filter (· ≠ "") := Option.or_none
  refine errorOf?_bind q.condition.errorOf?_compile fun f _ => ?_
  rw [errorOf?_bind_ok, Cursor.errorOf?_decode?, hoffset]

/-! ## Whatever is built -/

/-- **The first unmet demand decides.** Building fails exactly when a demand is not met, and its error
    is that of the first such demand, for filters, for each of the operations on one item, and for
    queries. -/
theorem first_unmet_demand :
    (∀ f : Filter, DecidedBy f.demands f.compile) ∧
      (∀ p : Put, DecidedBy p.demands p.request) ∧
      (∀ d : Delete, DecidedBy d.demands d.request) ∧
      (∀ u : Update, DecidedBy u.demands u.request) ∧
      (∀ c : Check, DecidedBy c.demands c.request) ∧
      ∀ q : Query, DecidedBy q.demands q.request :=
  ⟨fun f => decidedBy_of_errorOf? f.errorOf?_compile,
    fun p => decidedBy_of_errorOf? p.errorOf?_request,
    fun d => decidedBy_of_errorOf? d.errorOf?_request,
    fun u => decidedBy_of_errorOf? u.errorOf?_request,
    fun c => decidedBy_of_errorOf? c.errorOf?_request,
    fun q => decidedBy_of_errorOf? q.errorOf?_request⟩

/-- Of four demands that are not met the one of the sort key comes first. -/
example : Update.request ⟨⟨⟨"pk", .failing "partition"⟩, some ⟨"sk", .failing "sort"⟩⟩, none, .empty,
    ⟨"events", some ⟨[⟨"state", .oneOf []⟩], []⟩, none⟩⟩ = .error (.value (.refused "sort")) := rfl

end Depot
