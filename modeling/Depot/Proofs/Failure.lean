import Depot.Batch
import Depot.Get
import Depot.Proofs.Cursor
import Depot.Proofs.Encoding
import Depot.Query
import Depot.Transaction

/-!
# Failures of building — which errors an operation and a request can have

Keys and conditions have the errors of their operands: a value that does not become an attribute
value, a list without elements (**`Error.OfOperand`**). An operation that cannot be built may also be an
update or a check without anything to do (**`Error.OfOperation`**). That a computation has no other
errors is **`FailsWith`**, which is closed under sequencing (`FailsWith.bind`), and the main statement is
**`Operation.failsWith_item`**. A request has two errors more, a transaction without an operation and a
cursor that is none (**`Error.OfRequest`**).
-/

namespace Depot

/-- The errors of operands that do not become part of a request. -/
def Error.OfOperand : Error → Prop
  | .emptyInList _ => True
  | .value _ => True
  | _ => False

/-- The errors of an operation that cannot be built. -/
def Error.OfOperation : Error → Prop
  | .emptyCondition => True
  | .emptyInList _ => True
  | .emptyUpdate => True
  | .value _ => True
  | _ => False

/-- The errors of a request that cannot be built. -/
def Error.OfRequest : Error → Prop
  | .emptyTransaction => True
  | .invalidCursor _ => True
  | e => e.OfOperation

theorem Error.OfOperand.ofOperation {e : Error} (h : e.OfOperand) : e.OfOperation := by
  cases e <;> first | exact h | exact h.elim

theorem Error.OfOperation.ofRequest {e : Error} (h : e.OfOperation) : e.OfRequest := by
  cases e <;> first | exact h | exact h.elim

/-- A computation whose error, if it has one, is of the given kind. -/
def FailsWith {α : Type} (P : Error → Prop) (x : Except Error α) : Prop := ∀ e, x = .error e → P e

section

variable {α β : Type} {P : Error → Prop}

theorem failsWith_ok (a : α) : FailsWith P (.ok a) := fun _ he => nomatch he

theorem failsWith_error {e : Error} (h : P e) : FailsWith P (.error e : Except Error α) := by
  intro e' he
  rwa [← Except.error.inj he]

/-- **Two steps** fail with nothing but what one of them fails with. -/
theorem FailsWith.bind {x : Except Error α} {f : α → Except Error β} (hx : FailsWith P x)
    (hf : ∀ a, FailsWith P (f a)) : FailsWith P (x >>= f) := by
  intro e he
  rcases bind_eq_error.mp he with he | ⟨a, -, he⟩
  · exact hx e he
  · exact hf a e he

theorem FailsWith.map {x : Except Error α} (hx : FailsWith P x) (f : α → β) :
    FailsWith P (x.map f) := by
  intro e he
  exact hx e (map_eq_error.mp he)

/-- What fails with errors of operands fails with errors of an operation. -/
theorem FailsWith.ofOperation {x : Except Error α} (hx : FailsWith Error.OfOperand x) :
    FailsWith Error.OfOperation x := fun e he => (hx e he).ofOperation

/-- What fails with errors of an operation fails with errors of a request. -/
theorem FailsWith.ofRequest {x : Except Error α} (hx : FailsWith Error.OfOperation x) :
    FailsWith Error.OfRequest x := fun e he => (hx e he).ofRequest

/-- A value that does not encode is an error of an operand. -/
theorem failsWith_mapError (x : Except ValueFault α) :
    FailsWith Error.OfOperand (x.mapError .value) := by
  intro e he
  cases x with
  | ok a => exact nomatch he
  | error fault =>
      obtain rfl := Except.error.inj he
      trivial

end

/-! ## The parts of an operation -/

theorem Keys.failsWith_encode (k : Keys) : FailsWith Error.OfOperand k.encode := by
  unfold encode
  split
  · exact failsWith_error trivial
  · exact failsWith_ok _

/-- A condition fails for an empty list or for its operands. -/
theorem Condition.failsWith_compile (c : Condition) (index : Nat) :
    FailsWith Error.OfOperand (c.compile index) := by
  unfold compile
  split
  · exact failsWith_error trivial
  · split
    · exact failsWith_error trivial
    · exact failsWith_ok _

/-- A list of conditions fails for what one of them fails for. -/
theorem Condition.failsWith_compileAll (cs : List Condition) (index : Nat) :
    FailsWith Error.OfOperand (compileAll cs index) := by
  induction cs generalizing index with
  | nil => exact failsWith_ok _
  | cons c rest ih =>
      exact (c.failsWith_compile index).bind fun f => (ih _).bind fun others => failsWith_ok _

theorem Filter.failsWith_compile (f : Filter) : FailsWith Error.OfOperand f.compile :=
  (Condition.failsWith_compileAll f.all 0).bind fun _ =>
    (Condition.failsWith_compileAll f.any _).bind fun _ => failsWith_ok _

/-- The options of a write fail for what their condition fails for. -/
theorem WriteOptions.failsWith_guard (o : WriteOptions) : FailsWith Error.OfOperand o.guard := by
  unfold guard
  split
  · exact failsWith_ok _
  · exact (Filter.failsWith_compile _).bind fun _ => failsWith_ok _

theorem Clauses.failsWith_compileValued (k : ValuedClause) (a : Assignments) :
    FailsWith Error.OfOperand (compileValued k a) := by
  unfold compileValued
  split
  · exact failsWith_error trivial
  · exact failsWith_ok _

/-- Clauses fail for having no entry or for their values. -/
theorem Clauses.failsWith_compile (c : Clauses) : FailsWith Error.OfOperation c.compile := by
  unfold compile
  split
  · exact failsWith_error trivial
  · exact ((failsWith_compileValued .set c.set).bind fun _ =>
      (failsWith_compileValued .add c.add).bind fun _ =>
        (failsWith_compileValued .delete c.delete).bind fun _ => failsWith_ok _).ofOperation

/-! ## Operations -/

theorem Put.failsWith_request (p : Put) : FailsWith Error.OfOperation p.request :=
  ((failsWith_mapError _).bind fun _ =>
    p.options.failsWith_guard.bind fun _ => failsWith_ok _).ofOperation

theorem Delete.failsWith_request (d : Delete) : FailsWith Error.OfOperation d.request :=
  (d.keys.failsWith_encode.bind fun _ =>
    d.options.failsWith_guard.bind fun _ => failsWith_ok _).ofOperation

theorem Update.failsWith_request (u : Update) : FailsWith Error.OfOperation u.request :=
  u.keys.failsWith_encode.ofOperation.bind fun _ => u.options.failsWith_guard.ofOperation.bind fun _ =>
    u.clauses.failsWith_compile.bind fun _ => failsWith_ok _

/-- A check fails for having no condition, for its keys or for the condition. -/
theorem Check.failsWith_request (c : Check) : FailsWith Error.OfOperation c.request := by
  unfold request
  split
  · exact failsWith_error trivial
  · refine c.keys.failsWith_encode.ofOperation.bind fun key => ?_
    refine (WriteOptions.failsWith_guard _).ofOperation.bind fun guard => ?_
    split
    · exact failsWith_error trivial
    · exact failsWith_ok _

/-- **An operation fails with an error of its own parts.** -/
theorem Operation.failsWith_item (o : Operation) : FailsWith Error.OfOperation o.item := by
  cases o with
  | put p => exact p.failsWith_request.map _
  | delete d => exact d.failsWith_request.map _
  | update u => exact u.failsWith_request.map _
  | check c => exact c.failsWith_request.map _

theorem Operation.failsWith_items (os : List Operation) :
    FailsWith Error.OfOperation (items os) := by
  induction os with
  | nil => exact failsWith_ok _
  | cons o rest ih => exact o.failsWith_item.bind fun _ => ih.bind fun _ => failsWith_ok _

/-! ## Requests -/

/-- A transaction fails for having no operation, or for what one of them fails for. -/
theorem Transaction.failsWith_request (t : Transaction) : FailsWith Error.OfRequest t.request := by
  unfold request
  split
  · exact failsWith_error trivial
  · exact ((Operation.failsWith_items _).bind fun _ => failsWith_ok _).ofRequest

theorem Get.failsWith_request (g : Get) : FailsWith Error.OfOperation g.request :=
  (g.keys.failsWith_encode.bind fun _ => failsWith_ok _).ofOperation

theorem BatchPut.failsWith_request (b : BatchPut) : FailsWith Error.OfOperation b.request := by
  have hitems (vs : List Value) : FailsWith Error.OfOperand (Value.encodeItems vs) := by
    induction vs with
    | nil => exact failsWith_ok _
    | cons v rest ih => exact (failsWith_mapError _).bind fun _ => ih.bind fun _ => failsWith_ok _
  exact ((hitems b.items).bind fun _ => failsWith_ok _).ofOperation

theorem BatchGet.failsWith_request (b : BatchGet) : FailsWith Error.OfOperation b.request := by
  have hkeys (ks : List Keys) : FailsWith Error.OfOperand (Keys.encodeAll ks) := by
    induction ks with
    | nil => exact failsWith_ok _
    | cons k rest ih => exact k.failsWith_encode.bind fun _ => ih.bind fun _ => failsWith_ok _
  exact ((hkeys b.keys).bind fun _ => failsWith_ok _).ofOperation

theorem SortKey.failsWith_compile (k : SortKey) (partition : String) :
    FailsWith Error.OfOperand (k.compile partition) := by
  unfold compile
  split
  · exact failsWith_error trivial
  · exact failsWith_ok _

theorem KeyCondition.failsWith_compile (c : KeyCondition) :
    FailsWith Error.OfOperand c.compile := by
  have hsort : FailsWith Error.OfOperand c.sortFragments := by
    unfold sortFragments
    split
    · exact failsWith_ok _
    · exact (SortKey.failsWith_compile _ _).bind fun _ => failsWith_ok _
  exact hsort.bind fun _ => (failsWith_mapError _).bind fun _ => failsWith_ok _

theorem Cursor.failsWith_decode? (cursor : Option String) :
    FailsWith Error.OfRequest (decode? cursor) := by
  cases cursor with
  | none => exact failsWith_ok _
  | some text =>
      refine FailsWith.map (fun e he => ?_) _
      obtain ⟨layer, rfl⟩ := decode_eq_error he
      trivial

/-- **A query fails with an error of its key condition or of its cursor.** -/
theorem Query.failsWith_request (q : Query) : FailsWith Error.OfRequest q.request :=
  q.condition.failsWith_compile.ofOperation.ofRequest.bind fun _ =>
    (Cursor.failsWith_decode? _).bind fun _ => failsWith_ok _

end Depot
