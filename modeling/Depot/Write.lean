import Depot.Clauses
import Depot.Condition
import Depot.Key
import Depot.Service.Session

/-!
# Writes — operations on one item

**`Put`**, **`Delete`**, **`Update`** and **`Check`** are what a caller asks for. Each becomes a
request by encoding its parts in a fixed order, and the first part that fails decides the error. A
condition is rendered into the **`Guard`** of the request; the values of an update join those of its
condition in one table of placeholders.
-/

namespace Depot

/-- The table of a write, its condition, and what a failed condition is to return. -/
structure WriteOptions where
  tableName : String
  condition : Option Filter
  onFailure : Option String

namespace WriteOptions

/-- A write without a condition. -/
def ofTable (tableName : String) : WriteOptions := ⟨tableName, none, none⟩

/-- The options with a condition, or as they are when none is given. -/
def withCondition (o : WriteOptions) (condition : Option Filter) : WriteOptions :=
  { o with condition := condition.or o.condition }

/-- The guard of a write. -/
def guard (o : WriteOptions) : Except Error Guard :=
  match o.condition with
  | none => .ok ⟨o.tableName, none, none, o.onFailure⟩
  | some filter => do
    let f ← filter.compile
    .ok ⟨o.tableName, if f.text = "" then none else some f.text, f.values.nonempty?, o.onFailure⟩

end WriteOptions

/-- The guard with more values in its table of placeholders. -/
def Guard.addValues (g : Guard) (values : Attributes) : Guard :=
  { g with values := ((g.values.getD .empty).union values).nonempty? }

/-- Creates or replaces an item. -/
structure Put where
  item : Value
  options : WriteOptions

/-- Removes an item. -/
structure Delete where
  keys : Keys
  options : WriteOptions

/-- Changes an item. -/
structure Update where
  keys : Keys
  returnValues : Option String
  clauses : Clauses
  options : WriteOptions

/-- A call of a setter of an update, with what it is given. -/
inductive UpdateCall where
  | clause (call : ClauseCall)
  | condition (given : Option Filter)
  | returnValues (given : Option String)

/-- Demands a condition of an item and leaves it as it is. -/
structure Check where
  keys : Keys
  condition : Filter
  onFailure : Option String
  tableName : String

/-- The request of a put. -/
def Put.request (p : Put) : Except Error PutRequest := do
  let item ← p.item.item.mapError .value
  let guard ← p.options.guard
  .ok ⟨item, guard⟩

/-- The request of a delete. -/
def Delete.request (d : Delete) : Except Error DeleteRequest := do
  let key ← d.keys.encode
  let guard ← d.options.guard
  .ok ⟨key, guard⟩

namespace Update

/-- An update that does nothing yet. -/
def ofKeys (tableName : String) (keys : Keys) : Update :=
  ⟨keys, none, .empty, .ofTable tableName⟩

/-- The update with what it is to return, or as it is when nothing is given. -/
def withReturnValues (u : Update) (returnValues : Option String) : Update :=
  { u with returnValues := returnValues.or u.returnValues }

/-- The update with a condition, or as it is when none is given. -/
def withCondition (u : Update) (condition : Option Filter) : Update :=
  { u with options := u.options.withCondition condition }

/-- The update after a call. -/
def perform (u : Update) : UpdateCall → Update
  | .clause call => { u with clauses := u.clauses.perform call }
  | .condition given => u.withCondition given
  | .returnValues given => u.withReturnValues given

/-- What an update returns unless it is told otherwise. -/
def defaultReturnValues : String := "ALL_NEW"

/-- The request of an update. -/
def request (u : Update) : Except Error UpdateRequest := do
  let key ← u.keys.encode
  let guard ← u.options.guard
  let f ← u.clauses.compile
  .ok ⟨key, f.text, guard.addValues f.values⟩

end Update

/-- The request of a check, which must have a condition. -/
def Check.request (c : Check) : Except Error CheckRequest :=
  if c.condition.isEmpty then .error .emptyCondition
  else do
    let key ← c.keys.encode
    let guard ← WriteOptions.guard ⟨c.tableName, some c.condition, c.onFailure⟩
    if guard.condition.isNone then .error .emptyCondition else .ok ⟨key, guard⟩

/-- Sends a put. -/
def Put.send (p : Put) : Run Reply := do
  let r ← Run.ofExcept p.request
  Run.ask (.putItem r)

/-- Sends a delete. -/
def Delete.send (d : Delete) : Run Reply := do
  let r ← Run.ofExcept d.request
  Run.ask (.deleteItem r)

/-- Sends an update. -/
def Update.send (u : Update) : Run Reply := do
  let r ← Run.ofExcept u.request
  Run.ask (.updateItem r (u.returnValues.getD Update.defaultReturnValues))

end Depot
