import Depot.Batch
import Depot.Config
import Depot.Get
import Depot.Query
import Depot.Transaction

/-!
# Stores — items addressed by two texts

A **`Store`** knows the names of the partition key and of the sort key. Its operations build a
request from texts, send it, and give the items of the reply as JSON objects. An empty batch sends
nothing.
-/

namespace Depot

/-- The region of a table service and the names of its key attributes. -/
structure Store where
  region : String
  partitionName : String
  sortName : String

namespace Store

/-- The name of the partition key unless another one is chosen. -/
def defaultPartitionName : String := "pk"

/-- The name of the sort key unless another one is chosen. -/
def defaultSortName : String := "sk"

/-- The store behind a connection. -/
def ofConnection (c : Connection) : Store := ⟨c.region, defaultPartitionName, defaultSortName⟩

/-- The store with other names for the key attributes. -/
def withKeyNames (s : Store) (partitionName sortName : String) : Store :=
  { s with partitionName := partitionName, sortName := sortName }

/-- The keys of two texts. -/
def keys (s : Store) (pk sk : String) : Keys :=
  ⟨⟨s.partitionName, .text pk⟩, some ⟨s.sortName, .text sk⟩⟩

/-- The JSON object of attributes. -/
def decode (attributes : Attributes) : Run Json :=
  Run.ofExcept ((Attributes.decode attributes).mapError .value)

/-- Puts an item whole. -/
def write (tableName : String) (item : Value) : Run Unit := do
  let _ ← Put.send ⟨item, .ofTable tableName⟩
  pure ()

/-- Gets an item, if there is one. -/
def findOne (s : Store) (tableName pk sk : String) : Run (Option Json) := do
  let item ← Get.send ⟨tableName, s.keys pk sk, none⟩
  match item with
  | none => pure none
  | some attributes => do
    let decoded ← decode attributes
    pure (some decoded)

/-- The update of an item by clauses. -/
def updateOf (s : Store) (tableName pk sk : String) (clauses : Clauses) : Update :=
  { Update.ofKeys tableName (s.keys pk sk) with clauses := clauses }

/-- Changes an item and gives it as it is afterwards. -/
def change (s : Store) (tableName pk sk : String) (clauses : Clauses) : Run Json := do
  let reply ← (s.updateOf tableName pk sk clauses).send
  decode (reply.attributes.getD .empty)

/-- Assigns attributes of an item and gives it as it is afterwards. -/
def update (s : Store) (tableName pk sk : String) (attributes : Assignments) : Run Json :=
  s.change tableName pk sk (Clauses.empty.withSet (some attributes))

/-- Adds to attributes of an item and gives it as it is afterwards. -/
def atomicUpdate (s : Store) (tableName pk sk : String) (deltas : Assignments) : Run Json :=
  s.change tableName pk sk (Clauses.empty.withAdd (some deltas))

/-- Puts several items and gives those that were left undone. -/
def batchWrite (tableName : String) (items : List Value) : Run (List Attributes) :=
  if items.isEmpty then pure [] else BatchPut.send ⟨tableName, items⟩

/-- Gets the items of several keys. -/
def batchRead (s : Store) (tableName : String) (pairs : List (String × String)) :
    Run (List Json) :=
  if pairs.isEmpty then pure []
  else do
    let batch : BatchGet := ⟨tableName, pairs.map fun (pk, sk) => s.keys pk sk, none⟩
    let reply ← batch.send
    Run.ofExcept ((Attributes.decodeAll (batch.items reply)).mapError .value)

/-- Reads one page of items. -/
def query (q : Query) : Run Page := do
  let reply ← q.send
  Run.ofExcept (Page.ofReply reply)

/-- Deletes an item. -/
def delete (s : Store) (tableName pk sk : String) : Run Unit := do
  let _ ← Delete.send ⟨s.keys pk sk, .ofTable tableName⟩
  pure ()

/-- Lets all operations take effect together. -/
def transactWrite (t : Transaction) : Run Unit := do
  let _ ← t.send
  pure ()

end Store

end Depot
