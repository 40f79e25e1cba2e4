import Depot.Key
import Depot.Service.Session

/-!
# Batches — several items of one table in one request

A **`BatchPut`** writes whole items and hands back those that the table left undone. A
**`BatchGet`** reads items by their keys and hands back the keys that were left unread. What the
answer says about other tables is ignored.
-/

namespace Depot

/-- Writes whole items into one table. -/
structure BatchPut where
  tableName : String
  items : List Value

/-- Reads items of one table by their keys. -/
structure BatchGet where
  tableName : String
  keys : List Keys
  consistent : Option Bool

/-- The attributes of items, where the first one that fails decides the error. -/
def Value.encodeItems : List Value → Except Error (List Attributes)
  | [] => .ok []
  | v :: rest => do
    let item ← v.item.mapError .value
    let others ← encodeItems rest
    .ok (item :: others)

/-- The attributes of keys, where the first ones that fail decide the error. -/
def Keys.encodeAll : List Keys → Except Error (List Attributes)
  | [] => .ok []
  | k :: rest => do
    let key ← k.encode
    let others ← encodeAll rest
    .ok (key :: others)

/-- The item that a write would have put. -/
def UnprocessedWrite.item? : UnprocessedWrite → Option Attributes
  | .put item => some item
  | .delete _ => none
  | .blank => none

namespace BatchPut

/-- The request of a batch of items. -/
def request (b : BatchPut) : Except Error Request := do
  let items ← Value.encodeItems b.items
  .ok (.batchWriteItem b.tableName items)

/-- The items that the table left undone. -/
def unprocessed (b : BatchPut) (r : Reply) : List Attributes :=
  ((r.unprocessedItems.find? b.tableName).getD []).filterMap UnprocessedWrite.item?

/-- Whether every item has been written, by those that the table left undone. -/
def isComplete (left : List Attributes) : Bool := left.isEmpty

/-- Sends a batch of items and takes those left undone. -/
def send (b : BatchPut) : Run (List Attributes) := do
  let r ← Run.ofExcept b.request
  let reply ← Run.ask r
  pure (b.unprocessed reply)

end BatchPut

namespace BatchGet

/-- The batch with a demand for consistency, or as it is when none is given. -/
def withConsistent (b : BatchGet) (consistent : Option Bool) : BatchGet :=
  { b with consistent := consistent.or b.consistent }

/-- The request of a batch of keys. -/
def request (b : BatchGet) : Except Error Request := do
  let keys ← Keys.encodeAll b.keys
  .ok (.batchGetItem b.tableName keys b.consistent)

/-- The items that were read. -/
def items (b : BatchGet) (r : Reply) : List Attributes := (r.responses.find? b.tableName).getD []

/-- The keys that were left unread. -/
def unprocessed (b : BatchGet) (r : Reply) : List Attributes :=
  (r.unprocessedKeys.find? b.tableName).getD []

/-- Sends a batch of keys and takes the reply. -/
def send (b : BatchGet) : Run Reply := do
  let r ← Run.ofExcept b.request
  Run.ask r

end BatchGet

end Depot
