import Depot.Key
import Depot.Service.Session

/-!
# Gets — one item by its keys

A **`Get`** reads an item. That there is no such item is not an error: the answer has no item.
-/

namespace Depot

/-- Reads one item by its keys. -/
structure Get where
  tableName : String
  keys : Keys
  consistent : Option Bool

namespace Get

/-- The read with a demand for consistency, or as it is when none is given. -/
def withConsistent (g : Get) (consistent : Option Bool) : Get :=
  { g with consistent := consistent.or g.consistent }

/-- The request of a read. -/
def request (g : Get) : Except Error Request := do
  let key ← g.keys.encode
  .ok (.getItem g.tableName key g.consistent)

/-- Sends a read and takes the item, if there is one. -/
def send (g : Get) : Run (Option Attributes) := do
  let r ← Run.ofExcept g.request
  let reply ← Run.ask r
  pure reply.item

end Get

end Depot
