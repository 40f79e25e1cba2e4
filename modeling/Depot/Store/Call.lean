import Depot.Store

/-!
# Store calls — operations on a store as data

A **`StoreCall`** is one operation with its arguments, a **`StoreResult`** what it gives. A run
performs calls one after the other in one session, whatever became of the calls before.
-/

namespace Depot

/-- An operation on a store. -/
inductive StoreCall where
  | write (tableName : String) (item : Value)
  | findOne (tableName pk sk : String)
  | update (tableName pk sk : String) (attributes : Assignments)
  | atomicUpdate (tableName pk sk : String) (deltas : Assignments)
  | batchWrite (tableName : String) (items : List Value)
  | batchRead (tableName : String) (pairs : List (String × String))
  | query (q : Query)
  | delete (tableName pk sk : String)
  | transactWrite (t : Transaction)

/-- What an operation on a store gives. -/
inductive StoreResult where
  | done
  | found (item : Option Json)
  | changed (item : Json)
  | undone (items : List Attributes)
  | read (items : List Json)
  | page (p : Page)

namespace StoreCall

/-- Performs one call. -/
def perform (s : Store) : StoreCall → Run StoreResult
  | write tableName item => do
    let _ ← Store.write tableName item
    pure .done
  | findOne tableName pk sk => do
    let item ← s.findOne tableName pk sk
    pure (.found item)
  | update tableName pk sk attributes => do
    let item ← s.update tableName pk sk attributes
    pure (.changed item)
  | atomicUpdate tableName pk sk deltas => do
    let item ← s.atomicUpdate tableName pk sk deltas
    pure (.changed item)
  | batchWrite tableName items => do
    let left ← Store.batchWrite tableName items
    pure (.undone left)
  | batchRead tableName pairs => do
    let items ← s.batchRead tableName pairs
    pure (.read items)
  | query q => do
    let p ← Store.query q
    pure (.page p)
  | delete tableName pk sk => do
    let _ ← s.delete tableName pk sk
    pure .done
  | transactWrite t => do
    let _ ← Store.transactWrite t
    pure .done

/-- Performs calls one after the other, and gives the results and the session at the end. -/
def performAll (s : Store) : List StoreCall → Session → List (Except Error StoreResult) × Session
  | [], session => ([], session)
  | call :: rest, session =>
    let (result, next) := (call.perform s).exec session
    let (results, last) := performAll s rest next
    (result :: results, last)

end StoreCall

end Depot
