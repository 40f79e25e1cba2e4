import Depot.Write

/-!
# Transactions — several writes as one

A **`Transaction`** lists operations that take effect together or not at all. Its request has one
part per operation, in order, and the first operation that cannot be built decides the error.
-/

namespace Depot

/-- One operation of a transaction. -/
inductive Operation where
  | put (p : Put)
  | delete (d : Delete)
  | update (u : Update)
  | check (c : Check)

/-- The part of a transaction that an operation becomes. -/
def Operation.item : Operation → Except Error TransactItem
  | .put p => p.request.map .put
  | .delete d => d.request.map .delete
  | .update u => u.request.map .update
  | .check c => c.request.map .check

/-- The parts of a transaction that operations become. -/
def Operation.items : List Operation → Except Error (List TransactItem)
  | [] => .ok []
  | o :: rest => do
    let item ← o.item
    let others ← items rest
    .ok (item :: others)

/-- Operations that take effect together, and a token under which they take effect once. -/
structure Transaction where
  operations : List Operation
  token : Option String

namespace Transaction

/-- A transaction without a token. -/
def ofOperations (operations : List Operation) : Transaction := ⟨operations, none⟩

/-- The transaction with a token, or as it is when none is given. -/
def withToken (t : Transaction) (token : Option String) : Transaction :=
  { t with token := token.or t.token }

/-- The request of a transaction, which must have an operation. -/
def request (t : Transaction) : Except Error Request :=
  if t.operations.isEmpty then .error .emptyTransaction
  else do
    let items ← Operation.items t.operations
    .ok (.transactWriteItems items t.token)

/-- Sends a transaction. -/
def send (t : Transaction) : Run Reply := do
  let r ← Run.ofExcept t.request
  Run.ask r

end Transaction

end Depot
