import Depot.Attribute.Basic
import Depot.Service.Action
import Depot.Text.Blank

/-!
# Requests — what is sent to a service

A **`Request`** is one call of an action with its fields. The requests on tables carry expressions
that are already rendered; those that write one item share a **`Guard`**, and a transaction is a
list of the same writes without what only a single write can ask for.
-/

namespace Depot

/-- The table of a write, the condition it depends on, and what a failed condition returns. -/
structure Guard where
  tableName : String
  condition : Option String
  values : Option Attributes
  onFailure : Option String

/-- A write of a whole item. -/
structure PutRequest where
  item : Attributes
  guard : Guard

/-- A removal of an item. -/
structure DeleteRequest where
  key : Attributes
  guard : Guard

/-- A change of an item. -/
structure UpdateRequest where
  key : Attributes
  expression : String
  guard : Guard

/-- A condition on an item that is left as it is. -/
structure CheckRequest where
  key : Attributes
  guard : Guard

/-- One part of a transaction. -/
inductive TransactItem where
  | put (r : PutRequest)
  | delete (r : DeleteRequest)
  | update (r : UpdateRequest)
  | check (r : CheckRequest)

/-- A request for one page of items. -/
structure QueryRequest where
  tableName : String
  keyCondition : String
  values : Attributes
  startKey : Option Attributes
  indexName : Option String
  limit : Option Int
  ascending : Option Bool
  select : Option String

/-- How a message is to be delivered. -/
structure Delivery where
  delaySeconds : Option Int
  deduplicationId : Option String
  groupId : Option String

/-- A message of a batch. -/
structure PushEntry where
  id : String
  body : String
  delivery : Delivery

/-- A received message of a batch that is to be deleted. -/
structure DeleteEntry where
  id : String
  receiptHandle : String

/-- A call of an action. -/
inductive Request where
  | putItem (r : PutRequest)
  | deleteItem (r : DeleteRequest)
  | updateItem (r : UpdateRequest) (returnValues : String)
  | getItem (tableName : String) (key : Attributes) (consistent : Option Bool)
  | query (r : QueryRequest)
  | batchWriteItem (tableName : String) (items : List Attributes)
  | batchGetItem (tableName : String) (keys : List Attributes) (consistent : Option Bool)
  | transactWriteItems (items : List TransactItem) (token : Option String)
  | createQueue (name : String)
  | getQueueUrl (name : String)
  | deleteQueue (url : String)
  | purgeQueue (url : String)
  | sendMessage (url body : String) (delivery : Delivery)
  | sendMessageBatch (url : String) (entries : List PushEntry)
  | deleteMessageBatch (url : String) (entries : List DeleteEntry)
  | listQueues (startingWith : Option String) (nextToken : Option String)

namespace Request

/-- The action that a request calls. -/
def action : Request → Action
  | putItem _ => .putItem
  | deleteItem _ => .deleteItem
  | updateItem _ _ => .updateItem
  | getItem _ _ _ => .getItem
  | query _ => .query
  | batchWriteItem _ _ => .batchWriteItem
  | batchGetItem _ _ _ => .batchGetItem
  | transactWriteItems _ _ => .transactWriteItems
  | createQueue _ => .createQueue
  | getQueueUrl _ => .getQueueUrl
  | deleteQueue _ => .deleteQueue
  | purgeQueue _ => .purgeQueue
  | sendMessage _ _ _ => .sendMessage
  | sendMessageBatch _ _ => .sendMessageBatch
  | deleteMessageBatch _ _ => .deleteMessageBatch
  | listQueues _ _ => .listQueues

/-- The table that a request names as a field of its own. -/
def tableName? : Request → Option String
  | putItem r => some r.guard.tableName
  | deleteItem r => some r.guard.tableName
  | updateItem r _ => some r.guard.tableName
  | getItem tableName _ _ => some tableName
  | query r => some r.tableName
  | _ => none

/-- Whether a request may leave: one that names a table does so only with a name in which not every
character is blank. -/
def isSendable (r : Request) : Bool := !r.tableName?.any Text.isAllBlank

/-- The ids of the entries of a batch. -/
def entryIds : Request → List String
  | sendMessageBatch _ entries => entries.map (·.id)
  | deleteMessageBatch _ entries => entries.map (·.id)
  | _ => []

end Request

end Depot
