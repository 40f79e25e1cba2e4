import Depot.Request
import Depot.Wire.Attribute

/-!
# Requests on the wire

**`Request.body`** is the document that is sent for a request. A field that is not asked for is
left out.
-/

namespace Depot

namespace Wire

/-- A field with a text. -/
def textOf? (s : Option String) : Option Json := s.map .text

/-- A field with attributes. -/
def attributes? (a : Option Attributes) : Option Json := a.map Attributes.wire

/-- A field with a truth value. -/
def boolean? (b : Option Bool) : Option Json := b.map .boolean

/-- A field with an integer. -/
def integer? (n : Option Int) : Option Json := n.map .integer

end Wire

open Wire

/-- The fields of a guard. -/
def Guard.fields (g : Guard) : List (String × Option Json) :=
  [("TableName", some (.text g.tableName)),
    ("ConditionExpression", textOf? g.condition),
    ("ExpressionAttributeValues", attributes? g.values),
    ("ReturnValuesOnConditionCheckFailure", textOf? g.onFailure)]

/-- The fields of a write of a whole item. -/
def PutRequest.fields (r : PutRequest) : List (String × Option Json) :=
  ("Item", some r.item.wire) :: r.guard.fields

/-- The fields of a removal. -/
def DeleteRequest.fields (r : DeleteRequest) : List (String × Option Json) :=
  ("Key", some r.key.wire) :: r.guard.fields

/-- The fields of a change. -/
def UpdateRequest.fields (r : UpdateRequest) : List (String × Option Json) :=
  ("Key", some r.key.wire) :: ("UpdateExpression", some (.text r.expression)) :: r.guard.fields

/-- The fields of a check. -/
def CheckRequest.fields (r : CheckRequest) : List (String × Option Json) :=
  ("Key", some r.key.wire) :: r.guard.fields

/-- A part of a transaction on the wire. -/
def TransactItem.wire : TransactItem → Json
  | .put r => .object [("Put", .present r.fields)]
  | .delete r => .object [("Delete", .present r.fields)]
  | .update r => .object [("Update", .present r.fields)]
  | .check r => .object [("ConditionCheck", .present r.fields)]

/-- The fields of a delivery. -/
def Delivery.fields (d : Delivery) : List (String × Option Json) :=
  [("DelaySeconds", integer? d.delaySeconds),
    ("MessageDeduplicationId", textOf? d.deduplicationId),
    ("MessageGroupId", textOf? d.groupId)]

/-- A message of a batch on the wire. -/
def PushEntry.wire (e : PushEntry) : Json :=
  .present (("Id", some (.text e.id)) :: ("MessageBody", some (.text e.body)) :: e.delivery.fields)

/-- A received message of a batch on the wire. -/
def DeleteEntry.wire (e : DeleteEntry) : Json :=
  .object [("Id", .text e.id), ("ReceiptHandle", .text e.receiptHandle)]

/-- The fields of a query. -/
def QueryRequest.fields (r : QueryRequest) : List (String × Option Json) :=
  [("TableName", some (.text r.tableName)),
    ("KeyConditionExpression", some (.text r.keyCondition)),
    ("ExpressionAttributeValues", some r.values.wire),
    ("ExclusiveStartKey", attributes? r.startKey),
    ("IndexName", textOf? r.indexName),
    ("Limit", integer? r.limit),
    ("ScanIndexForward", boolean? r.ascending),
    ("Select", textOf? r.select)]

/-- One write of a batch on the wire. -/
def Wire.putEntry (item : Attributes) : Json :=
  .object [("PutRequest", .object [("Item", item.wire)])]

/-- The document of a request. -/
def Request.body : Request → Json
  | .putItem r => .present r.fields
  | .deleteItem r => .present r.fields
  | .updateItem r returnValues =>
    .present (("ReturnValues", some (.text returnValues)) :: r.fields)
  | .getItem tableName key consistent =>
    .present [("TableName", some (.text tableName)), ("Key", some key.wire),
      ("ConsistentRead", boolean? consistent)]
  | .query r => .present r.fields
  | .batchWriteItem tableName items =>
    .object [("RequestItems", .object [(tableName, .array (items.map putEntry))])]
  | .batchGetItem tableName keys consistent =>
    .object [("RequestItems", .object [(tableName,
      .present [("Keys", some (.array (keys.map Attributes.wire))),
        ("ConsistentRead", boolean? consistent)])])]
  | .transactWriteItems items token =>
    .present [("TransactItems", some (.array (items.map TransactItem.wire))),
      ("ClientRequestToken", textOf? token)]
  | .createQueue name => .object [("QueueName", .text name)]
  | .getQueueUrl name => .object [("QueueName", .text name)]
  | .deleteQueue url => .object [("QueueUrl", .text url)]
  | .purgeQueue url => .object [("QueueUrl", .text url)]
  | .sendMessage url body delivery =>
    .present (("QueueUrl", some (.text url)) :: ("MessageBody", some (.text body)) ::
      delivery.fields)
  | .sendMessageBatch url entries =>
    .object [("QueueUrl", .text url), ("Entries", .array (entries.map PushEntry.wire))]
  | .deleteMessageBatch url entries =>
    .object [("QueueUrl", .text url), ("Entries", .array (entries.map DeleteEntry.wire))]
  | .listQueues startingWith nextToken =>
    .present [("QueueNamePrefix", textOf? startingWith), ("NextToken", textOf? nextToken)]

end Depot
