import Depot.Service.Reply
import Depot.Wire.Shape

/-!
# Replies on the wire

Each action has a **`replyShape`**, and a document that does not fit it cannot be read as an answer
to that action. Of a document that fits, **`Reply.ofWire`** reads the fields that an operation may
look at: a field that is missing or null is empty, and so is a required text of an entry that is
missing.
-/

namespace Depot

namespace Wire

/-- The capacity that an index or a table used. -/
def capacity : Shape :=
  .record [("CapacityUnits", .decimal), ("ReadCapacityUnits", .decimal),
    ("WriteCapacityUnits", .decimal)]

/-- The capacity that a vector index used. -/
def vectorCapacity : Shape :=
  .record [("VectorSearchRequestBytes", .decimal), ("VectorWriteRequestBytes", .decimal)]

/-- The capacity that a request used. -/
def consumedCapacity : Shape :=
  .record [("TableName", .text), ("CapacityUnits", .decimal), ("ReadCapacityUnits", .decimal),
    ("WriteCapacityUnits", .decimal), ("Table", capacity),
    ("LocalSecondaryIndexes", .map capacity), ("GlobalSecondaryIndexes", .map capacity),
    ("VectorIndexes", .map vectorCapacity)]

/-- The size of the items that share a partition. -/
def collectionMetrics : Shape :=
  .record [("ItemCollectionKey", .attributes), ("SizeEstimateRangeGB", .list .decimal)]

/-- A write of a batch. -/
def writeShape : Shape :=
  .record [("PutRequest", .record [("Item", .attributes)]),
    ("DeleteRequest", .record [("Key", .attributes)])]

/-- The keys of a batch that are still to be read. -/
def keysShape : Shape :=
  .record [("Keys", .list .attributes), ("AttributesToGet", .list .text),
    ("ConsistentRead", .boolean), ("ProjectionExpression", .text),
    ("ExpressionAttributeNames", .map .text)]

/-- An entry of a batch that a queue did not accept. -/
def rejectionShape : Shape :=
  .record [("Id", .text), ("SenderFault", .boolean), ("Code", .text), ("Message", .text)]

end Wire

/-- The fields of an answer to a write of one item. -/
def Action.writeFields : List (String × Shape) :=
  [("Attributes", .attributes), ("ConsumedCapacity", Wire.consumedCapacity),
    ("ItemCollectionMetrics", Wire.collectionMetrics)]

/-- The shape of an answer to an action, unless the answer is not looked at. -/
def Action.replyShape : Action → Option Shape
  | putItem | deleteItem | updateItem => some (.record writeFields)
  | getItem =>
    some (.record [("Item", .attributes), ("ConsumedCapacity", Wire.consumedCapacity)])
  | query =>
    some (.record [("Items", .list .attributes), ("Count", .integer), ("ScannedCount", .integer),
      ("LastEvaluatedKey", .attributes), ("ConsumedCapacity", Wire.consumedCapacity)])
  | batchWriteItem =>
    some (.record [("UnprocessedItems", .map (.list Wire.writeShape)),
      ("ItemCollectionMetrics", .map (.list Wire.collectionMetrics)),
      ("ConsumedCapacity", .list Wire.consumedCapacity)])
  | batchGetItem =>
    some (.record [("Responses", .map (.list .attributes)),
      ("UnprocessedKeys", .map Wire.keysShape),
      ("ConsumedCapacity", .list Wire.consumedCapacity)])
  | transactWriteItems =>
    some (.record [("ConsumedCapacity", .list Wire.consumedCapacity),
      ("ItemCollectionMetrics", .map (.list Wire.collectionMetrics))])
  | createQueue | getQueueUrl => some (.texts ["QueueUrl"])
  | deleteQueue | purgeQueue => none
  | sendMessage =>
    some (.texts ["MD5OfMessageBody", "MD5OfMessageAttributes", "MD5OfMessageSystemAttributes",
      "MessageId", "SequenceNumber"])
  | sendMessageBatch =>
    some (.record [("Successful", .list (.texts ["Id", "MessageId", "MD5OfMessageBody",
        "MD5OfMessageAttributes", "MD5OfMessageSystemAttributes", "SequenceNumber"])),
      ("Failed", .list Wire.rejectionShape)])
  | deleteMessageBatch =>
    some (.record [("Successful", .list (.texts ["Id"])), ("Failed", .list Wire.rejectionShape)])
  | listQueues => some (.record [("NextToken", .text), ("QueueUrls", .list .text)])

namespace Wire

/-- The text of a field. -/
def textField? (name : String) (j : Json) : Option String :=
  match j.member? name with
  | some (.text s) => some s
  | _ => none

/-- The attributes of a field. -/
def attributesField? (name : String) (j : Json) : Option Attributes :=
  (j.member? name).bind Attributes.ofWire?

/-- The elements of a document that is an array, and none of any other. -/
def elements : Option Json → List Json
  | some (.array elements) => elements
  | _ => []

/-- The members of a document that is an object, and none of any other. -/
def members : Option Json → List (String × Json)
  | some (.object members) => members
  | _ => []

/-- A mapping from tables to what their documents stand for. -/
def perTable {α : Type} (read : Json → α) (j : Option Json) : Mapping α :=
  Mapping.ofList ((members j).map fun (table, content) => (table, read content))

/-- A list of attributes. -/
def attributesList (j : Option Json) : List Attributes := (elements j).filterMap Attributes.ofWire?

/-- A write that was left undone. -/
def unprocessedWrite (j : Json) : UnprocessedWrite :=
  match j.member? "PutRequest" with
  | some (.object fields) =>
    .put ((attributesField? "Item" (.object fields)).getD .empty)
  | _ => match j.member? "DeleteRequest" with
    | some (.object fields) =>
      .delete ((attributesField? "Key" (.object fields)).getD .empty)
    | _ => .blank

/-- An entry that a queue accepted. -/
def acceptance (j : Json) : Acceptance :=
  ⟨(textField? "Id" j).getD "", (textField? "MessageId" j).getD ""⟩

/-- An entry that a queue did not accept. -/
def rejection (j : Json) : Rejection :=
  ⟨(textField? "Id" j).getD "", (textField? "Code" j).getD "", textField? "Message" j⟩

/-- The text of a document that is one. -/
def text? : Json → Option String
  | .text s => some s
  | _ => none

end Wire

/-- The reply of a document. -/
def Reply.ofWire (j : Json) : Reply where
  attributes := Wire.attributesField? "Attributes" j
  item := Wire.attributesField? "Item" j
  items := Wire.attributesList (j.member? "Items")
  lastEvaluatedKey := Wire.attributesField? "LastEvaluatedKey" j
  unprocessedItems := Wire.perTable (fun t => (Wire.elements (some t)).map Wire.unprocessedWrite)
    (j.member? "UnprocessedItems")
  responses := Wire.perTable (fun t => Wire.attributesList (some t)) (j.member? "Responses")
  unprocessedKeys := Wire.perTable (fun t => Wire.attributesList (t.member? "Keys"))
    (j.member? "UnprocessedKeys")
  queueUrl := Wire.textField? "QueueUrl" j
  messageId := Wire.textField? "MessageId" j
  successful := (Wire.elements (j.member? "Successful")).map Wire.acceptance
  failed := (Wire.elements (j.member? "Failed")).map Wire.rejection
  queueUrls := (Wire.elements (j.member? "QueueUrls")).filterMap Wire.text?
  nextToken := Wire.textField? "NextToken" j

/-- The response of a document that answers an action. -/
def Response.ofWire (a : Action) (j : Json) : Response :=
  if a.replyShape.all (·.fits j) then .reply (.ofWire j) else .unreadable

end Depot
