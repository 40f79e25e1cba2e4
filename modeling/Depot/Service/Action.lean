/-!
# Actions — what a service can be asked, and the error codes it may answer with

Each **`Action`** models a list of error codes. A code an action models has a name: mostly the code
itself, or the code without the family in front of it. Any other code is unknown to the action,
whatever it means to another one.
-/

namespace Depot

/-- The actions of the table service and of the queue service. -/
inductive Action where
  | putItem
  | deleteItem
  | updateItem
  | getItem
  | query
  | batchWriteItem
  | batchGetItem
  | transactWriteItems
  | createQueue
  | getQueueUrl
  | deleteQueue
  | purgeQueue
  | sendMessage
  | sendMessageBatch
  | deleteMessageBatch
  | listQueues
  deriving DecidableEq, Repr

namespace Action

/-- The name of an action on the wire. -/
def name : Action → String
  | putItem => "PutItem"
  | deleteItem => "DeleteItem"
  | updateItem => "UpdateItem"
  | getItem => "GetItem"
  | query => "Query"
  | batchWriteItem => "BatchWriteItem"
  | batchGetItem => "BatchGetItem"
  | transactWriteItems => "TransactWriteItems"
  | createQueue => "CreateQueue"
  | getQueueUrl => "GetQueueUrl"
  | deleteQueue => "DeleteQueue"
  | purgeQueue => "PurgeQueue"
  | sendMessage => "SendMessage"
  | sendMessageBatch => "SendMessageBatch"
  | deleteMessageBatch => "DeleteMessageBatch"
  | listQueues => "ListQueues"

/-- The code of a write whose condition did not hold. -/
def conditionFailed : String := "ConditionalCheckFailedException"

/-- The code of a transaction that was cancelled. -/
def transactionCancelled : String := "TransactionCanceledException"

/-- The name of a queue that does not exist. -/
def queueMissing : String := "QueueDoesNotExist"

/-- Codes that every action on tables models. -/
def tableCodes : List String :=
  ["InternalServerError", "InvalidEndpointException", "ProvisionedThroughputExceededException",
    "RequestLimitExceeded", "ResourceNotFoundException", "ThrottlingException"]

/-- Codes that an action which writes one item models beside those of every action. -/
def writeCodes : List String :=
  [conditionFailed, "ItemCollectionSizeLimitExceededException",
    "ReplicatedWriteConflictException", "TransactionConflictException"]

/-- A code that is its own name. -/
def plain (code : String) : String × String := (code, code)

/-- The code of a name in the family of the queue service, with that name. -/
def inFamily (name : String) : String × String := ("AWS.SimpleQueueService." ++ name, name)

/-- Codes that every action on queues models, with their names. -/
def queueCodes : List (String × String) :=
  [plain "InvalidAddress", plain "InvalidSecurity", plain "RequestThrottled",
    inFamily "UnsupportedOperation"]

/-- The code of a queue that does not exist, with its name. -/
def missingCode : String × String := ("AWS.SimpleQueueService.NonExistentQueue", queueMissing)

/-- Codes that an action on a batch of messages models beside those of every action on queues. -/
def batchCodes : List (String × String) :=
  [inFamily "BatchEntryIdsNotDistinct", inFamily "EmptyBatchRequest",
    inFamily "InvalidBatchEntryId", inFamily "TooManyEntriesInBatchRequest"]

/-- Codes of the service that keeps the keys of encrypted queues, with their names; an action that
puts a message on a queue models them. -/
def keyCodes : List (String × String) :=
  [("KMS.AccessDeniedException", "KmsAccessDenied"), ("KMS.DisabledException", "KmsDisabled"),
    ("KMS.InvalidKeyUsageException", "KmsInvalidKeyUsage"),
    ("KMS.InvalidStateException", "KmsInvalidState"), ("KMS.NotFoundException", "KmsNotFound"),
    ("KMS.OptInRequired", "KmsOptInRequired"), ("KMS.ThrottlingException", "KmsThrottled")]

/-- The codes that an action models, with their names. -/
def codes : Action → List (String × String)
  | putItem | deleteItem | updateItem => (tableCodes ++ writeCodes).map plain
  | getItem | query | batchGetItem => tableCodes.map plain
  | batchWriteItem =>
    (tableCodes ++ ["ItemCollectionSizeLimitExceededException",
      "ReplicatedWriteConflictException"]).map plain
  | transactWriteItems =>
    (tableCodes ++ ["IdempotentParameterMismatchException", transactionCancelled,
      "TransactionInProgressException"]).map plain
  | createQueue =>
    queueCodes ++ [("QueueAlreadyExists", "QueueNameExists"), inFamily "QueueDeletedRecently",
      plain "InvalidAttributeName", plain "InvalidAttributeValue"]
  | listQueues => queueCodes
  | getQueueUrl | deleteQueue => missingCode :: queueCodes
  | purgeQueue => missingCode :: inFamily "PurgeQueueInProgress" :: queueCodes
  | sendMessage => missingCode :: plain "InvalidMessageContents" :: (keyCodes ++ queueCodes)
  | sendMessageBatch =>
    missingCode :: inFamily "BatchRequestTooLong" :: (keyCodes ++ batchCodes ++ queueCodes)
  | deleteMessageBatch => missingCode :: (batchCodes ++ queueCodes)

/-- The name of a code that an action models. -/
def codeName? (a : Action) (code : String) : Option String :=
  (a.codes.find? (fun entry => entry.1 = code)).map (·.2)

end Action

end Depot
