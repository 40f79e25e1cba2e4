import Depot.Json.Printer
import Depot.Request
import Depot.Service.Reply
import Depot.Value.Payload

/-!
# Messages — what goes into a queue and what becomes of it

A **`Message`** is a text or a JSON document with settings for its delivery that an absent or falsy
argument never changes. A **`PushOutcome`** and a **`DeleteOutcome`** sort the entries of a batch
into those the queue took and those it did not; a request that failed as a whole counts as the
failure of each of its entries.
-/

namespace Depot

/-- The content of a message. -/
inductive MessageBody where
  | text (s : String)
  | json (j : Json)

namespace MessageBody

/-- The body of a value. -/
def ofValue (v : Value) : Except Error MessageBody := (v.payload.mapError .payload).map .json

/-- The text that is sent. -/
def wireText : MessageBody → String
  | .text s => s
  | .json j => j.render

end MessageBody

/-- A delivery without settings. -/
def Delivery.plain : Delivery := ⟨none, none, none⟩

/-- Something to be pushed into a queue. -/
structure Message where
  body : MessageBody
  delivery : Delivery

namespace Message

/-- A message without settings for its delivery. -/
def ofBody (body : MessageBody) : Message := ⟨body, .plain⟩

/-- The message with a delay, unless it is absent or zero. -/
def withDelaySeconds (m : Message) (delay : Option Int) : Message :=
  { m with delivery.delaySeconds := (delay.filter (· ≠ 0)).or m.delivery.delaySeconds }

/-- The message with a deduplication id, unless it is absent or empty. -/
def withDeduplicationId (m : Message) (id : Option String) : Message :=
  { m with delivery.deduplicationId := (id.filter (· ≠ "")).or m.delivery.deduplicationId }

/-- The message with a group, unless it is absent or empty. -/
def withGroupId (m : Message) (id : Option String) : Message :=
  { m with delivery.groupId := (id.filter (· ≠ "")).or m.delivery.groupId }

/-- The message as the entry of a batch. -/
def entry (m : Message) (id : String) : PushEntry := ⟨id, m.body.wireText, m.delivery⟩

end Message

/-- A message that a queue took, with the id of its entry if it was part of a batch. -/
structure PushSuccess where
  id : Option String
  messageId : String
  deriving DecidableEq, Repr

/-- An entry that a queue did not take, or a message that was not part of a batch. -/
structure Failure where
  id : Option String
  code : Option String
  detail : Option String
  deriving DecidableEq, Repr

/-- The failure that a queue reports of an entry. -/
def Rejection.failure (r : Rejection) : Failure := ⟨some r.id, some r.code, r.detail⟩

/-- The failures of the entries of a request that failed as a whole. -/
def Failure.ofRequest (ids : List String) (fault : Fault) : List Failure :=
  ids.map fun id => ⟨some id, none, some (Error.queue fault).message⟩

/-- What became of pushed messages. -/
structure PushOutcome where
  success : List PushSuccess
  failed : List Failure

namespace PushOutcome

/-- The outcome of no message. -/
def empty : PushOutcome := ⟨[], []⟩

/-- Two outcomes, one after the other. -/
def append (a b : PushOutcome) : PushOutcome := ⟨a.success ++ b.success, a.failed ++ b.failed⟩

/-- The outcome of a message that was sent alone. -/
def ofSingle : Except Fault Reply → PushOutcome
  | .ok r => ⟨[⟨none, r.messageId.getD ""⟩], []⟩
  | .error fault => ⟨[], [⟨none, none, some (Error.queue fault).message⟩]⟩

/-- The outcome of a batch with the given entry ids. -/
def ofBatch (ids : List String) : Except Fault Reply → PushOutcome
  | .ok r => ⟨r.successful.map fun a => ⟨some a.id, a.messageId⟩, r.failed.map Rejection.failure⟩
  | .error fault => ⟨[], Failure.ofRequest ids fault⟩

end PushOutcome

/-- What became of messages that were to be deleted. -/
structure DeleteOutcome where
  success : List String
  failed : List Failure

namespace DeleteOutcome

/-- The outcome of no message. -/
def empty : DeleteOutcome := ⟨[], []⟩

/-- Two outcomes, one after the other. -/
def append (a b : DeleteOutcome) : DeleteOutcome := ⟨a.success ++ b.success, a.failed ++ b.failed⟩

/-- The outcome of a batch with the given entry ids. -/
def ofBatch (ids : List String) : Except Fault Reply → DeleteOutcome
  | .ok r => ⟨r.successful.map (·.id), r.failed.map Rejection.failure⟩
  | .error fault => ⟨[], Failure.ofRequest ids fault⟩

end DeleteOutcome

end Depot
