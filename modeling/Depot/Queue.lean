import Depot.Message
import Depot.Service.Session

/-!
# Queues — messages by the name of their queue

A **`QueueSession`** adds to a session the URLs of the queues that are known by name and a supply of
entry ids, from which every entry that is made takes the next one. A name is looked up once and
forgotten when its queue is deleted. Messages are pushed and deleted at most ten at a time, each ten
whatever became of the ten before; listing follows the pages of the service to their end.
-/

namespace Depot

/-- The URLs of queues under their names. -/
abbrev UrlCache := Mapping String

/-- A session, the URLs that are known, and a supply of entry ids of which some are taken. -/
structure QueueSession where
  session : Session
  urls : UrlCache
  ids : Nat → String
  taken : Nat

/-- A computation on queues that may come to nothing. -/
abbrev QueueRun (α : Type) := ExceptT Error (StateM QueueSession) α

namespace QueueRun

variable {α : Type}

/-- The result of a computation that starts in a session, and the session it ends in. -/
def exec (x : QueueRun α) (q : QueueSession) : Except Error α × QueueSession :=
  StateT.run (ExceptT.run x) q

/-- Sends a request and takes what it means, be it a fault. -/
def attempt (r : Request) : QueueRun (Except Fault Reply) :=
  modifyGet fun q =>
    let (outcome, next) := q.session.send r
    (outcome, { q with session := next })

/-- Sends a request and takes its reply. -/
def ask (r : Request) : QueueRun Reply := do
  match ← attempt r with
  | .ok reply => pure reply
  | .error fault => throw (.queue fault)

/-- Remembers the URL of a name. -/
def remember (name url : String) : QueueRun Unit :=
  modify fun q => { q with urls := q.urls.insert name url }

/-- Forgets the URL of a name. -/
def forget (name : String) : QueueRun Unit :=
  modify fun q => { q with urls := q.urls.erase name }

end QueueRun

namespace QueueSession

/-- The session before the first request, which knows no URL and has taken no id of its supply. -/
def opening (ids : Nat → String) (script : List (Request → Response)) : QueueSession :=
  ⟨.start script, .empty, ids, 0⟩

/-- The supply that numbers its ids. -/
def numberedId (n : Nat) : String := "id-" ++ n.repr

/-- The session before the first request whose ids are numbered. -/
def start (script : List (Request → Response)) : QueueSession := opening numberedId script

end QueueSession

namespace Queue

open QueueRun

/-- The largest number of entries in one request. -/
def maxBatchSize : Nat := 10

/-- A list cut into pieces of n + 1 elements, the last one possibly shorter. -/
def pieces {α : Type} (n : Nat) : List α → List (List α)
  | [] => []
  | a :: rest => (a :: rest.take n) :: pieces n (rest.drop n)
termination_by l => l.length
decreasing_by rw [List.length_drop, List.length_cons]; omega

/-- A list cut into batches. -/
def batches {α : Type} (l : List α) : List (List α) := pieces (maxBatchSize - 1) l

/-- Whether a fault says that the queue does not exist. -/
def isMissing : Fault → Bool
  | .modelled name _ _ => name == Action.queueMissing
  | _ => false

/-- The URL of a queue, from memory or from the service. -/
def url (name : String) : QueueRun String := do
  match (← get).urls.find? name with
  | some known => pure known
  | none =>
    match ← attempt (.getQueueUrl name) with
    | .error fault =>
      throw (if isMissing fault then .queueNotFound name else .queue fault)
    | .ok reply =>
      match reply.queueUrl with
      | none => throw (.queueNotFound name)
      | some found => do
        remember name found
        pure found

/-- Creates a queue and gives its name. -/
def create (name : String) : QueueRun String := do
  let reply ← ask (.createQueue name)
  match reply.queueUrl with
  | none => pure name
  | some found => do
    remember name found
    pure name

/-- Deletes a queue and forgets its URL. -/
def delete (name : String) : QueueRun Unit := do
  let known ← url name
  let _ ← ask (.deleteQueue known)
  forget name

/-- Deletes every message of a queue. -/
def clear (name : String) : QueueRun Unit := do
  let known ← url name
  let _ ← ask (.purgeQueue known)
  pure ()

/-- Pushes one message. -/
def push (name : String) (m : Message) : QueueRun PushOutcome := do
  let known ← url name
  let outcome ← attempt (.sendMessage known m.body.wireText m.delivery)
  pure (.ofSingle outcome)

/-- The entries of messages, each with the next id of the supply. -/
def takeEntries (messages : List Message) : QueueRun (List PushEntry) :=
  modifyGet fun q =>
    (messages.mapIdx fun i m => m.entry (q.ids (q.taken + i)),
      { q with taken := q.taken + messages.length })

/-- Pushes batches of entries one after the other. -/
def pushBatches (known : String) : List (List PushEntry) → QueueRun PushOutcome
  | [] => pure .empty
  | entries :: rest => do
    let outcome ← attempt (.sendMessageBatch known entries)
    let others ← pushBatches known rest
    pure ((PushOutcome.ofBatch (entries.map (·.id)) outcome).append others)

/-- Pushes several messages. -/
def pushAll (name : String) (messages : List Message) : QueueRun PushOutcome :=
  if messages.isEmpty then pure .empty
  else do
    let known ← url name
    let entries ← takeEntries messages
    pushBatches known (batches entries)

/-- Deletes batches of received messages one after the other. -/
def deleteBatches (known : String) : List (List DeleteEntry) → QueueRun DeleteOutcome
  | [] => pure .empty
  | entries :: rest => do
    let outcome ← attempt (.deleteMessageBatch known entries)
    let others ← deleteBatches known rest
    pure ((DeleteOutcome.ofBatch (entries.map (·.id)) outcome).append others)

/-- Deletes several received messages. -/
def deleteMessages (name : String) (entries : List DeleteEntry) : QueueRun DeleteOutcome :=
  if entries.isEmpty then pure .empty
  else do
    let known ← url name
    deleteBatches known (batches entries)

/-- The URLs of all pages from a token on, the requests sent for them, and the answers left. When no
answer is left, the next page is blank and the last one. -/
def pages (startingWith : Option String) : List (Request → Response) → Option String →
    Except Fault (List String) × List Request × List (Request → Response)
  | [], token => (.ok [], [.listQueues startingWith token], [])
  | answer :: rest, token =>
    let r : Request := .listQueues startingWith token
    match (answer r).outcome .listQueues with
    | .error fault => (.error fault, [r], rest)
    | .ok reply =>
      match reply.nextToken with
      | none => (.ok reply.queueUrls, [r], rest)
      | some next =>
        let (urls, sent, left) := pages startingWith rest (some next)
        (urls.map (reply.queueUrls ++ ·), r :: sent, left)

/-- The URLs of the queues whose name starts with a text, or of all queues. -/
def list (startingWith : Option String) : QueueRun (List String) := do
  let urls ← modifyGet fun q =>
    let (urls, sent, left) := pages (startingWith.filter (· ≠ "")) q.session.script none
    (urls, { q with session := ⟨left, q.session.sent ++ sent⟩ })
  match urls with
  | .ok found => pure found
  | .error fault => throw (.queue fault)

end Queue

end Depot
