import Depot.Queue

/-!
# Queue calls — operations on queues as data

A **`QueueCall`** is one operation with its arguments, or a direct change of the URLs that are known.
A run performs calls one after the other in one session, whatever became of the calls before.
-/

namespace Depot

/-- An operation on queues or on the URLs that are known. -/
inductive QueueCall where
  | create (name : String)
  | delete (name : String)
  | clear (name : String)
  | url (name : String)
  | push (name : String) (m : Message)
  | pushAll (name : String) (messages : List Message)
  | deleteMessages (name : String) (entries : List DeleteEntry)
  | list (startingWith : Option String)
  | lookUp (name : String)
  | remember (name url : String)
  | forget (name : String)
  | forgetAll

/-- What an operation on queues gives. -/
inductive QueueResult where
  | done
  | name (s : String)
  | url (s : Option String)
  | urls (l : List String)
  | pushed (o : PushOutcome)
  | deleted (o : DeleteOutcome)

namespace QueueCall

/-- Performs one call. -/
def perform : QueueCall → QueueRun QueueResult
  | create name => do
    let created ← Queue.create name
    pure (.name created)
  | delete name => do
    let _ ← Queue.delete name
    pure .done
  | clear name => do
    let _ ← Queue.clear name
    pure .done
  | url name => do
    let known ← Queue.url name
    pure (.url (some known))
  | push name m => do
    let outcome ← Queue.push name m
    pure (.pushed outcome)
  | pushAll name messages => do
    let outcome ← Queue.pushAll name messages
    pure (.pushed outcome)
  | deleteMessages name entries => do
    let outcome ← Queue.deleteMessages name entries
    pure (.deleted outcome)
  | list startingWith => do
    let urls ← Queue.list startingWith
    pure (.urls urls)
  | lookUp name => do
    let q ← get
    pure (.url (q.urls.find? name))
  | remember name target => do
    QueueRun.remember name target
    pure .done
  | forget name => do
    let q ← get
    QueueRun.forget name
    pure (.url (q.urls.find? name))
  | forgetAll => do
    modify fun q => { q with urls := .empty }
    pure .done

/-- Performs calls one after the other, and gives the results and the session at the end. -/
def performAll : List QueueCall → QueueSession → List (Except Error QueueResult) × QueueSession
  | [], q => ([], q)
  | call :: rest, q =>
    let (result, next) := call.perform.exec q
    let (results, last) := performAll rest next
    (result :: results, last)

end QueueCall

end Depot
