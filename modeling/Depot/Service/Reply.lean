import Depot.Error
import Depot.Service.Code

/-!
# Replies — what a service answers

A **`Response`** is a **`Reply`** with the fields that an operation may look at, a refusal with an
error code, something that cannot be read, or nothing at all. What it means to the action that asked
is its **`Response.outcome`**.
-/

namespace Depot

/-- A write of a batch that a table left undone. -/
inductive UnprocessedWrite where
  | put (item : Attributes)
  | delete (key : Attributes)
  | blank

/-- A message of a batch that a queue accepted. -/
structure Acceptance where
  id : String
  messageId : String
  deriving DecidableEq, Repr

/-- An entry of a batch that a queue did not accept. -/
structure Rejection where
  id : String
  code : String
  detail : Option String
  deriving DecidableEq, Repr

/-- The fields of an answer, each empty unless the action that was called has it. -/
structure Reply where
  attributes : Option Attributes
  item : Option Attributes
  items : List Attributes
  lastEvaluatedKey : Option Attributes
  unprocessedItems : Mapping (List UnprocessedWrite)
  responses : Mapping (List Attributes)
  unprocessedKeys : Mapping (List Attributes)
  queueUrl : Option String
  messageId : Option String
  successful : List Acceptance
  failed : List Rejection
  queueUrls : List String
  nextToken : Option String

/-- The reply in which every field is empty. -/
def Reply.blank : Reply where
  attributes := none
  item := none
  items := []
  lastEvaluatedKey := none
  unprocessedItems := .empty
  responses := .empty
  unprocessedKeys := .empty
  queueUrl := none
  messageId := none
  successful := []
  failed := []
  queueUrls := []
  nextToken := none

/-- What comes back for a request. -/
inductive Response where
  | reply (r : Reply)
  | refusal (code : String) (detail : Option String) (reasons : List (Option String))
  | unreadable
  | dropped

/-- The fault of an error code that an action is answered with: it is looked up in its bare form. -/
def Fault.ofCode (a : Action) (code : String) (detail : Option String)
    (reasons : List (Option String)) : Fault :=
  match a.codeName? (ErrorCode.bare code) with
  | some name => .modelled name detail reasons
  | none => .unknown (ErrorCode.bare code)

/-- What a response means to the action that asked. -/
def Response.outcome (a : Action) : Response → Except Fault Reply
  | .reply r => .ok r
  | .refusal code detail reasons => .error (.ofCode a code detail reasons)
  | .unreadable => .error .unreadable
  | .dropped => .error .unreachable

end Depot
