import Depot.Wire.Reply

/-!
# Refusals on the wire

The document of a refusal holds an error code and perhaps a text about it, each under one of a few
names: **`Wire.errorCode?`** and **`Wire.errorText?`** look for them. An error that the action
models has a shape, **`Wire.errorShape`**, with a field of its own for the text, which counts before
any other; a document that does not fit it cannot be read. Of any other error nothing else is looked
at.
-/

namespace Depot

namespace Wire

/-- Why one part of a transaction was not carried out. -/
def reasonShape : Shape :=
  .record [("Item", .attributes), ("Code", .text), ("Message", .text)]

/-- Why requests are held back. -/
def throttlingShape : Shape := .list (.texts ["reason", "resource"])

/-- The errors whose text is in a field with a capital letter. -/
def capitalErrors : List String :=
  ["InvalidEndpointException", "IdempotentParameterMismatchException",
    Action.transactionCancelled, "TransactionInProgressException"]

/-- The field for the text of an error, by the name of the error. -/
def detailName (name : String) : String :=
  if capitalErrors.contains name then "Message" else "message"

/-- The fields of an error beside its text, by the name of the error. -/
def errorFields (name : String) : List (String × Shape) :=
  if name = Action.transactionCancelled then [("CancellationReasons", .list reasonShape)]
  else if name = Action.conditionFailed then [("Item", .attributes)]
  else if name = "ThrottlingException" then [("throttlingReasons", throttlingShape)]
  else if name = "RequestLimitExceeded" then [("ThrottlingReasons", throttlingShape)]
  else if name = "ProvisionedThroughputExceededException" then
    [("ThrottlingReasons", throttlingShape)]
  else []

/-- The shape of the document of an error, by the name of the error. -/
def errorShape (name : String) : Shape := .record ((detailName name, .text) :: errorFields name)

/-- The first text among fields. -/
def firstText? (names : List String) (j : Json) : Option String :=
  names.findSome? fun name => textField? name j

/-- The error code of a document. -/
def errorCode? (j : Json) : Option String := firstText? ["code", "__type"] j

/-- The text that a document holds about its error. -/
def errorText? (j : Json) : Option String := firstText? ["message", "errorMessage", "Message"] j

/-- The codes of the reasons in the document of an error. -/
def reasons (j : Json) : List (Option String) :=
  (elements (j.member? "CancellationReasons")).map (textField? "Code")

end Wire

/-- The response of the document of a refusal. -/
def Response.ofWireRefusal (a : Action) (j : Json) : Response :=
  match Wire.errorCode? j with
  | none => .unreadable
  | some code => match a.codeName? (ErrorCode.bare code) with
    | none => .refusal code (Wire.errorText? j) []
    | some name =>
      if (Wire.errorShape name).fits j then
        let detail := Wire.textField? (Wire.detailName name) j
        .refusal code (detail.or (Wire.errorText? j)) (Wire.reasons j)
      else .unreadable

end Depot
