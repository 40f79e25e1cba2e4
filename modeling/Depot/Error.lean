import Depot.Attribute.Basic
import Depot.Service.Action
import Depot.Text.Position

/-!
# Errors — causes and their wording

An **`Error`** says why an operation came to nothing: a request that cannot be built, an item that
cannot be read, or a **`Fault`** that the service answered with. `Error.message` words each cause in
one place, and `Error.isConditionFailure` tells a write whose condition did not hold from every
other error.
-/

namespace Depot

/-- Why a value does not become an attribute value, or an attribute value a JSON value. -/
inductive ValueFault where
  | refused (reason : String)
  | keyNotText
  | notASet
  | wrongElement (kind : ScalarKind)
  | notAMap
  | notANumber (digits : String)
  | binary
  | falseNull
  | unknownType
  deriving DecidableEq, Repr

/-- Why a value does not become the body of a message. -/
inductive PayloadFault where
  | refused (reason : String)
  | keyNotText
  | keyNotFinite
  deriving DecidableEq, Repr

/-- Which layer of a cursor is broken. -/
inductive CursorFault where
  | base64
  | json
  deriving DecidableEq, Repr

/-- How a service failed to carry out a request. -/
inductive Fault where
  | modelled (name : String) (detail : Option String) (reasons : List (Option String))
  | unknown (code : String)
  | unreadable
  | unreachable
  deriving DecidableEq, Repr

/-- Why an operation came to nothing. -/
inductive Error where
  | emptyCondition
  | emptyInList (column : String)
  | emptyTransaction
  | emptyUpdate
  | invalidCursor (layer : CursorFault)
  | payload (fault : PayloadFault)
  | queue (fault : Fault)
  | queueNotFound (name : String)
  | value (fault : ValueFault)
  | store (fault : Fault)
  | unsupportedCursorValue (name : String)
  deriving DecidableEq, Repr

/-- How a set names itself. -/
def ScalarKind.title : ScalarKind → String
  | .text => "String"
  | .number => "Number"
  | .binary => "Binary"

/-- How a set names its elements. -/
def ScalarKind.element : ScalarKind → String
  | .text => "string"
  | .number => "number"
  | .binary => "binary"

/-- The wording of a value's fault. -/
def ValueFault.message : ValueFault → String
  | .refused reason => reason
  | .keyNotText => "Key must be a string"
  | .notASet => "Not a set-like sequence"
  | .wrongElement kind => kind.title ++ " set element does not serialize to " ++ kind.element
  | .notAMap => "Not a map-like object"
  | .notANumber digits =>
    "Failed to parse '" ++ digits ++ "' as a float: " ++
      (if digits = "" then "cannot parse float from empty string" else "invalid float literal")
  | .binary => "invalid type: byte array, expected any valid JSON value"
  | .falseNull => "Expected unit"
  | .unknownType => "unknown attribute type"

/-- The wording of a payload's fault. A place that a reason ends in is written anew. -/
def PayloadFault.message : PayloadFault → String
  | .refused reason => Text.restatePosition reason
  | .keyNotText => "key must be a string"
  | .keyNotFinite => "float key must be finite (got NaN or +/-inf)"

/-- The wording of a broken layer. -/
def CursorFault.message : CursorFault → String
  | .base64 => "<base64>"
  | .json => "<json>"

/-- The wording of a service's fault. -/
def Fault.message : Fault → String
  | .modelled name none _ => name
  | .modelled name (some detail) _ => name ++ ": " ++ detail
  | .unknown code => "unhandled error (" ++ code ++ ")"
  | .unreadable => "unhandled error"
  | .unreachable => "unhandled error"

/-- The wording of an error. -/
def Error.message : Error → String
  | .emptyCondition => "condition check requires a non-empty condition"
  | .emptyInList column => "`in` condition on `" ++ column ++ "` requires at least one value"
  | .emptyTransaction => "transactional write requires at least one operation"
  | .emptyUpdate => "update requires at least one SET, REMOVE, ADD or DELETE entry"
  | .invalidCursor layer => "invalid pagination cursor: " ++ layer.message
  | .payload fault => fault.message
  | .queue fault => fault.message
  | .queueNotFound name => name ++ " queue does not exist"
  | .value fault => fault.message
  | .store fault => fault.message
  | .unsupportedCursorValue name =>
    "attribute `" ++ name ++ "` cannot be encoded in a pagination cursor"

/-- The reason of a cancelled transaction whose condition did not hold. -/
def Fault.conditionReason : String := "ConditionalCheckFailed"

/-- Whether a fault says that a condition did not hold: a single write's own code, or a cancelled
transaction with such a reason among its reasons. -/
def Fault.isConditionFailure : Fault → Bool
  | .modelled name _ reasons =>
    name == Action.conditionFailed ||
      (name == Action.transactionCancelled && reasons.any (· == some conditionReason))
  | _ => false

/-- Whether an error says that the condition of a write did not hold. -/
def Error.isConditionFailure : Error → Bool
  | .store fault => fault.isConditionFailure
  | _ => false

end Depot
