import Depot.Error
import Depot.Json.Basic
import Depot.Number.Reading

/-!
# Decoding — attribute values as JSON values

**`AttributeValue.decode`** gives the JSON value of what a table stores. The text of a number is
read as an integer if it is one that 64 bits can hold, with or without a sign, and otherwise as a
double-precision number; one that is not finite is null. Bytes have no JSON value, nor has a value
of an unknown type.
-/

namespace Depot

namespace AttributeValue

/-- Whether 64 bits can hold an integer, with a sign or without. -/
def fits (n : Int) : Bool := decide (-Int.pow 2 63 ≤ n) && decide (n < Int.pow 2 64)

/-- The JSON value of a double-precision number. -/
def floatJson (x : Double) : Json := if x.isFinite then .float x else .null

/-- The JSON value of the text of a number. -/
def decodeNumber (digits : String) : Except ValueFault Json :=
  match (Number.integer? digits.toList).filter fits with
  | some n => .ok (.integer n)
  | none => match Number.double? digits.toList with
    | some x => .ok (floatJson x)
    | none => .error (.notANumber digits)

/-- The JSON values of the texts of numbers. -/
def decodeNumbers : List String → Except ValueFault (List Json)
  | [] => .ok []
  | digits :: rest => do
    let n ← decodeNumber digits
    let others ← decodeNumbers rest
    .ok (n :: others)

mutual

/-- The JSON value of an attribute value. -/
def decode : AttributeValue → Except ValueFault Json
  | .text s => .ok (.text s)
  | .number digits => decodeNumber digits
  | .binary _ => .error .binary
  | .boolean b => .ok (.boolean b)
  | .null b => if b then .ok .null else .error .falseNull
  | .list elements => do
    let decoded ← decodeList elements
    .ok (.array decoded)
  | .map entries => do
    let decoded ← decodeEntries entries
    .ok (.object decoded)
  | .textSet elements => .ok (.array (elements.map .text))
  | .numberSet elements => do
    let decoded ← decodeNumbers elements
    .ok (.array decoded)
  | .binarySet [] => .ok (.array [])
  | .binarySet (_ :: _) => .error .binary
  | .unknown => .error .unknownType

/-- The JSON values of a list. -/
def decodeList : List AttributeValue → Except ValueFault (List Json)
  | [] => .ok []
  | a :: rest => do
    let decoded ← decode a
    let others ← decodeList rest
    .ok (decoded :: others)

/-- The JSON members of the entries of a map. -/
def decodeEntries : List (String × AttributeValue) → Except ValueFault (List (String × Json))
  | [] => .ok []
  | (name, a) :: rest => do
    let decoded ← decode a
    let others ← decodeEntries rest
    .ok ((name, decoded) :: others)

end

end AttributeValue

/-- The JSON object of the attributes of an item. -/
def Attributes.decode (attributes : Attributes) : Except ValueFault Json :=
  (AttributeValue.map attributes.entries).decode

/-- The JSON objects of several items, where the first item that fails decides the fault. -/
def Attributes.decodeAll : List Attributes → Except ValueFault (List Json)
  | [] => .ok []
  | attributes :: rest => do
    let decoded ← Attributes.decode attributes
    let others ← decodeAll rest
    .ok (decoded :: others)

end Depot
