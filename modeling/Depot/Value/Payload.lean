import Depot.Error
import Depot.Value.Basic
import Depot.Json.Printer

/-!
# Payloads — values as JSON

**`Value.payload`** is the JSON document of a value that is sent as a message. A set or bytes are a
list, the keys of a map become text and are sorted, a later entry of a key replacing an earlier one,
and a number that is not finite is null.
-/

namespace Depot.Value

/-- The text of a key in a payload. A number keeps the text it has as JSON. -/
def payloadKey : Value → Except PayloadFault String
  | .text s => .ok s
  | .integer n => .ok (String.ofList (Json.integerText n))
  | .boolean b => .ok (if b then "true" else "false")
  | .float x => if x.isFinite then .ok (x.text Json.numberFormat) else .error .keyNotFinite
  | .set _ v => payloadKey v
  | .failing reason => .error (.refused reason)
  | _ => .error .keyNotText

mutual

/-- The JSON document of a value. -/
def payload : Value → Except PayloadFault Json
  | .null => .ok .null
  | .boolean b => .ok (.boolean b)
  | .integer n => .ok (.integer n)
  | .float x => .ok (if x.isFinite then .float x else .null)
  | .text s => .ok (.text s)
  | .bytes content => .ok (.array (content.map fun b => .integer b.toNat))
  | .list elements => do
    let written ← payloadElements elements
    .ok (.array written)
  | .map entries => do
    let written ← payloadMembers entries
    .ok (.object (Mapping.ofList written).entries)
  | .set _ v => payload v
  | .failing reason => .error (.refused reason)

/-- The JSON documents of the elements of a list. -/
def payloadElements : List Value → Except PayloadFault (List Json)
  | [] => .ok []
  | v :: rest => do
    let written ← payload v
    let others ← payloadElements rest
    .ok (written :: others)

/-- The JSON members of the entries of a map, each key before its value. -/
def payloadMembers : List (Value × Value) → Except PayloadFault (List (String × Json))
  | [] => .ok []
  | (k, v) :: rest => do
    let name ← payloadKey k
    let written ← payload v
    let others ← payloadMembers rest
    .ok ((name, written) :: others)

end

end Depot.Value
