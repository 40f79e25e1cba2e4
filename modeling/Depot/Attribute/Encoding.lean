import Depot.Error
import Depot.Value.Basic
import Depot.Number.Layout
import Depot.Json.Printer

/-!
# Encoding — values as attribute values

**`Value.encode`** turns a value into what a table stores, part by part in order, and the first
part that fails decides the fault. **`Value.item`** asks in addition for a map. Numbers become
their text, the shortest one that reads back and never with an exponent.
-/

namespace Depot

/-- Numbers are written with all their places and without a mark behind a whole number, and a tie
goes up. -/
def AttributeValue.numberFormat : NumberFormat where
  tie := .up
  positional := fun _ => true
  wholeMark := ""
  notANumber := "NaN"
  infinity := "inf"

namespace Value

/-- The decimal text of an integer. -/
def integerText (n : Int) : String := String.ofList (Json.integerText n)

/-- The text of a key: a text, an integer or a truth value, also one that is marked as a set. -/
def keyText : Value → Except ValueFault String
  | .text s => .ok s
  | .integer n => .ok (integerText n)
  | .boolean b => .ok (if b then "true" else "false")
  | .set _ v => keyText v
  | .failing reason => .error (.refused reason)
  | _ => .error .keyNotText

/-- The texts of elements that are all texts. -/
def textElements : List AttributeValue → Except ValueFault (List String)
  | [] => .ok []
  | .text s :: rest => (textElements rest).map (s :: ·)
  | _ :: _ => .error (.wrongElement .text)

/-- The texts of elements that are all numbers. -/
def numberElements : List AttributeValue → Except ValueFault (List String)
  | [] => .ok []
  | .number s :: rest => (numberElements rest).map (s :: ·)
  | _ :: _ => .error (.wrongElement .number)

/-- The contents of elements that are all bytes. -/
def binaryElements : List AttributeValue → Except ValueFault (List (List UInt8))
  | [] => .ok []
  | .binary b :: rest => (binaryElements rest).map (b :: ·)
  | _ :: _ => .error (.wrongElement .binary)

/-- The set of the elements of a list, which keeps their order and repetitions. -/
def setOf (kind : ScalarKind) : AttributeValue → Except ValueFault AttributeValue
  | .list elements => match kind with
    | .text => (textElements elements).map .textSet
    | .number => (numberElements elements).map .numberSet
    | .binary => (binaryElements elements).map .binarySet
  | _ => .error .notASet

mutual

/-- What a table stores for a value. -/
def encode : Value → Except ValueFault AttributeValue
  | .null => .ok (.null true)
  | .boolean b => .ok (.boolean b)
  | .integer n => .ok (.number (integerText n))
  | .float x => .ok (.number (x.text AttributeValue.numberFormat))
  | .text s => .ok (.text s)
  | .bytes content => .ok (.binary content)
  | .list elements => do
    let encoded ← encodeList elements
    .ok (.list encoded)
  | .map entries => do
    let encoded ← encodeEntries entries
    .ok (.map (Mapping.ofList encoded).entries)
  | .set kind elements => do
    let encoded ← encode elements
    setOf kind encoded
  | .failing reason => .error (.refused reason)

/-- What a table stores for the elements of a list. -/
def encodeList : List Value → Except ValueFault (List AttributeValue)
  | [] => .ok []
  | v :: rest => do
    let encoded ← encode v
    let others ← encodeList rest
    .ok (encoded :: others)

/-- What a table stores for the entries of a map, each key before its value. -/
def encodeEntries : List (Value × Value) → Except ValueFault (List (String × AttributeValue))
  | [] => .ok []
  | (k, v) :: rest => do
    let name ← keyText k
    let encoded ← encode v
    let others ← encodeEntries rest
    .ok ((name, encoded) :: others)

end

/-- The attributes of a value that is a map. -/
def item (v : Value) : Except ValueFault Attributes :=
  match v.encode with
  | .error fault => .error fault
  | .ok (.map entries) => .ok (Mapping.ofList entries)
  | .ok _ => .error .notAMap

end Value

end Depot
