import Depot.Attribute.Basic
import Depot.Base64
import Depot.Json.Basic

/-!
# Attribute values on the wire

On the wire an attribute value is an object with one member, named by the letters of its type. Bytes
are base64 in the standard alphabet, filled up with equals signs. **`AttributeValue.wire`** writes
that object and **`AttributeValue.ofWire?`** reads it. The reader looks past members that are null
and past the mark of a type name, but takes neither two types nor none. Under a type that it does
not know it takes any document.
-/

namespace Depot

/-- The text of bytes on the wire. -/
def wireBytes (bytes : List UInt8) : Json :=
  .text (String.ofList (Base64.pad (Base64.encode .standard bytes)))

namespace AttributeValue

mutual

/-- An attribute value on the wire. -/
def wire : AttributeValue → Json
  | .text s => .object [("S", .text s)]
  | .number digits => .object [("N", .text digits)]
  | .binary bytes => .object [("B", wireBytes bytes)]
  | .boolean b => .object [("BOOL", .boolean b)]
  | .null b => .object [("NULL", .boolean b)]
  | .list elements => .object [("L", .array (wireList elements))]
  | .map entries => .object [("M", .object (wireEntries entries))]
  | .textSet elements => .object [("SS", .array (elements.map .text))]
  | .numberSet elements => .object [("NS", .array (elements.map .text))]
  | .binarySet elements => .object [("BS", .array (elements.map wireBytes))]
  | .unknown => .object []

/-- The elements of a list on the wire. -/
def wireList : List AttributeValue → List Json
  | [] => []
  | a :: rest => wire a :: wireList rest

/-- The entries of a map on the wire. -/
def wireEntries : List (String × AttributeValue) → List (String × Json)
  | [] => []
  | (name, a) :: rest => (name, wire a) :: wireEntries rest

end

end AttributeValue

/-- Attributes on the wire. -/
def Attributes.wire (attributes : Attributes) : Json :=
  .object (AttributeValue.wireEntries attributes.entries)

namespace Wire

/-- The texts of an array of texts. -/
def texts? : List Json → Option (List String)
  | [] => some []
  | .text s :: rest => (texts? rest).map (s :: ·)
  | _ :: _ => none

/-- The contents of texts that stand for bytes. -/
def contents? : List String → Option (List (List UInt8))
  | [] => some []
  | s :: rest => do
    let bytes ← Base64.decodePadded s.toList
    let others ← contents? rest
    some (bytes :: others)

end Wire

namespace AttributeValue

/-- The name of a member that may say of what type an object is, and that is no attribute value. -/
def typeMark : String := "__type"

/-- The letters of the known types. -/
def knownTypes : List String := ["S", "N", "B", "BOOL", "NULL", "L", "M", "SS", "NS", "BS"]

/-- The attribute value of a document that no known type reads. -/
def ofMisfit? (type : String) : Option AttributeValue :=
  if knownTypes.contains type then none else some .unknown

mutual

/-- The attribute value that an object on the wire stands for. -/
def ofWire? : Json → Option AttributeValue
  | .object members => match ofWireVariants? members with
    | some [a] => some a
    | _ => none
  | _ => none

/-- The attribute values that the members of an object stand for, each by its type. -/
def ofWireVariants? : List (String × Json) → Option (List AttributeValue)
  | [] => some []
  | (type, j) :: rest =>
    if j.isNull || type == typeMark then ofWireVariants? rest
    else do
      let a ← ofWireVariant? type j
      let others ← ofWireVariants? rest
      some (a :: others)

/-- The attribute value that a document stands for under a type. -/
def ofWireVariant? (type : String) : Json → Option AttributeValue
  | .text s =>
    if type = "S" then some (.text s)
    else if type = "N" then some (.number s)
    else if type = "B" then (Base64.decodePadded s.toList).map .binary
    else ofMisfit? type
  | .boolean b =>
    if type = "BOOL" then some (.boolean b)
    else if type = "NULL" then some (.null b)
    else ofMisfit? type
  | .array elements =>
    if type = "L" then (ofWireList? elements).map .list
    else if type = "SS" then (Wire.texts? elements).map .textSet
    else if type = "NS" then (Wire.texts? elements).map .numberSet
    else if type = "BS" then ((Wire.texts? elements).bind Wire.contents?).map .binarySet
    else ofMisfit? type
  | .object members =>
    if type = "M" then
      (ofWireEntries? members).map fun entries => .map (Mapping.ofList entries).entries
    else ofMisfit? type
  | _ => ofMisfit? type

/-- The attribute values of an array. -/
def ofWireList? : List Json → Option (List AttributeValue)
  | [] => some []
  | j :: rest => do
    let a ← ofWire? j
    let others ← ofWireList? rest
    some (a :: others)

/-- The attribute values of the members of an object. -/
def ofWireEntries? : List (String × Json) → Option (List (String × AttributeValue))
  | [] => some []
  | (name, j) :: rest => do
    let a ← ofWire? j
    let others ← ofWireEntries? rest
    some ((name, a) :: others)

end

end AttributeValue

/-- The attributes that an object on the wire stands for. -/
def Attributes.ofWire? : Json → Option Attributes
  | .object members => (AttributeValue.ofWireEntries? members).map Mapping.ofList
  | _ => none

end Depot
