import Depot.Number.Reading
import Depot.Wire.Attribute

/-!
# Shapes — what a document on the wire must look like

A **`Shape`** says of what kind a document is: a text, a number, an attribute value, or a list, map
or record of documents that have shapes themselves. `Shape.fits` decides whether a document has a
shape. Lists and maps are dense, so null is neither an element nor a value of theirs; the fields of
a record may be null or missing, and members that are no fields of it are not looked at. Numbers
that are not finite stand in a document as texts, so a decimal may be a text that is read as such a
number, be it a word or digits too large.
-/

namespace Depot

/-- The kind of a document. -/
inductive Shape where
  | text
  | boolean
  | integer
  | decimal
  | attribute
  | list (element : Shape)
  | map (value : Shape)
  | record (fields : List (String × Shape))

namespace Shape

/-- Whether an integer has room in thirty-two bits with a sign. -/
def fitsWord (n : Int) : Bool := -Int.pow 2 31 ≤ n && n < Int.pow 2 31

/-- Whether a text is read as a number that is not finite. -/
def isNonFinite (s : String) : Bool := (Number.double? s.toList).any fun x => !x.isFinite

mutual

/-- Whether a document has a shape. -/
def fits : Shape → Json → Bool
  | .text, .text _ => true
  | .boolean, .boolean _ => true
  | .integer, .integer n => fitsWord n
  | .integer, .float x => x.integer?.any fitsWord
  | .decimal, .integer _ => true
  | .decimal, .float _ => true
  | .decimal, .text s => isNonFinite s
  | .attribute, j => (AttributeValue.ofWire? j).isSome
  | .list element, .array elements => fitsAll element elements
  | .map value, .object members => fitsValues value members
  | .record fields, .object members => fitsFields fields members
  | _, _ => false

/-- Whether all elements of an array have a shape. -/
def fitsAll (element : Shape) : List Json → Bool
  | [] => true
  | j :: rest => fits element j && fitsAll element rest

/-- Whether all members of an object have a shape. -/
def fitsValues (value : Shape) : List (String × Json) → Bool
  | [] => true
  | (_, j) :: rest => fits value j && fitsValues value rest

/-- Whether each member of an object that is a field, and not null, has the shape of that field. -/
def fitsFields (fields : List (String × Shape)) : List (String × Json) → Bool
  | [] => true
  | (name, j) :: rest =>
    (match fields.lookup name with
      | some s => j.isNull || fits s j
      | none => true) && fitsFields fields rest

end

/-- The shape of attributes. -/
def attributes : Shape := .map .attribute

/-- A record whose fields are all texts. -/
def texts (names : List String) : Shape := .record (names.map fun name => (name, .text))

example : (list text).fits (.array [.text "a", .null]) = false := by decide

example : decimal.fits (.text "-inf") = true ∧ decimal.fits (.text "1") = false := by
  decide +kernel

example : (texts ["a"]).fits (.object [("a", .null), ("b", .integer 1)]) = true := by decide

end Shape

end Depot
