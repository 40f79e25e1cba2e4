import Depot.Mapping

/-!
# Attribute values — what a table stores under a name

An **`AttributeValue`** is a text, a number kept as its text, bytes, a truth value, null, a list, a
map or a set of one of the first three. The entries of a map are sorted by name without a repeated
name. A table may also hold values of a type that this library does not know; of these it is known
only that they are there. The attributes of an item, a key or a placeholder table are a mapping of
such values.
-/

namespace Depot

/-- The kinds of value that can be part of a key or an element of a set. -/
inductive ScalarKind where
  | text
  | number
  | binary
  deriving DecidableEq, Repr

/-- The letter of a kind. -/
def ScalarKind.letter : ScalarKind → String
  | .text => "S"
  | .number => "N"
  | .binary => "B"

/-- The kind of a letter. -/
def ScalarKind.ofLetter? (letter : String) : Option ScalarKind :=
  if letter = "S" then some .text
  else if letter = "N" then some .number
  else if letter = "B" then some .binary
  else none

/-- A value that a table stores. -/
inductive AttributeValue where
  | text (s : String)
  | number (digits : String)
  | binary (bytes : List UInt8)
  | boolean (b : Bool)
  | null (b : Bool)
  | list (elements : List AttributeValue)
  | map (entries : List (String × AttributeValue))
  | textSet (elements : List String)
  | numberSet (elements : List String)
  | binarySet (elements : List (List UInt8))
  | unknown
  deriving Inhabited

/-- Attribute values under their names. -/
abbrev Attributes := Mapping AttributeValue

end Depot
