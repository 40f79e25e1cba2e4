import Depot.Number.Double
import Depot.Attribute.Basic
import Depot.Json.Basic

/-!
# Values — what a caller hands over

A **`Value`** is anything a caller gives to be stored, compared or sent: a JSON value, bytes, a map
with keys of any kind, a list marked as a set, or something that refuses to be written and says why.
-/

namespace Depot

/-- A value in the hands of a caller. -/
inductive Value where
  | null
  | boolean (b : Bool)
  | integer (n : Int)
  | float (x : Double)
  | text (s : String)
  | bytes (content : List UInt8)
  | list (elements : List Value)
  | map (entries : List (Value × Value))
  | set (kind : ScalarKind) (elements : Value)
  | failing (reason : String)
  deriving Inhabited

namespace Value

mutual

/-- A JSON document as a value. -/
def ofJson : Json → Value
  | .null => .null
  | .boolean b => .boolean b
  | .integer n => .integer n
  | .float x => .float x
  | .text s => .text s
  | .array elements => .list (ofElements elements)
  | .object members => .map (ofMembers members)

/-- The elements of an array as values. -/
def ofElements : List Json → List Value
  | [] => []
  | j :: rest => ofJson j :: ofElements rest

/-- The members of an object as entries of a map. -/
def ofMembers : List (String × Json) → List (Value × Value)
  | [] => []
  | (name, j) :: rest => (.text name, ofJson j) :: ofMembers rest

end

end Value

end Depot
