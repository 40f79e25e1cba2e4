import Depot.Number.Double

/-!
# JSON values

A **`Json`** is a JSON document as data, with integers and double-precision numbers kept apart. An
object lists its members in the order in which they are written.
-/

namespace Depot

/-- A JSON document. -/
inductive Json where
  | null
  | boolean (b : Bool)
  | integer (n : Int)
  | float (x : Double)
  | text (s : String)
  | array (elements : List Json)
  | object (members : List (String × Json))
  deriving Inhabited

namespace Json

/-- Whether a document is null. -/
def isNull : Json → Bool
  | .null => true
  | _ => false

/-- The member of a name, the last one where there are several. -/
def member? (name : String) : Json → Option Json
  | .object members => (members.reverse.find? (fun m => m.1 = name)).map (·.2)
  | _ => none

/-- The members of an object that carry a value. -/
def present (members : List (String × Option Json)) : Json :=
  .object (members.filterMap fun (name, value) => value.map fun v => (name, v))

end Json

end Depot
