import Depot.Fragment
import Depot.Attribute.Encoding

/-!
# Keys — which item is meant

**`Keys`** are a partition key and possibly a sort key, each a name with a value. Their attributes
are a mapping, in which the partition key wins when both have one name. The value of the sort key is
encoded first.
-/

namespace Depot

/-- An attribute that is part of a key. -/
structure Key where
  name : String
  value : Value

/-- The partition key of an item and its sort key, if it has one. -/
structure Keys where
  partition : Key
  sort : Option Key

namespace Keys

/-- The keys with a sort key, or as they are when none is given. -/
def withSort (k : Keys) : Option Key → Keys
  | none => k
  | some sort => { k with sort := some sort }

/-- The parts of the keys in the order in which they are encoded. -/
def parts (k : Keys) : List Key := k.sort.toList ++ [k.partition]

/-- The attributes of the keys. -/
def encode (k : Keys) : Except Error Attributes :=
  match Value.encodeList (k.parts.map (·.value)) with
  | .error fault => .error (.value fault)
  | .ok encoded => .ok (Mapping.ofList ((k.parts.map (·.name)).zip encoded))

end Keys

end Depot
