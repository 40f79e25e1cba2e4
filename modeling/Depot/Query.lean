import Depot.Attribute.Decoding
import Depot.Cursor
import Depot.Key
import Depot.Service.Session

/-!
# Queries — one page of items after another

A **`KeyCondition`** fixes the partition key and may restrict the sort key; the placeholder of the
sort key steps aside when it could be taken for that of the partition key. **`QueryOptions`** are
settings that an absent or falsy argument never changes. A **`Page`** has a cursor exactly when the
table reports a last key, and the cursor given to the next query is that key again.
-/

namespace Depot

/-- How a sort key is compared with a value. -/
inductive SortComparison where
  | equal
  | less
  | lessOrEqual
  | greater
  | greaterOrEqual
  deriving DecidableEq, Repr

/-- The operator of a comparison. -/
def SortComparison.symbol : SortComparison → String
  | .equal => "="
  | .less => "<"
  | .lessOrEqual => "<="
  | .greater => ">"
  | .greaterOrEqual => ">="

/-- What is asked of a sort key. -/
inductive SortTest where
  | compare (comparison : SortComparison) (operand : Value)
  | beginsWith (operand : Value)
  | between (low high : Value)

/-- A test of the sort key of a name. -/
structure SortKey where
  name : String
  test : SortTest

/-- The partition key and possibly a test of the sort key. -/
structure KeyCondition where
  partition : Key
  sort : Option SortKey

namespace SortKey

/-- Whether a placeholder could be taken for one that is derived from another. -/
def collides (placeholder partition : String) : Bool :=
  partition == placeholder || partition == placeholder ++ "_start" ||
    partition == placeholder ++ "_end"

/-- The placeholder of a sort key beside that of the partition key. -/
def placeholder (k : SortKey) (partition : String) : String :=
  let plain := namePlaceholder k.name
  if collides plain partition then plain ++ "_1" else plain

/-- The values that a test mentions, in order. -/
def operands (k : SortKey) : List Value :=
  match k.test with
  | .compare _ v => [v]
  | .beginsWith v => [v]
  | .between low high => [low, high]

/-- The placeholders of the values of a test. -/
def placeholders (k : SortKey) (partition : String) : List String :=
  let p := k.placeholder partition
  match k.test with
  | .compare _ _ => [p]
  | .beginsWith _ => [p]
  | .between _ _ => [p ++ "_start", p ++ "_end"]

/-- The text of a test. -/
def text (k : SortKey) (partition : String) : String :=
  let p := k.placeholder partition
  match k.test with
  | .compare comparison _ => k.name ++ " " ++ comparison.symbol ++ " " ++ p
  | .beginsWith _ => "begins_with(" ++ k.name ++ "  ," ++ p ++ ")"
  | .between _ _ => k.name ++ " between " ++ p ++ "_start" ++ " and " ++ p ++ "_end"

/-- The fragment of a test. -/
def compile (k : SortKey) (partition : String) : Except Error Fragment :=
  match Value.encodeList k.operands with
  | .error fault => .error (.value fault)
  | .ok encoded =>
    .ok ⟨k.text partition, Mapping.ofList ((k.placeholders partition).zip encoded)⟩

end SortKey

namespace KeyCondition

/-- The placeholder of the partition key. -/
def placeholder (c : KeyCondition) : String := namePlaceholder c.partition.name

/-- The fragments of the test of the sort key, if there is one. -/
def sortFragments (c : KeyCondition) : Except Error (List Fragment) :=
  match c.sort with
  | none => .ok []
  | some k => do
    let f ← k.compile c.placeholder
    .ok [f]

/-- The fragment of a key condition. The values of the sort key are encoded first. -/
def compile (c : KeyCondition) : Except Error Fragment := do
  let sort ← c.sortFragments
  let value ← c.partition.value.encode.mapError .value
  let partition : Fragment :=
    ⟨c.partition.name ++ " = " ++ c.placeholder, Mapping.empty.insert c.placeholder value⟩
  .ok (Fragment.merge " and " (partition :: sort))

end KeyCondition

/-- What a query may be told beside its key condition. -/
structure QueryOptions where
  indexName : Option String
  limit : Option Int
  offset : Option String
  select : Option String
  ascending : Option Bool

/-- A call of a setter, with what it is given. -/
inductive OptionCall where
  | indexName (given : Option String)
  | limit (given : Option Int)
  | offset (given : Option String)
  | select (given : Option String)
  | ascending (given : Option Bool)

namespace QueryOptions

/-- A query that is told nothing. -/
def empty : QueryOptions := ⟨none, none, none, none, none⟩

/-- The options with an index, unless its name is absent or empty. -/
def withIndexName (o : QueryOptions) (name : Option String) : QueryOptions :=
  { o with indexName := (name.filter (· ≠ "")).or o.indexName }

/-- The options with a limit, unless it is absent or zero. -/
def withLimit (o : QueryOptions) (limit : Option Int) : QueryOptions :=
  { o with limit := (limit.filter (· ≠ 0)).or o.limit }

/-- The options with a cursor, unless it is absent or empty. -/
def withOffset (o : QueryOptions) (offset : Option String) : QueryOptions :=
  { o with offset := (offset.filter (· ≠ "")).or o.offset }

/-- The options with a choice of attributes, unless it is absent. -/
def withSelect (o : QueryOptions) (select : Option String) : QueryOptions :=
  { o with select := select.or o.select }

/-- The options with a direction, unless it is absent. -/
def withAscending (o : QueryOptions) (ascending : Option Bool) : QueryOptions :=
  { o with ascending := ascending.or o.ascending }

/-- The options after a call. -/
def perform (o : QueryOptions) : OptionCall → QueryOptions
  | .indexName given => o.withIndexName given
  | .limit given => o.withLimit given
  | .offset given => o.withOffset given
  | .select given => o.withSelect given
  | .ascending given => o.withAscending given

/-- The options without those that are falsy. -/
def truthy (o : QueryOptions) : QueryOptions :=
  ((((empty.withIndexName o.indexName).withLimit o.limit).withOffset o.offset).withSelect
    o.select).withAscending o.ascending

end QueryOptions

/-- Reads one page of items. -/
structure Query where
  tableName : String
  condition : KeyCondition
  options : QueryOptions

/-- The key that a cursor stands for, if there is a cursor. -/
def Cursor.decode? : Option String → Except Error (Option Attributes)
  | none => .ok none
  | some cursor => (Cursor.decode cursor).map some

namespace Query

/-- The request of a query. -/
def request (q : Query) : Except Error QueryRequest := do
  let f ← q.condition.compile
  let o := q.options.truthy
  let startKey ← Cursor.decode? o.offset
  .ok ⟨q.tableName, f.text, f.values, startKey, o.indexName, o.limit, o.ascending, o.select⟩

/-- Sends a query and takes the reply. -/
def send (q : Query) : Run Reply := do
  let r ← Run.ofExcept q.request
  Run.ask (.query r)

end Query

/-- The items of a page and the cursor of the next one, if there is a next one. -/
structure Page where
  items : List Json
  offset : Option String

namespace Page

/-- The cursor of a last key, if there is one and it is not empty. -/
def cursor? (lastKey : Option Attributes) : Except Error (Option String) :=
  match lastKey.bind Mapping.nonempty? with
  | none => .ok none
  | some key => (Cursor.encode key).map some

/-- The page of a reply. -/
def ofReply (r : Reply) : Except Error Page := do
  let items ← (Attributes.decodeAll r.items).mapError .value
  let offset ← cursor? r.lastEvaluatedKey
  .ok ⟨items, offset⟩

end Page

end Depot
