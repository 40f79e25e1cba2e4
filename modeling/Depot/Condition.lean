import Depot.Fragment
import Depot.Attribute.Encoding

/-!
# Conditions — filters on the attributes of an item

A **`Condition`** tests one attribute, a **`Filter`** asks that all conditions of one list and, if
there is one, at least one condition of another list hold. `Filter.compile` renders a filter as
expression text in which every operand has a placeholder of its own: the operands are numbered
through the whole filter, those of the first list before those of the second.
-/

namespace Depot

/-- How an attribute is compared with a value. -/
inductive Comparison where
  | equal
  | notEqual
  | less
  | lessOrEqual
  | greater
  | greaterOrEqual
  deriving DecidableEq, Repr

/-- The operator of a comparison. -/
def Comparison.symbol : Comparison → String
  | .equal => "="
  | .notEqual => "<>"
  | .less => "<"
  | .lessOrEqual => "<="
  | .greater => ">"
  | .greaterOrEqual => ">="

/-- The tag of a comparison's placeholder. -/
def Comparison.tag : Comparison → String
  | .equal => "eq"
  | .notEqual => "ne"
  | .less => "lt"
  | .lessOrEqual => "lte"
  | .greater => "gt"
  | .greaterOrEqual => "gte"

/-- What is asked of an attribute. -/
inductive Test where
  | compare (comparison : Comparison) (operand : Value)
  | contains (operand : Value)
  | beginsWith (operand : Value)
  | between (low high : Value)
  | oneOf (operands : List Value)
  | present
  | absent

/-- The values that a test mentions, in order. -/
def Test.operands : Test → List Value
  | .compare _ v => [v]
  | .contains v => [v]
  | .beginsWith v => [v]
  | .between low high => [low, high]
  | .oneOf vs => vs
  | .present => []
  | .absent => []

/-- A test of one attribute. -/
structure Condition where
  column : String
  test : Test

namespace Condition

/-- The placeholders of a condition whose first operand has the given number. -/
def placeholders (c : Condition) (index : Nat) : List String :=
  match c.test with
  | .compare comparison _ => [operandPlaceholder c.column comparison.tag index]
  | .contains _ => [operandPlaceholder c.column "contains" index]
  | .beginsWith _ => [operandPlaceholder c.column "begins_with" index]
  | .between _ _ =>
    [operandPlaceholder c.column "start" index, operandPlaceholder c.column "end" (index + 1)]
  | .oneOf vs => (List.range vs.length).map fun i => operandPlaceholder c.column "in" (index + i)
  | .present => []
  | .absent => []

/-- The text of a condition whose first operand has the given number. -/
def text (c : Condition) (index : Nat) : String :=
  match c.test with
  | .compare comparison _ =>
    c.column ++ " " ++ comparison.symbol ++ " " ++
      operandPlaceholder c.column comparison.tag index
  | .contains _ =>
    "contains(" ++ c.column ++ ", " ++ operandPlaceholder c.column "contains" index ++ ")"
  | .beginsWith _ =>
    "begins_with(" ++ c.column ++ ", " ++ operandPlaceholder c.column "begins_with" index ++ ")"
  | .between _ _ =>
    c.column ++ " between " ++ operandPlaceholder c.column "start" index ++ " and " ++
      operandPlaceholder c.column "end" (index + 1)
  | .oneOf _ => c.column ++ " in (" ++ String.intercalate "," (c.placeholders index) ++ ")"
  | .present => "attribute_exists(" ++ c.column ++ ")"
  | .absent => "attribute_not_exists(" ++ c.column ++ ")"

/-- The fragment of a condition whose first operand has the given number. -/
def compile (c : Condition) (index : Nat) : Except Error Fragment :=
  match c.test with
  | .oneOf [] => .error (.emptyInList c.column)
  | test => match Value.encodeList test.operands with
    | .error fault => .error (.value fault)
    | .ok encoded => .ok ⟨c.text index, Mapping.ofList ((c.placeholders index).zip encoded)⟩

/-- The fragments of conditions whose operands are numbered on from the given number. -/
def compileAll : List Condition → Nat → Except Error (List Fragment)
  | [], _ => .ok []
  | c :: rest, index => do
    let f ← c.compile index
    let others ← compileAll rest (index + c.test.operands.length)
    .ok (f :: others)

/-- How many operands conditions have. -/
def operandCount : List Condition → Nat
  | [] => 0
  | c :: rest => c.test.operands.length + operandCount rest

end Condition

/-- Conditions that must all hold, and conditions of which one must hold if there are any. -/
structure Filter where
  all : List Condition
  any : List Condition

namespace Filter

/-- The filter without conditions. -/
def empty : Filter := ⟨[], []⟩

/-- The filter with one more condition that must hold. -/
def and (f : Filter) (c : Condition) : Filter := { f with all := f.all ++ [c] }

/-- The filter with one more condition of which one must hold. -/
def or (f : Filter) (c : Condition) : Filter := { f with any := f.any ++ [c] }

/-- Whether a filter has no condition. -/
def isEmpty (f : Filter) : Bool := f.all.isEmpty && f.any.isEmpty

/-- The fragment of a filter. -/
def compile (f : Filter) : Except Error Fragment := do
  let all ← Condition.compileAll f.all 0
  let any ← Condition.compileAll f.any (Condition.operandCount f.all)
  .ok (Fragment.merge " and "
    [Fragment.merge " and " all, (Fragment.merge " or " any).parenthesize])

end Filter

end Depot
