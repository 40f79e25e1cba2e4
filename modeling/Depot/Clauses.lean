import Depot.Fragment
import Depot.Attribute.Encoding
import Depot.Text.Blank

/-!
# Clauses — the four parts of an update

**`Assignments`** are names with values in the order in which the names first came up, the value of
a name being the one given last. **`Clauses`** are the assignments, removals, additions and
deletions of an update, filled by one **`ClauseCall`** after the other. `Clauses.compile` renders
every clause that has an entry behind its keyword, in the order SET, REMOVE, ADD, DELETE.
-/

namespace Depot

/-- Names with values, in the order in which the names first came up. -/
structure Assignments where
  entries : List (String × Value)

namespace Assignments

/-- No assignment. -/
def empty : Assignments := ⟨[]⟩

/-- Entries with a name's value replaced in its place, or added at the end. -/
def assignEntry (name : String) (value : Value) : List (String × Value) → List (String × Value)
  | [] => [(name, value)]
  | (other, old) :: rest =>
    if other = name then (name, value) :: rest else (other, old) :: assignEntry name value rest

/-- The assignments with one more. -/
def assign (a : Assignments) (name : String) (value : Value) : Assignments :=
  ⟨assignEntry name value a.entries⟩

/-- The assignments followed by the entries of a list. -/
def assignAll (a : Assignments) : List (String × Value) → Assignments
  | [] => a
  | (name, value) :: rest => (a.assign name value).assignAll rest

/-- The assignments that a list of entries makes. -/
def ofList (entries : List (String × Value)) : Assignments := empty.assignAll entries

/-- The assignments followed by others. -/
def extend (a b : Assignments) : Assignments := a.assignAll b.entries

/-- The names, in order. -/
def names (a : Assignments) : List String := a.entries.map (·.1)

/-- The values, in order. -/
def values (a : Assignments) : List Value := a.entries.map (·.2)

/-- Whether there is no assignment. -/
def isEmpty (a : Assignments) : Bool := a.entries.isEmpty

end Assignments

/-- What an update does to an item. -/
structure Clauses where
  set : Assignments
  remove : List String
  add : Assignments
  delete : Assignments

/-- The kinds of clause whose entries have a value. -/
inductive ValuedClause where
  | set
  | add
  | delete
  deriving DecidableEq, Repr

namespace ValuedClause

/-- The keyword of a clause. -/
def keyword : ValuedClause → String
  | .set => "SET"
  | .add => "ADD"
  | .delete => "DELETE"

/-- The placeholder of the entry at an index. -/
def placeholder (k : ValuedClause) (index : Nat) : String :=
  match k with
  | .set => ":uniqueId" ++ index.repr
  | .add => ":ADD" ++ index.repr
  | .delete => ":DELETE" ++ index.repr

/-- The text of the entry at an index. -/
def entryText (k : ValuedClause) (index : Nat) (name : String) : String :=
  match k with
  | .set => name ++ " = " ++ k.placeholder index
  | .add => name ++ " " ++ k.placeholder index
  | .delete => name ++ " " ++ k.placeholder index

end ValuedClause

/-- A call of a setter, with what it is given. -/
inductive ClauseCall where
  | assign (k : ValuedClause) (given : Option Assignments)
  | remove (given : Option (List String))

namespace Clauses

/-- The text of a clause, empty when it has no entry. -/
def clauseText (keyword : String) (entries : List String) : String :=
  if entries.isEmpty then "" else keyword ++ " " ++ String.intercalate ", " entries

/-- The fragment of a clause whose entries have values. -/
def compileValued (k : ValuedClause) (a : Assignments) : Except Error Fragment :=
  match Value.encodeList a.values with
  | .error fault => .error (.value fault)
  | .ok encoded =>
    .ok ⟨clauseText k.keyword (a.names.mapIdx k.entryText),
      Mapping.ofList (((List.range encoded.length).map k.placeholder).zip encoded)⟩

/-- The fragment of the names to be removed. -/
def compileRemove (names : List String) : Fragment := ⟨clauseText "REMOVE" names, .empty⟩

/-- An update that does nothing. -/
def empty : Clauses := ⟨.empty, [], .empty, .empty⟩

/-- The update with more assignments. -/
def withSet (c : Clauses) : Option Assignments → Clauses
  | none => c
  | some a => { c with set := c.set.extend a }

/-- The update with more names to be removed. -/
def withRemove (c : Clauses) : Option (List String) → Clauses
  | none => c
  | some names => { c with remove := c.remove ++ names }

/-- The update with more additions. -/
def withAdd (c : Clauses) : Option Assignments → Clauses
  | none => c
  | some a => { c with add := c.add.extend a }

/-- The update with more deletions. -/
def withDelete (c : Clauses) : Option Assignments → Clauses
  | none => c
  | some a => { c with delete := c.delete.extend a }

/-- The update after a call. -/
def perform (c : Clauses) : ClauseCall → Clauses
  | .assign .set given => c.withSet given
  | .assign .add given => c.withAdd given
  | .assign .delete given => c.withDelete given
  | .remove given => c.withRemove given

/-- Whether an update does nothing. -/
def isEmpty (c : Clauses) : Bool :=
  c.set.isEmpty && c.remove.isEmpty && c.add.isEmpty && c.delete.isEmpty

/-- The fragment of an update. -/
def compile (c : Clauses) : Except Error Fragment :=
  if c.isEmpty then .error .emptyUpdate
  else do
    let set ← compileValued .set c.set
    let add ← compileValued .add c.add
    let delete ← compileValued .delete c.delete
    let merged := Fragment.merge " " [set, compileRemove c.remove, add, delete]
    .ok ⟨Text.trim merged.text, merged.values⟩

end Clauses

end Depot
