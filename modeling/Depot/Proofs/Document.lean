import Mathlib.Data.List.Nodup
import Depot.Wire.Request

/-!
# Documents of requests — every field is a member of its own name

A request leaves as a document that lists the fields that are asked for. Where no two fields have one
name, the member of a name is the field of that name, and there is none when the field is absent
(**`Json.member?_present`**).

So the documents show what was built: those of a write, sent alone or as a part of a transaction, show
its guard and its update expression (**`TransactItem.SentAs.shownIn`**), and that of a query shows its
expression, its table of placeholders and its options (**`QueryRequest.shownIn_body`**).
-/

namespace Depot

namespace Json

variable {fields : List (String × Option Json)} {name : String} {value : Option Json} {j : Json}

/-- What is listed are the fields that are not absent. -/
theorem mem_present_iff :
    (name, j) ∈ (fields.filterMap fun (name, value) => value.map fun v => (name, v)) ↔
      (name, some j) ∈ fields := by
  rw [List.mem_filterMap]
  constructor
  · rintro ⟨⟨other, value⟩, hmem, hvalue⟩
    obtain ⟨v, rfl, heq⟩ := Option.map_eq_some_iff.mp hvalue
    obtain ⟨rfl, rfl⟩ := Prod.mk.inj heq
    exact hmem
  · intro hmem
    exact ⟨(name, some j), hmem, rfl⟩

/-- Whatever member a document has is one of the fields that carry a value. -/
theorem mem_of_member?_present (h : (present fields).member? name = some j) :
    (name, some j) ∈ fields := by
  obtain ⟨m, hfind, rfl⟩ := Option.map_eq_some_iff.mp h
  have hname := List.find?_some hfind
  simp only [decide_eq_true_eq] at hname
  subst hname
  exact mem_present_iff.mp (List.mem_reverse.mp (List.mem_of_find?_eq_some hfind))

/-- A document has no member besides its fields. -/
theorem member?_present_eq_none (h : name ∉ fields.map (·.1)) :
    (present fields).member? name = none := by
  refine Option.eq_none_iff_forall_ne_some.mpr fun j hj => h ?_
  exact List.mem_map.mpr ⟨_, mem_of_member?_present hj, rfl⟩

/-- **The member of a name** is the field of that name, if no two fields have one name. -/
theorem member?_present (hnames : (fields.map (·.1)).Nodup) (h : (name, value) ∈ fields) :
    (present fields).member? name = value := by
  have hsame {j : Json} (hj : (present fields).member? name = some j) : some j = value :=
    congrArg Prod.snd (List.inj_on_of_nodup_map hnames (mem_of_member?_present hj) h rfl)
  cases hfind : (present fields).member? name with
  | some j => exact hsame hfind
  | none =>
      cases value with
      | none => rfl
      | some j =>
          -- A field that is listed would have been found.
          have hmem := List.mem_reverse.mpr (mem_present_iff.mpr h)
          have hnone := List.find?_eq_none.mp (Option.map_eq_none_iff.mp hfind) _ hmem
          exact absurd (decide_eq_true rfl) hnone

end Json

/-! ## Writes -/

/-- The guard of a part of a transaction. -/
def TransactItem.guard : TransactItem → Guard
  | .put r => r.guard
  | .delete r => r.guard
  | .update r => r.guard
  | .check r => r.guard

/-- The text of an update expression, if there is one. -/
def TransactItem.expression : TransactItem → Option String
  | .update r => some r.expression
  | _ => none

/-- A document whose members are the fields of a guard. -/
structure Guard.ShownIn (g : Guard) (document : Json) : Prop where
  tableName : document.member? "TableName" = some (.text g.tableName)
  condition : document.member? "ConditionExpression" = g.condition.map .text
  values : document.member? "ExpressionAttributeValues" = g.values.map Attributes.wire
  onFailure : document.member? "ReturnValuesOnConditionCheckFailure" = g.onFailure.map .text

/-- Fields of other names hide no field of a guard. -/
theorem Guard.shownIn_present (g : Guard) (others : List (String × Option Json))
    (hnames : ((others ++ g.fields).map (·.1)).Nodup) :
    g.ShownIn (.present (others ++ g.fields)) := by
  have hmember {name : String} {value : Option Json} (h : (name, value) ∈ g.fields) :
      (Json.present (others ++ g.fields)).member? name = value :=
    Json.member?_present hnames (List.mem_append_right _ h)
  constructor
  case tableName => exact hmember (by simp [fields])
  case condition => exact hmember (by simp [fields, Wire.textOf?])
  case values => exact hmember (by simp [fields, Wire.attributes?])
  case onFailure => exact hmember (by simp [fields, Wire.textOf?])

/-- The documents that a write is sent in: one part of a transaction, or a request of its own. -/
inductive TransactItem.SentAs : TransactItem → Json → Prop where
  | part {t : TransactItem} {name : String} {document : Json} :
      t.wire = .object [(name, document)] → SentAs t document
  | put (r : PutRequest) : SentAs (.put r) (Request.putItem r).body
  | delete (r : DeleteRequest) : SentAs (.delete r) (Request.deleteItem r).body
  | update (r : UpdateRequest) (returnValues : String) :
      SentAs (.update r) (Request.updateItem r returnValues).body

/-- A document that has the guard of a write and its update expression as members. -/
structure TransactItem.ShownIn (t : TransactItem) (document : Json) : Prop where
  guard : t.guard.ShownIn document
  expression : document.member? "UpdateExpression" = t.expression.map .text

namespace TransactItem

theorem shownIn_put (r : PutRequest) : ShownIn (.put r) (.present r.fields) where
  guard := r.guard.shownIn_present [_] (by simp [Guard.fields])
  expression := Json.member?_present_eq_none (by simp [PutRequest.fields, Guard.fields])

theorem shownIn_delete (r : DeleteRequest) : ShownIn (.delete r) (.present r.fields) where
  guard := r.guard.shownIn_present [_] (by simp [Guard.fields])
  expression := Json.member?_present_eq_none (by simp [DeleteRequest.fields, Guard.fields])

theorem shownIn_check (r : CheckRequest) : ShownIn (.check r) (.present r.fields) where
  guard := r.guard.shownIn_present [_] (by simp [Guard.fields])
  expression := Json.member?_present_eq_none (by simp [CheckRequest.fields, Guard.fields])

/-- An update has its expression beside the guard, and may ask for more. -/
theorem shownIn_update (r : UpdateRequest) (others : List (String × Option Json))
    (hnames : ((others ++ r.fields).map (·.1)).Nodup) :
    ShownIn (.update r) (.present (others ++ r.fields)) where
  guard := by
    have hfields : others ++ r.fields
        = (others ++ [("Key", some r.key.wire), ("UpdateExpression", some (.text r.expression))])
          ++ r.guard.fields := by
      rw [List.append_assoc]
      rfl
    rw [hfields] at hnames ⊢
    exact r.guard.shownIn_present _ hnames
  expression := Json.member?_present hnames (by simp [UpdateRequest.fields, expression])

/-- **A write is shown in whatever it is sent in.** -/
theorem SentAs.shownIn {t : TransactItem} {document : Json} (h : t.SentAs document) :
    t.ShownIn document := by
  cases h with
  | put r => exact shownIn_put r
  | delete r => exact shownIn_delete r
  | update r returnValues =>
      exact shownIn_update r [_] (by simp [UpdateRequest.fields, Guard.fields])
  | part hwire =>
      cases t with
      | put r =>
          obtain ⟨-, rfl⟩ := Prod.mk.inj (List.cons.inj (Json.object.inj hwire)).1
          exact shownIn_put r
      | delete r =>
          obtain ⟨-, rfl⟩ := Prod.mk.inj (List.cons.inj (Json.object.inj hwire)).1
          exact shownIn_delete r
      | update r =>
          obtain ⟨-, rfl⟩ := Prod.mk.inj (List.cons.inj (Json.object.inj hwire)).1
          exact shownIn_update r [] (by simp [UpdateRequest.fields, Guard.fields])
      | check r =>
          obtain ⟨-, rfl⟩ := Prod.mk.inj (List.cons.inj (Json.object.inj hwire)).1
          exact shownIn_check r

end TransactItem

/-! ## Queries -/

/-- A document whose members are the fields of a query. -/
structure QueryRequest.ShownIn (r : QueryRequest) (document : Json) : Prop where
  tableName : document.member? "TableName" = some (.text r.tableName)
  keyCondition : document.member? "KeyConditionExpression" = some (.text r.keyCondition)
  values : document.member? "ExpressionAttributeValues" = some r.values.wire
  startKey : document.member? "ExclusiveStartKey" = r.startKey.map Attributes.wire
  indexName : document.member? "IndexName" = r.indexName.map .text
  limit : document.member? "Limit" = r.limit.map .integer
  ascending : document.member? "ScanIndexForward" = r.ascending.map .boolean
  select : document.member? "Select" = r.select.map .text

/-- **A query is shown in its request.** -/
theorem QueryRequest.shownIn_body (r : QueryRequest) : r.ShownIn (Request.query r).body := by
  have hnames : (r.fields.map (·.1)).Nodup := by simp [fields]
  constructor
  all_goals
    refine Json.member?_present hnames ?_
    simp [fields, Wire.textOf?, Wire.attributes?, Wire.boolean?, Wire.integer?]

end Depot
