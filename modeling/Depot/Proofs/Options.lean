import Depot.Proofs.Pagination
import Depot.Proofs.Setting

/-!
# Options of a query — the last truthy setting wins

Options are filtered while they are set, and once more when a query is built, for their fields can be
set to anything. Both filters together leave what each setter was given last of what counts
(**`truthy_foldl_perform`**): an empty name, an empty cursor and a limit of zero do not count, a
direction that is `false` does.

The main result, **`last_truthy_wins`**, is that a query is built of these options and of no others, and
that its document shows no others. A cursor that cannot be read is harmless as long as another one was
given after it.
-/

namespace Depot

/-! ## Calls -/

namespace OptionCall

/-- What a call gives as the index, if it is a call of that setter. -/
def indexName? : OptionCall → Option (Option String)
  | indexName given => some given
  | _ => none

/-- What a call gives as the limit, if it is a call of that setter. -/
def limit? : OptionCall → Option (Option Int)
  | limit given => some given
  | _ => none

/-- What a call gives as the cursor, if it is a call of that setter. -/
def offset? : OptionCall → Option (Option String)
  | offset given => some given
  | _ => none

/-- What a call gives as the choice of attributes, if it is a call of that setter. -/
def select? : OptionCall → Option (Option String)
  | select given => some given
  | _ => none

/-- What a call gives as the direction, if it is a call of that setter. -/
def ascending? : OptionCall → Option (Option Bool)
  | ascending given => some given
  | _ => none

/-- Calls that give each setter the same arguments in the same order, whatever stands between. -/
structure SameBySetter (calls others : List OptionCall) : Prop where
  indexName : calls.filterMap indexName? = others.filterMap indexName?
  limit : calls.filterMap limit? = others.filterMap limit?
  offset : calls.filterMap offset? = others.filterMap offset?
  select : calls.filterMap select? = others.filterMap select?
  ascending : calls.filterMap ascending? = others.filterMap ascending?

end OptionCall

namespace QueryOptions

open OptionCall

/-! ## A field and its own setter -/

section

variable (calls : List OptionCall) (o : QueryOptions)

theorem indexName_foldl_perform : (calls.foldl perform o).indexName.filter (· ≠ "")
    = lastTruthy (· ≠ "") (calls.filterMap indexName?) o.indexName := by
  refine filter_foldl_own_eq_lastTruthy indexName indexName? (fun o c => ?_) calls o
  cases c <;> rfl

theorem limit_foldl_perform : (calls.foldl perform o).limit.filter (· ≠ 0)
    = lastTruthy (· ≠ 0) (calls.filterMap limit?) o.limit := by
  refine filter_foldl_own_eq_lastTruthy limit limit? (fun o c => ?_) calls o
  cases c <;> rfl

theorem offset_foldl_perform : (calls.foldl perform o).offset.filter (· ≠ "")
    = lastTruthy (· ≠ "") (calls.filterMap offset?) o.offset := by
  refine filter_foldl_own_eq_lastTruthy offset offset? (fun o c => ?_) calls o
  cases c <;> rfl

theorem select_foldl_perform : (calls.foldl perform o).select
    = lastGiven (calls.filterMap select?) o.select := by
  refine foldl_own_eq_lastGiven select select? (fun o c => ?_) calls o
  cases c <;> rfl

theorem ascending_foldl_perform : (calls.foldl perform o).ascending
    = lastGiven (calls.filterMap ascending?) o.ascending := by
  refine foldl_own_eq_lastGiven ascending ascending? (fun o c => ?_) calls o
  cases c <;> rfl

end

/-- What calls leave of the options when those that are falsy are dropped. -/
def settledBy (o : QueryOptions) (calls : List OptionCall) : QueryOptions where
  indexName := lastTruthy (· ≠ "") (calls.filterMap indexName?) o.indexName
  limit := lastTruthy (· ≠ 0) (calls.filterMap limit?) o.limit
  offset := lastTruthy (· ≠ "") (calls.filterMap offset?) o.offset
  select := lastGiven (calls.filterMap select?) o.select
  ascending := lastGiven (calls.filterMap ascending?) o.ascending

/-- The options that a query is built of. -/
theorem truthy_eq (o : QueryOptions) : o.truthy =
    ⟨o.indexName.filter (· ≠ ""), o.limit.filter (· ≠ 0), o.offset.filter (· ≠ ""), o.select,
      o.ascending⟩ := by
  simp only [truthy, empty, withIndexName, withLimit, withOffset, withSelect, withAscending,
    Option.or_none]

/-- **Both filters together** leave what each setter was given last of what counts. -/
theorem truthy_foldl_perform (calls : List OptionCall) (o : QueryOptions) :
    (calls.foldl perform o).truthy = o.settledBy calls := by
  rw [truthy_eq, indexName_foldl_perform, limit_foldl_perform, offset_foldl_perform,
    select_foldl_perform, ascending_foldl_perform, settledBy]

theorem indexName_settledBy_ne (o : QueryOptions) (calls : List OptionCall) :
    (o.settledBy calls).indexName ≠ some "" := lastTruthy_ne rfl _ _

theorem limit_settledBy_ne (o : QueryOptions) (calls : List OptionCall) :
    (o.settledBy calls).limit ≠ some 0 := lastTruthy_ne rfl _ _

/-- Calls of different setters may change places. -/
theorem settledBy_eq {calls others : List OptionCall} (h : SameBySetter calls others)
    (o : QueryOptions) : o.settledBy calls = o.settledBy others := by
  rw [settledBy, settledBy, h.indexName, h.limit, h.offset, h.select, h.ascending]

end QueryOptions

/-! ## Queries -/

/-- A query fails for its cursor exactly when it has one that does not decode. -/
theorem Cursor.decode?_eq_error {cursor : Option String} {e : Error} :
    decode? cursor = .error e ↔ ∃ text, cursor = some text ∧ decode text = .error e := by
  cases cursor with
  | none =>
      constructor
      · exact fun h => nomatch h
      · rintro ⟨text, h, -⟩
        exact nomatch h
  | some text =>
      rw [decode?, map_eq_error]
      constructor
      · exact fun h => ⟨text, rfl, h⟩
      · rintro ⟨other, hother, h⟩
        obtain rfl := Option.some.inj hother
        exact h

theorem Cursor.exists_decode?_eq_ok {cursor : Option String} :
    (∃ key, decode? cursor = .ok key) ↔
      ∀ text, cursor = some text → ∃ key, decode text = .ok key := by
  cases cursor with
  | none => exact ⟨fun _ _ h => (nomatch h), fun _ => ⟨none, rfl⟩⟩
  | some text =>
      constructor
      · rintro ⟨key, h⟩ other hother
        obtain rfl := Option.some.inj hother
        obtain ⟨start, hstart, -⟩ := map_eq_ok.mp h
        exact ⟨start, hstart⟩
      · intro h
        obtain ⟨key, hkey⟩ := h text rfl
        exact ⟨some key, map_eq_ok.mpr ⟨key, hkey, rfl⟩⟩

namespace Query

/-- What is built of a table, the fragment of a key condition and options. -/
structure BuildsWith (tableName : String) (f : Fragment) (o : QueryOptions)
    (result : Except Error QueryRequest) : Prop where
  /-- Whatever is built asks for the options, and starts at the key that the cursor stands for. -/
  built : ∀ r, result = .ok r → Cursor.decode? o.offset = .ok r.startKey ∧
    r = ⟨tableName, f.text, f.values, r.startKey, o.indexName, o.limit, o.ascending, o.select⟩
  /-- Something is built exactly when the cursor, if there is one, decodes. -/
  builds : (∃ r, result = .ok r) ↔
    ∀ cursor, o.offset = some cursor → ∃ key, Cursor.decode cursor = .ok key
  /-- Building fails exactly as decoding the cursor does. -/
  fails : ∀ e, result = .error e ↔
    ∃ cursor, o.offset = some cursor ∧ Cursor.decode cursor = .error e
  /-- Whatever fails says that the cursor is none. -/
  invalid : ∀ e, result = .error e → ∃ layer, e = .invalidCursor layer

/-- A query whose condition compiles is built from its truthy options and the key of its cursor. -/
theorem request_of_compile {q : Query} {f : Fragment} (hf : q.condition.compile = .ok f) :
    q.request = (Cursor.decode? q.options.truthy.offset).map fun startKey =>
      ⟨q.tableName, f.text, f.values, startKey, q.options.truthy.indexName,
        q.options.truthy.limit, q.options.truthy.ascending, q.options.truthy.select⟩ := by
  rw [request, hf]
  show (Cursor.decode? q.options.truthy.offset).bind _ = _
  cases Cursor.decode? q.options.truthy.offset <;> rfl

/-- A query whose condition compiles is built with its truthy options, and fails for its cursor
    only. -/
theorem buildsWith_of_compile {q : Query} {f : Fragment} (hf : q.condition.compile = .ok f) :
    BuildsWith q.tableName f q.options.truthy q.request := by
  have hfails (e : Error) : q.request = .error e ↔
      ∃ cursor, q.options.truthy.offset = some cursor ∧ Cursor.decode cursor = .error e := by
    rw [request_of_compile hf, map_eq_error, Cursor.decode?_eq_error]
  constructor
  case built =>
    intro r hr
    rw [request_of_compile hf, map_eq_ok] at hr
    obtain ⟨startKey, hstart, rfl⟩ := hr
    exact ⟨hstart, rfl⟩
  case builds =>
    rw [← Cursor.exists_decode?_eq_ok, request_of_compile hf]
    constructor
    · rintro ⟨r, hr⟩
      obtain ⟨startKey, hstart, -⟩ := map_eq_ok.mp hr
      exact ⟨startKey, hstart⟩
    · rintro ⟨startKey, hstart⟩
      exact ⟨_, map_eq_ok.mpr ⟨startKey, hstart, rfl⟩⟩
  case fails => exact hfails
  case invalid =>
    intro e he
    obtain ⟨cursor, -, hdecode⟩ := (hfails e).mp he
    exact Cursor.decode_eq_error hdecode

/-- **The last truthy setting wins.** Whatever the options are at first and whatever the setters are
    given, a query whose key condition compiles is built of the options that are settled, which are the
    members of its document; neither an empty name nor a limit of zero is asked for; and only the order
    of the calls of one setter counts. -/
theorem last_truthy_wins (tableName : String) {c : KeyCondition} {f : Fragment}
    (hf : c.compile = .ok f) (o : QueryOptions) (calls : List OptionCall) :
    BuildsWith tableName f (o.settledBy calls)
        (request ⟨tableName, c, calls.foldl QueryOptions.perform o⟩) ∧
      (∀ r, request ⟨tableName, c, calls.foldl QueryOptions.perform o⟩ = .ok r →
        r.indexName ≠ some "" ∧ r.limit ≠ some 0 ∧ r.ShownIn (Request.query r).body) ∧
      ∀ others, OptionCall.SameBySetter calls others →
        request ⟨tableName, c, others.foldl QueryOptions.perform o⟩
          = request ⟨tableName, c, calls.foldl QueryOptions.perform o⟩ := by
  have hbuilds (calls : List OptionCall) : BuildsWith tableName f (o.settledBy calls)
      (request ⟨tableName, c, calls.foldl QueryOptions.perform o⟩) := by
    rw [← QueryOptions.truthy_foldl_perform]
    exact buildsWith_of_compile (q := ⟨tableName, c, calls.foldl QueryOptions.perform o⟩) hf
  refine ⟨hbuilds calls, fun r hr => ?_, fun others h => ?_⟩
  · obtain ⟨-, hbuilt⟩ := (hbuilds calls).built r hr
    rw [hbuilt]
    exact ⟨o.indexName_settledBy_ne calls, o.limit_settledBy_ne calls, QueryRequest.shownIn_body _⟩
  · rw [request_of_compile hf, request_of_compile hf]
    simp only [QueryOptions.truthy_foldl_perform, QueryOptions.settledBy_eq h]

/-- Options whose fields are falsy, or a cursor that does not decode. -/
def falsyOptions : QueryOptions := ⟨some "", some 0, some "%", none, some true⟩

/-- The setters pass over what is falsy, and the cursor is overridden. -/
def overridingCalls (cursor : String) : List OptionCall :=
  [.limit (some 5), .offset (some cursor), .indexName (some ""), .ascending (some false),
    .limit (some 0), .offset (some ""), .ascending none]

theorem last_truthy_wins_falsyOptions :
    (∃ cursor r, Cursor.decode cursor = .ok stoppedKey ∧
      request ⟨"events", events.condition, (overridingCalls cursor).foldl .perform falsyOptions⟩
        = .ok r ∧
      r = ⟨"events", r.keyCondition, r.values, some stoppedKey, none, some 5, some false, none⟩ ∧
      (Request.query r).body.member? "Limit" = some (.integer 5) ∧
      (Request.query r).body.member? "IndexName" = none) ∧
      ∃ layer, request ⟨"events", events.condition, [].foldl .perform falsyOptions⟩
        = .error (.invalidCursor layer) := by
  obtain ⟨f, hf⟩ : ∃ f, events.condition.compile = .ok f := ⟨_, rfl⟩
  have hscalar : ∀ x ∈ stoppedKey.entries, Cursor.IsScalar x.2 := by decide
  obtain ⟨cursor, -, hne, hcursor⟩ := Cursor.exists_encode_eq_ok hscalar
  constructor
  · have hoffset : (falsyOptions.settledBy (overridingCalls cursor)).offset = some cursor := by
      show ((([cursor, ""].filter (· ≠ "")).getLast?).or _) = _
      rw [List.filter_cons_of_pos (by simpa using hne)]
      rfl
    obtain ⟨hbuilds, hshown, -⟩ :=
      last_truthy_wins "events" hf falsyOptions (overridingCalls cursor)
    obtain ⟨r, hr⟩ := hbuilds.builds.mpr fun text htext => by
      obtain rfl := Option.some.inj (hoffset.symm.trans htext)
      exact ⟨stoppedKey, hcursor⟩
    obtain ⟨hstart, hbuilt⟩ := hbuilds.built r hr
    rw [hoffset, Cursor.decode?, hcursor] at hstart
    obtain ⟨-, -, hdocument⟩ := hshown r hr
    refine ⟨cursor, r, hcursor, hr, ?_, hdocument.limit.trans ?_, hdocument.indexName.trans ?_⟩
    · rw [hbuilt, ← Except.ok.inj hstart]
      rfl
    · rw [hbuilt]
      rfl
    · rw [hbuilt]
      rfl
  · obtain ⟨hbuilds, -, -⟩ := last_truthy_wins "events" hf falsyOptions []
    obtain ⟨e, he⟩ : ∃ e, Cursor.decode "%" = .error e := ⟨_, rfl⟩
    obtain ⟨layer, rfl⟩ := Cursor.decode_eq_error he
    exact ⟨layer, (hbuilds.fails _).mpr ⟨"%", rfl, he⟩⟩

end Query

end Depot
