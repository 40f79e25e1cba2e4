import Depot.Proofs.Clauses
import Depot.Proofs.Setting
import Depot.Write

/-!
# Settings of an update — every clause follows its own setter

An update is filled by calls of its setters. What the calls give the setter of a clause is one list of
entries, **`givenTo`**, and the clause **`Accumulates`** it: each name stands where it first came up
and has the value that it was given last. One more entry keeps this (`Accumulates.assign`), so every
list of entries does (`Accumulates.assignAll`).

A part of an update is only changed by the calls of its own setter (`assignments_perform`), so calls of
different setters may change places (`foldl_perform_eq`). The main result, **`settings_accumulate`**, is
what this makes of every sequence of calls.
-/

namespace Depot

/-! ## Assignments -/

/-- A value that a list of entries gives a name, and behind which it gives the name no other. -/
def GivenLast (given : List (String × Value)) (name : String) (value : Value) : Prop :=
  ∃ before after, given = before ++ (name, value) :: after ∧ name ∉ after.map (·.1)

/-- A further entry is the one given last for its name, and changes nothing for the others. -/
theorem givenLast_concat {given : List (String × Value)} {name other : String}
    {value old : Value} : GivenLast (given ++ [(name, value)]) other old ↔
      if name = other then old = value else GivenLast given other old := by
  constructor
  · rintro ⟨before, after, heq, hno⟩
    rcases List.eq_nil_or_concat after with rfl | ⟨after, last, rfl⟩
    · obtain ⟨-, hlast⟩ := List.append_inj' heq rfl
      obtain ⟨rfl, rfl⟩ := Prod.mk.inj (List.cons.inj hlast).1
      rw [if_pos rfl]
    · rw [List.concat_eq_append, ← List.cons_append, ← List.append_assoc] at heq
      obtain ⟨hgiven, hlast⟩ := List.append_inj' heq rfl
      obtain rfl := (List.cons.inj hlast).1
      rw [List.concat_eq_append, List.map_append, List.mem_append, not_or] at hno
      have hne : name ≠ other := fun h => hno.2 (h ▸ List.mem_singleton_self name)
      rw [if_neg hne]
      exact ⟨before, after, hgiven, hno.1⟩
  · intro h
    by_cases hname : name = other
    · rw [if_pos hname] at h
      subst hname h
      exact ⟨given, [], rfl, List.not_mem_nil⟩
    · rw [if_neg hname] at h
      obtain ⟨before, after, rfl, hno⟩ := h
      refine ⟨before, after ++ [(name, value)], by rw [List.append_assoc, List.cons_append], ?_⟩
      rw [List.map_append, List.mem_append, not_or]
      exact ⟨hno, fun hmem => hname (List.mem_singleton.mp hmem).symm⟩

namespace Assignments

/-- Assignments that hold what a list of entries gives. -/
structure Accumulates (given : List (String × Value)) (a : Assignments) : Prop where
  /-- The names stand in the order in which they first came up. -/
  names : a.names = (given.map (·.1)).eraseDups
  /-- Each of them is there once. -/
  once : a.names.Nodup
  /-- Each of them has the value that it was given last. -/
  last : ∀ name value, (name, value) ∈ a.entries ↔ GivenLast given name value

theorem names_assign (a : Assignments) (name : String) (value : Value) :
    (a.assign name value).names = if name ∈ a.names then a.names else a.names ++ [name] := by
  obtain ⟨entries⟩ := a
  show (assignEntry name value entries).map (·.1) = _
  induction entries with
  | nil => rfl
  | cons hd rest ih =>
      obtain ⟨other, old⟩ := hd
      rw [assignEntry]
      by_cases h : other = name
      · subst h
        rw [if_pos rfl]
        exact (if_pos List.mem_cons_self).symm
      · rw [if_neg h, List.map_cons, ih]
        have hmem : name ∈ (Assignments.mk ((other, old) :: rest)).names ↔
            name ∈ (Assignments.mk rest).names := by
          simp [Assignments.names, Ne.symm h]
        by_cases hrest : name ∈ (Assignments.mk rest).names
        · rw [if_pos hrest, if_pos (hmem.mpr hrest)]
          rfl
        · rw [if_neg hrest, if_neg (mt hmem.mp hrest)]
          rfl

/-- After an assignment its name has the new value, and every other name what it had. -/
theorem mem_entries_assign {a : Assignments} (ha : a.names.Nodup) {name other : String}
    {value old : Value} : (other, old) ∈ (a.assign name value).entries ↔
      if name = other then old = value else (other, old) ∈ a.entries := by
  obtain ⟨entries⟩ := a
  show (other, old) ∈ assignEntry name value entries ↔ _
  induction entries with
  | nil =>
      by_cases h : name = other <;> simp [assignEntry, h, eq_comm]
  | cons hd rest ih =>
      obtain ⟨first, held⟩ := hd
      obtain ⟨hfirst, hrest⟩ := List.nodup_cons.mp ha
      rw [assignEntry]
      by_cases h : first = name
      · subst h
        by_cases hother : first = other
        · subst hother
          have hno : (first, old) ∉ rest := fun hmem =>
            hfirst (List.mem_map.mpr ⟨_, hmem, rfl⟩)
          simp [hno]
        · simp [hother, Ne.symm hother]
      · rw [if_neg h, List.mem_cons, ih hrest, List.mem_cons]
        by_cases hother : name = other
        · subst hother
          simp [Ne.symm h]
        · simp [hother]

/-- **One more entry** is held as well. -/
theorem Accumulates.assign {given : List (String × Value)} {a : Assignments}
    (h : Accumulates given a) (name : String) (value : Value) :
    Accumulates (given ++ [(name, value)]) (a.assign name value) := by
  have hmem : name ∈ a.names ↔ name ∈ given.map (·.1) := by
    rw [h.names, List.mem_eraseDups]
  constructor
  case names =>
    rw [names_assign, List.map_append, List.eraseDups_append, ← h.names]
    by_cases hname : name ∈ a.names
    · have hold : List.removeAll [name] (given.map (·.1)) = [] := by
        simpa [List.removeAll] using hmem.mp hname
      rw [if_pos hname]
      simp [hold]
    · have hnew : List.removeAll [name] (given.map (·.1)) = [name] := by
        simpa [List.removeAll] using mt hmem.mpr hname
      rw [if_neg hname]
      simp [hnew, List.eraseDups_cons]
  case once =>
    rw [names_assign]
    by_cases hname : name ∈ a.names
    · rw [if_pos hname]
      exact h.once
    · rw [if_neg hname]
      refine List.nodup_append.mpr ⟨h.once, List.pairwise_singleton _ name, ?_⟩
      rintro other hother last hlast rfl
      exact hname (List.mem_singleton.mp hlast ▸ hother)
  case last =>
    intro other old
    rw [mem_entries_assign h.once, givenLast_concat, h.last]

/-- Further entries are accumulated by assigning them one after the other. -/
theorem Accumulates.assignAll {given : List (String × Value)} {a : Assignments}
    (h : Accumulates given a) (entries : List (String × Value)) :
    Accumulates (given ++ entries) (a.assignAll entries) := by
  induction entries generalizing given a with
  | nil => rwa [List.append_nil]
  | cons entry rest ih =>
      rw [← List.singleton_append, ← List.append_assoc]
      exact ih (h.assign entry.1 entry.2)

theorem accumulates_empty : Accumulates [] empty where
  names := rfl
  once := List.nodup_nil
  last := by
    intro name value
    constructor
    · exact fun h => nomatch h
    · rintro ⟨before, after, heq, -⟩
      exact absurd heq.symm (List.append_ne_nil_of_right_ne_nil _ (List.cons_ne_nil _ _))

theorem assignAll_append (a : Assignments) (l r : List (String × Value)) :
    a.assignAll (l ++ r) = (a.assignAll l).assignAll r := by
  induction l generalizing a with
  | nil => rfl
  | cons entry rest ih => exact ih (a.assign entry.1 entry.2)

/-- Nothing is lost: what is given is empty when what it leaves is. -/
theorem Accumulates.isEmpty_iff {given : List (String × Value)} {a : Assignments}
    (h : Accumulates given a) : a.isEmpty = true ↔ given = [] := by
  constructor
  · intro hempty
    have hnames : (given.map (·.1)).eraseDups = [] := by
      rw [← h.names, Assignments.names, List.isEmpty_iff.mp hempty, List.map_nil]
    cases given with
    | nil => rfl
    | cons entry rest => simp [List.eraseDups_cons] at hnames
  · rintro rfl
    have hnames : a.entries.map (·.1) = [] := h.names
    rw [isEmpty, List.map_eq_nil_iff.mp hnames]
    rfl

end Assignments

/-! ## Calls -/

/-- The entries that a setter is given, none when it is given nothing. -/
def entriesOf (given : Option Assignments) : List (String × Value) :=
  (given.map (·.entries)).getD []

namespace ClauseCall

/-- What a call gives the setter of a clause, if it is a call of that setter. -/
def given? (k : ValuedClause) : ClauseCall → Option (Option Assignments)
  | assign other given => if other = k then some given else none
  | remove _ => none

/-- What a call gives to be removed, if it is a call of that setter. -/
def removed? : ClauseCall → Option (Option (List String))
  | assign _ _ => none
  | remove given => some given

/-- Whether the argument of a call is absent. -/
def isAbsent : ClauseCall → Bool
  | assign _ given => given.isNone
  | remove given => given.isNone

/-- Calls that give each setter the same arguments in the same order, whatever stands between. -/
structure SameBySetter (calls others : List ClauseCall) : Prop where
  assigned : ∀ k, calls.filterMap (given? k) = others.filterMap (given? k)
  removed : calls.filterMap removed? = others.filterMap removed?

end ClauseCall

namespace Clauses

open ClauseCall

/-- The entries that calls give the setter of a clause, one after the other. -/
def givenTo (k : ValuedClause) (calls : List ClauseCall) : List (String × Value) :=
  (calls.filterMap (given? k)).flatMap entriesOf

/-- The names that calls give to be removed, one after the other. -/
def givenToRemove (calls : List ClauseCall) : List String :=
  (calls.filterMap removed?).flatMap (·.getD [])

/-- The update that calls make of one that does nothing. -/
def ofCalls (calls : List ClauseCall) : Clauses := calls.foldl perform empty

/-- A call assigns the entries that it gives to its clause, and leaves the other clauses. -/
theorem assignments_perform (k : ValuedClause) (c : Clauses) (call : ClauseCall) :
    (c.perform call).assignments k = (call.given? k).elim (c.assignments k)
      fun given => (c.assignments k).assignAll (entriesOf given) := by
  cases call with
  | remove names => cases names <;> cases k <;> rfl
  | assign other given =>
      rw [given?]
      by_cases h : other = k
      · subst h
        rw [if_pos rfl]
        cases other <;> cases given <;> rfl
      · rw [if_neg h]
        cases other <;> cases given <;> cases k <;> first | rfl | exact absurd rfl h

theorem remove_perform (c : Clauses) (call : ClauseCall) :
    (c.perform call).remove = call.removed?.elim c.remove (c.remove ++ ·.getD []) := by
  cases call with
  | assign k given => cases k <;> cases given <;> rfl
  | remove names =>
      cases names with
      | none => exact (List.append_nil _).symm
      | some names => rfl

/-- **A clause follows its own setter**, after calls of any setters. -/
theorem assignments_foldl_perform (k : ValuedClause) (calls : List ClauseCall) (c : Clauses) :
    (calls.foldl perform c).assignments k = (c.assignments k).assignAll (givenTo k calls) := by
  have hfold (gs : List (Option Assignments)) (a : Assignments) :
      gs.foldl (fun a given => a.assignAll (entriesOf given)) a
        = a.assignAll (gs.flatMap entriesOf) := by
    induction gs generalizing a with
    | nil => rfl
    | cons given rest ih =>
        rw [List.foldl_cons, ih, List.flatMap_cons, Assignments.assignAll_append]
  rw [foldl_eq_foldl_own (assignments · k) (given? k) (fun a given => a.assignAll (entriesOf given))
    (assignments_perform k), hfold]
  rfl

/-- The removed names are those of all calls, in order and each time. -/
theorem remove_foldl_perform (calls : List ClauseCall) (c : Clauses) :
    (calls.foldl perform c).remove = c.remove ++ givenToRemove calls := by
  have hfold (gs : List (Option (List String))) (names : List String) :
      gs.foldl (fun names given => names ++ given.getD []) names
        = names ++ gs.flatMap (·.getD []) := by
    induction gs generalizing names with
    | nil => exact (List.append_nil _).symm
    | cons given rest ih => rw [List.foldl_cons, ih, List.flatMap_cons, List.append_assoc]
  rw [foldl_eq_foldl_own remove removed? (fun names given => names ++ given.getD [])
    remove_perform, hfold]
  rfl

theorem ext_assignments {c d : Clauses} (h : ∀ k, c.assignments k = d.assignments k)
    (hremove : c.remove = d.remove) : c = d := by
  obtain ⟨set, remove, add, delete⟩ := c
  obtain rfl : set = d.set := h .set
  obtain rfl : add = d.add := h .add
  obtain rfl : delete = d.delete := h .delete
  obtain rfl : remove = d.remove := hremove
  rfl

/-- **Calls of different setters may change places.** -/
theorem foldl_perform_eq {calls others : List ClauseCall} (h : SameBySetter calls others)
    (c : Clauses) : calls.foldl perform c = others.foldl perform c := by
  refine ext_assignments (fun k => ?_) ?_
  · rw [assignments_foldl_perform, assignments_foldl_perform, givenTo, givenTo, h.assigned]
  · rw [remove_foldl_perform, remove_foldl_perform, givenToRemove, givenToRemove, h.removed]

theorem perform_of_isAbsent (c : Clauses) {call : ClauseCall} (h : call.isAbsent = true) :
    c.perform call = c := by
  cases call with
  | assign k given =>
      obtain rfl := Option.isNone_iff_eq_none.mp h
      cases k <;> rfl
  | remove given =>
      obtain rfl := Option.isNone_iff_eq_none.mp h
      rfl

/-- Calls with nothing in them may be left out. -/
theorem foldl_perform_filter (calls : List ClauseCall) (c : Clauses) :
    (calls.filter fun call => !call.isAbsent).foldl perform c = calls.foldl perform c := by
  induction calls generalizing c with
  | nil => rfl
  | cons call rest ih =>
      cases h : call.isAbsent with
      | true =>
          rw [List.filter_cons_of_neg (by simp [h]), ih, List.foldl_cons, perform_of_isAbsent c h]
      | false => rw [List.filter_cons_of_pos (by simp [h]), List.foldl_cons, ih, List.foldl_cons]

/-- Clauses are empty exactly when there is neither an assignment nor a removed name. -/
theorem isEmpty_iff_assignments {c : Clauses} :
    c.isEmpty = true ↔ (∀ k, (c.assignments k).isEmpty = true) ∧ c.remove = [] := by
  have hentries (k : ValuedClause) :
      (c.assignments k).isEmpty = true ↔ (c.assignments k).entries = [] := List.isEmpty_iff
  simp only [isEmpty_iff, hentries]
  constructor
  · rintro ⟨hset, hremove, hadd, hdelete⟩
    refine ⟨fun k => ?_, hremove⟩
    cases k with
    | set => exact hset
    | add => exact hadd
    | delete => exact hdelete
  · rintro ⟨h, hremove⟩
    exact ⟨h .set, hremove, h .add, h .delete⟩

/-- What calls make of an update that does nothing. -/
structure SettledBy (calls : List ClauseCall) (c : Clauses) : Prop where
  /-- Each clause whose entries have values holds what its own setter is given. -/
  assigned : ∀ k, (c.assignments k).Accumulates (givenTo k calls)
  /-- The names to be removed are those that are given, also the repeated ones. -/
  removed : c.remove = givenToRemove calls
  /-- Absent arguments change nothing. -/
  absent : ofCalls (calls.filter fun call => !call.isAbsent) = c
  /-- Nothing is to be done exactly when nothing is given. -/
  empty : c.isEmpty = true ↔ (∀ k, givenTo k calls = []) ∧ givenToRemove calls = []
  /-- Only the order of the calls of one setter counts, for the text, the values and the error too. -/
  order : ∀ others, SameBySetter calls others → ofCalls others = c ∧
    (ofCalls others).compile = c.compile

/-- **Clauses are settled by the calls** that set them. -/
theorem settledBy_ofCalls (calls : List ClauseCall) : SettledBy calls (ofCalls calls) := by
  have hassigned (k : ValuedClause) :
      ((ofCalls calls).assignments k).Accumulates (givenTo k calls) := by
    have hempty : empty.assignments k = .empty := by cases k <;> rfl
    rw [ofCalls, assignments_foldl_perform, hempty]
    exact Assignments.accumulates_empty.assignAll (givenTo k calls)
  have hremoved : (ofCalls calls).remove = givenToRemove calls := remove_foldl_perform calls empty
  constructor
  case assigned => exact hassigned
  case removed => exact hremoved
  case absent => exact foldl_perform_filter calls empty
  case empty =>
    rw [isEmpty_iff_assignments, hremoved]
    exact and_congr_left fun _ => forall_congr' fun k => (hassigned k).isEmpty_iff
  case order =>
    intro others h
    have hsame : ofCalls others = ofCalls calls := (foldl_perform_eq h empty).symm
    exact ⟨hsame, congrArg compile hsame⟩

end Clauses

/-! ## Updates -/

namespace UpdateCall

/-- The call of a setter of a clause, if it is one. -/
def clause? : UpdateCall → Option ClauseCall
  | clause call => some call
  | _ => none

/-- What a call gives as the condition, if it is a call of that setter. -/
def condition? : UpdateCall → Option (Option Filter)
  | condition given => some given
  | _ => none

/-- What a call gives to be returned, if it is a call of that setter. -/
def returnValues? : UpdateCall → Option (Option String)
  | returnValues given => some given
  | _ => none

/-- Calls that give each setter the same arguments in the same order, whatever stands between. -/
structure SameBySetter (calls others : List UpdateCall) : Prop where
  clauses : ClauseCall.SameBySetter (calls.filterMap clause?) (others.filterMap clause?)
  condition : calls.filterMap condition? = others.filterMap condition?
  returnValues : calls.filterMap returnValues? = others.filterMap returnValues?

end UpdateCall

theorem WriteOptions.foldl_withCondition (given : List (Option Filter)) (o : WriteOptions) :
    given.foldl withCondition o = { o with condition := lastGiven given o.condition } := by
  induction given generalizing o with
  | nil => rfl
  | cons condition rest ih =>
      rw [List.foldl_cons, ih, lastGiven_cons]
      rfl

namespace Update

open UpdateCall

/-- The clauses of an update follow from the calls that are about clauses. -/
theorem clauses_foldl_perform (calls : List UpdateCall) (u : Update) :
    (calls.foldl perform u).clauses = (calls.filterMap clause?).foldl Clauses.perform u.clauses := by
  refine foldl_eq_foldl_own Update.clauses clause? Clauses.perform (fun u c => ?_) calls u
  cases c <;> rfl

/-- The condition of an update follows from the calls that are about it. -/
theorem options_foldl_perform (calls : List UpdateCall) (u : Update) :
    (calls.foldl perform u).options = { u.options with
      condition := lastGiven (calls.filterMap condition?) u.options.condition } := by
  rw [foldl_eq_foldl_own Update.options condition? WriteOptions.withCondition
    (fun u c => by cases c <;> rfl), WriteOptions.foldl_withCondition]

/-- The return values of an update are the ones given last. -/
theorem returnValues_foldl_perform (calls : List UpdateCall) (u : Update) :
    (calls.foldl perform u).returnValues
      = lastGiven (calls.filterMap returnValues?) u.returnValues := by
  refine foldl_own_eq_lastGiven Update.returnValues returnValues? (fun u c => ?_) calls u
  cases c <;> rfl

theorem keys_foldl_perform (calls : List UpdateCall) (u : Update) :
    (calls.foldl perform u).keys = u.keys := by
  refine foldl_eq_self (g := Update.keys) (fun u c => ?_) calls u
  cases c <;> rfl

/-- **Calls of different setters of an update may change places.** -/
theorem foldl_perform_eq {calls others : List UpdateCall} (h : SameBySetter calls others)
    (u : Update) : calls.foldl perform u = others.foldl perform u := by
  have hext {u v : Update} (hkeys : u.keys = v.keys) (hreturn : u.returnValues = v.returnValues)
      (hclauses : u.clauses = v.clauses) (hoptions : u.options = v.options) : u = v := by
    obtain ⟨keys, returnValues, clauses, options⟩ := u
    cases hkeys; cases hreturn; cases hclauses; cases hoptions
    rfl
  refine hext ?_ ?_ ?_ ?_
  · rw [keys_foldl_perform, keys_foldl_perform]
  · rw [returnValues_foldl_perform, returnValues_foldl_perform, h.returnValues]
  · rw [clauses_foldl_perform, clauses_foldl_perform, Clauses.foldl_perform_eq h.clauses]
  · rw [options_foldl_perform, options_foldl_perform, h.condition]

/-- What calls make of an update. -/
structure SettledBy (calls : List UpdateCall) (u v : Update) : Prop where
  keys : v.keys = u.keys
  /-- The clauses follow the setters of the clauses alone. -/
  clauses : v.clauses = (calls.filterMap clause?).foldl Clauses.perform u.clauses
  options : v.options = { u.options with
    condition := lastGiven (calls.filterMap condition?) u.options.condition }
  returnValues : v.returnValues = lastGiven (calls.filterMap returnValues?) u.returnValues
  /-- Only the order of the calls of one setter counts, for the request too. -/
  order : ∀ others, SameBySetter calls others → others.foldl perform u = v ∧
    (others.foldl perform u).request = v.request

/-- **An update is settled by the calls** that set it, each part of it by its own. -/
theorem settledBy_foldl_perform (calls : List UpdateCall) (u : Update) :
    SettledBy calls u (calls.foldl perform u) where
  keys := keys_foldl_perform calls u
  clauses := clauses_foldl_perform calls u
  options := options_foldl_perform calls u
  returnValues := returnValues_foldl_perform calls u
  order := by
    intro others h
    have hsame : others.foldl perform u = calls.foldl perform u := (foldl_perform_eq h u).symm
    exact ⟨hsame, congrArg request hsame⟩

end Update

/-- **Settings accumulate per clause and commute across clauses**, for every sequence of calls. -/
theorem settings_accumulate :
    (∀ calls, Clauses.SettledBy calls (Clauses.ofCalls calls)) ∧
      ∀ calls u, Update.SettledBy calls u (calls.foldl Update.perform u) :=
  ⟨Clauses.settledBy_ofCalls, Update.settledBy_foldl_perform⟩

/-- Names come up again within and across the calls, and some arguments are absent. -/
def repeatedCalls : List ClauseCall :=
  [.assign .set (some ⟨[("b", .text "1"), ("a", .text "2")]⟩), .assign .set none,
    .assign .set (some ⟨[("c", .text "3"), ("b", .text "4")]⟩), .remove (some ["x", "x"]),
    .assign .delete (some ⟨[("b", .text "5")]⟩), .remove none, .remove (some ["x"])]

/-- The same calls of each setter with others between them. -/
def interleavedCalls : List ClauseCall :=
  [.remove (some ["x", "x"]), .assign .set (some ⟨[("b", .text "1"), ("a", .text "2")]⟩),
    .remove none, .assign .delete (some ⟨[("b", .text "5")]⟩), .remove (some ["x"]),
    .assign .set none, .assign .set (some ⟨[("c", .text "3"), ("b", .text "4")]⟩)]

/-- The place of a name is that of its first value, and its value is the last one. -/
theorem settings_accumulate_repeatedCalls :
    Clauses.ofCalls interleavedCalls = Clauses.ofCalls repeatedCalls ∧
      (Clauses.ofCalls repeatedCalls).set.names = ["b", "a", "c"] ∧
      ("b", .text "4") ∈ (Clauses.ofCalls repeatedCalls).set.entries ∧
      (Clauses.ofCalls repeatedCalls).remove = ["x", "x", "x"] ∧
      (Clauses.ofCalls repeatedCalls).isEmpty = false ∧
      ∀ u, (interleavedCalls.map .clause).foldl Update.perform u
        = (repeatedCalls.map .clause).foldl Update.perform u := by
  obtain ⟨hclauses, hupdate⟩ := settings_accumulate
  have hsettled := hclauses repeatedCalls
  have hsame : ClauseCall.SameBySetter repeatedCalls interleavedCalls :=
    ⟨fun k => by cases k <;> rfl, rfl⟩
  have hupdates : UpdateCall.SameBySetter (repeatedCalls.map .clause)
      (interleavedCalls.map .clause) := ⟨hsame, rfl, rfl⟩
  refine ⟨(hsettled.order _ hsame).1, (hsettled.assigned .set).names,
    ((hsettled.assigned .set).last _ _).mpr ?_, hsettled.removed, ?_, fun u => ?_⟩
  · exact ⟨[("b", .text "1"), ("a", .text "2"), ("c", .text "3")], [], rfl, List.not_mem_nil⟩
  · rw [Bool.eq_false_iff]
    exact fun h => nomatch (hsettled.empty.mp h).2
  · exact ((hupdate (repeatedCalls.map .clause) u).order _ hupdates).1

end Depot
