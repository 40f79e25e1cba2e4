/-!
# Settings — what is given last counts

Many settings are given one after the other, and what is absent changes nothing. What they leave is
**`lastGiven`**: the last setting that is not absent, or else the one that was there before
(`foldl_eq_lastGiven`). Where a falsy setting is passed over as well, it is **`lastTruthy`**.

The calls of several setters may stand in any order among each other. Whatever a setter does not touch
stays (`foldl_eq_self`), so each part of the state is what the calls of its own setter leave
(**`foldl_eq_foldl_own`**).
-/

namespace Depot

variable {α σ : Type}

/-- The last setting that is not absent, or else the old one. -/
def lastGiven (given : List (Option α)) (old : Option α) : Option α :=
  (given.filterMap id).getLast?.or old

/-- A value that is given replaces the old one, from which the others go on. -/
theorem lastGiven_cons (x : Option α) (given : List (Option α)) (old : Option α) :
    lastGiven (x :: given) old = lastGiven given (x.or old) := by
  cases x with
  | none => rfl
  | some a =>
      show ((a :: given.filterMap id).getLast?).or old = _
      rw [List.getLast?_cons, lastGiven]
      cases (given.filterMap id).getLast? <;> rfl

/-- **A setter that passes over what is absent** leaves the setting that is given last. -/
theorem foldl_eq_lastGiven {f : σ → Option α → σ} {g : σ → Option α}
    (h : ∀ s x, g (f s x) = x.or (g s)) (given : List (Option α)) (s : σ) :
    g (given.foldl f s) = lastGiven given (g s) := by
  induction given generalizing s with
  | nil => rfl
  | cons x rest ih => rw [List.foldl_cons, ih, h, lastGiven_cons]

/-- The last setting that is neither absent nor falsy, or else the old one unless it is falsy. -/
def lastTruthy (truthy : α → Bool) (given : List (Option α)) (old : Option α) : Option α :=
  ((given.filterMap id).filter truthy).getLast?.or (old.filter truthy)

/-- A value that counts replaces the old one, from which the others go on. -/
theorem lastTruthy_cons {truthy : α → Bool} (x : Option α) (given : List (Option α))
    (old : Option α) :
    lastTruthy truthy (x :: given) old = lastTruthy truthy given ((x.filter truthy).or old) := by
  cases x with
  | none => rfl
  | some a =>
      show (((a :: given.filterMap id).filter truthy).getLast?).or _ = _
      by_cases ha : truthy a = true
      · rw [List.filter_cons_of_pos ha, List.getLast?_cons, Option.filter_some_pos ha,
          Option.some_or, lastTruthy, Option.some_or, Option.filter_some_pos ha]
        cases ((given.filterMap id).filter truthy).getLast? <;> rfl
      · rw [List.filter_cons_of_neg ha, Option.filter_some_neg (Bool.eq_false_iff.mpr ha)]
        rfl

/-- A value that does not count is never what is left. -/
theorem lastTruthy_ne {truthy : α → Bool} {a : α} (h : truthy a = false)
    (given : List (Option α)) (old : Option α) : lastTruthy truthy given old ≠ some a := by
  intro heq
  have htrue : truthy a = true := by
    rcases Option.or_eq_some_iff.mp heq with hlast | ⟨-, hold⟩
    · exact (List.mem_filter.mp (List.mem_of_getLast? hlast)).2
    · exact (Option.filter_eq_some_iff.mp hold).2
  exact Bool.false_ne_true (h.symm.trans htrue)

/-- What a setter leaves as it is stays. -/
theorem foldl_eq_self {β : Type} {f : σ → α → σ} {g : σ → β} (h : ∀ s x, g (f s x) = g s)
    (given : List α) (s : σ) : g (given.foldl f s) = g s := by
  induction given generalizing s with
  | nil => rfl
  | cons x rest ih => rw [List.foldl_cons, ih, h]

/-- **A part of the state follows the calls of its own setter**, whatever stands between them. -/
theorem foldl_eq_foldl_own {γ β : Type} {f : σ → γ → σ} (g : σ → β) (own? : γ → Option α)
    (set : β → α → β) (h : ∀ s c, g (f s c) = (own? c).elim (g s) (set (g s))) (calls : List γ)
    (s : σ) : g (calls.foldl f s) = (calls.filterMap own?).foldl set (g s) := by
  induction calls generalizing s with
  | nil => rfl
  | cons c rest ih =>
      rw [List.foldl_cons, ih, h]
      cases hc : own? c with
      | none => rw [List.filterMap_cons_none hc, Option.elim_none]
      | some x => rw [List.filterMap_cons_some hc, List.foldl_cons, Option.elim_some]

/-! ## One setter among others -/

section

variable {γ : Type} {f : σ → γ → σ} (g : σ → Option α) (own? : γ → Option (Option α))

/-- **A setter that passes over what is absent** leaves what it is given last. -/
theorem foldl_own_eq_lastGiven (h : ∀ s c, g (f s c) = (own? c).elim (g s) (·.or (g s)))
    (calls : List γ) (s : σ) :
    g (calls.foldl f s) = lastGiven (calls.filterMap own?) (g s) := by
  rw [foldl_eq_foldl_own g own? (fun old x => x.or old) h]
  exact foldl_eq_lastGiven (g := id) (fun _ _ => rfl) (calls.filterMap own?) (g s)

/-- **A setter that passes over what is absent or falsy** leaves the truthy setting that it is given
    last, once a falsy one that was there before is dropped. -/
theorem filter_foldl_own_eq_lastTruthy {truthy : α → Bool}
    (h : ∀ s c, g (f s c) = (own? c).elim (g s) fun x => (x.filter truthy).or (g s))
    (calls : List γ) (s : σ) :
    (g (calls.foldl f s)).filter truthy = lastTruthy truthy (calls.filterMap own?) (g s) := by
  rw [foldl_eq_foldl_own g own? (fun old x => (x.filter truthy).or old) h]
  generalize calls.filterMap own? = given
  generalize g s = old
  induction given generalizing old with
  | nil => rfl
  | cons x rest ih => rw [List.foldl_cons, ih, lastTruthy_cons]

end

end Depot
