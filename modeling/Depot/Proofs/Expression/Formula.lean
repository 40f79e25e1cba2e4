import Depot.Condition
import Mathlib.Data.List.Forall2

/-!
# Formulas — tests put together

A **`Formula`** puts tests of attributes (**`Atom`**) together by `and` and `or`. An atom has
operands of any kind: placeholders where a formula has just been read, attribute values where they
have been looked up (**`Formula.resolve`**). Under a truth assignment to its atoms a formula is true
or false (**`Formula.eval`**).

A **`chain`** is a list of formulas under one connective. It has the atoms of all of them in order,
it is resolved formula by formula, and it is true when all of them are, or one of them. Two groups
of atoms are put together by **`grouped`**: all of the first group and, if there is a second one, one
of the second.
-/

namespace Depot.Expression

/-- What a test asks of its attribute, without the operands. -/
inductive Operator where
  | compare (comparison : Comparison)
  | contains
  | beginsWith
  | between
  | oneOf
  | present
  | absent
  deriving DecidableEq, Repr

/-- A test of one attribute with its operands in order. -/
structure Atom (α : Type) where
  column : String
  operator : Operator
  operands : List α

/-- Tests put together. -/
inductive Formula (α : Type) where
  | truth
  | atom (a : Atom α)
  | and (φ ψ : Formula α)
  | or (φ ψ : Formula α)

variable {α : Type}

namespace Formula

/-- The atoms of a formula, in order. -/
def atoms : Formula α → List (Atom α)
  | .truth => []
  | .atom a => [a]
  | .and φ ψ => φ.atoms ++ ψ.atoms
  | .or φ ψ => φ.atoms ++ ψ.atoms

/-- Whether a formula is true under a truth assignment to its atoms. -/
def eval (v : Atom α → Bool) : Formula α → Bool
  | .truth => true
  | .atom a => v a
  | .and φ ψ => φ.eval v && ψ.eval v
  | .or φ ψ => φ.eval v || ψ.eval v

end Formula

/-- An atom with the values of its placeholders. -/
def Atom.resolve (values : Attributes) (a : Atom String) : Option (Atom AttributeValue) :=
  (a.operands.mapM values.find?).map fun operands => ⟨a.column, a.operator, operands⟩

namespace Formula

/-- A formula with the values of its placeholders. -/
def resolve (values : Attributes) : Formula String → Option (Formula AttributeValue)
  | .truth => some .truth
  | .atom a => (a.resolve values).map .atom
  | .and φ ψ => do
      let left ← φ.resolve values
      let right ← ψ.resolve values
      some (.and left right)
  | .or φ ψ => do
      let left ← φ.resolve values
      let right ← ψ.resolve values
      some (.or left right)

/-- Formulas under one connective. -/
def chain (op : Formula α → Formula α → Formula α) : List (Formula α) → Formula α
  | [] => .truth
  | [φ] => φ
  | φ :: ψ :: rest => op φ (chain op (ψ :: rest))

/-- A chain has the atoms of its links, in order. -/
theorem atoms_chain {op : Formula α → Formula α → Formula α}
    (hop : ∀ φ ψ, (op φ ψ).atoms = φ.atoms ++ ψ.atoms) (φs : List (Formula α)) :
    (chain op φs).atoms = φs.flatMap atoms := by
  induction φs with
  | nil => rfl
  | cons φ rest ih =>
      cases rest with
      | nil => exact (List.append_nil _).symm
      | cons ψ rest =>
          rw [chain, hop, ih]
          rfl

/-- A chain of conjunctions holds when all of its links do. -/
theorem eval_chain_and (v : Atom α → Bool) (φs : List (Formula α)) :
    (chain .and φs).eval v = φs.all (eval v) := by
  induction φs with
  | nil => rfl
  | cons φ rest ih =>
      cases rest with
      | nil => exact (Bool.and_true _).symm
      | cons ψ rest =>
          rw [chain, eval, ih]
          rfl

/-- A chain of disjunctions holds when one of its links does. -/
theorem eval_chain_or (v : Atom α → Bool) {φs : List (Formula α)} (hne : φs ≠ []) :
    (chain .or φs).eval v = φs.any (eval v) := by
  induction φs with
  | nil => exact absurd rfl hne
  | cons φ rest ih =>
      cases rest with
      | nil => exact (Bool.or_false _).symm
      | cons ψ rest =>
          rw [chain, eval, ih (List.cons_ne_nil _ _)]
          rfl

/-- A chain is resolved link by link. -/
theorem resolve_chain {values : Attributes} {op : Formula String → Formula String → Formula String}
    {op' : Formula AttributeValue → Formula AttributeValue → Formula AttributeValue}
    (hop : ∀ {φ ψ φ' ψ'}, φ.resolve values = some φ' → ψ.resolve values = some ψ' →
      (op φ ψ).resolve values = some (op' φ' ψ'))
    {φs : List (Formula String)} {ψs : List (Formula AttributeValue)}
    (h : List.Forall₂ (fun φ ψ => φ.resolve values = some ψ) φs ψs) :
    (chain op φs).resolve values = some (chain op' ψs) := by
  induction h with
  | nil => rfl
  | @cons φ ψ φs ψs hhead htail ih =>
      cases htail with
      | nil => exact hhead
      | cons => exact hop hhead ih

theorem resolve_and {values : Attributes} {φ ψ : Formula String} {φ' ψ' : Formula AttributeValue}
    (hφ : φ.resolve values = some φ') (hψ : ψ.resolve values = some ψ') :
    (Formula.and φ ψ).resolve values = some (.and φ' ψ') := by
  rw [resolve, hφ, hψ]
  rfl

theorem resolve_or {values : Attributes} {φ ψ : Formula String} {φ' ψ' : Formula AttributeValue}
    (hφ : φ.resolve values = some φ') (hψ : ψ.resolve values = some ψ') :
    (Formula.or φ ψ).resolve values = some (.or φ' ψ') := by
  rw [resolve, hφ, hψ]
  rfl

/-- A list of atoms is resolved atom by atom. -/
theorem resolve_atoms {values : Attributes} {as : List (Atom String)}
    {bs : List (Atom AttributeValue)}
    (h : List.Forall₂ (fun a b => a.resolve values = some b) as bs) :
    List.Forall₂ (fun φ ψ => resolve values φ = some ψ) (as.map atom) (bs.map atom) := by
  rw [List.forall₂_map_left_iff, List.forall₂_map_right_iff]
  refine h.imp fun a b hab => ?_
  rw [resolve, hab]
  rfl

/-! ## Two groups of atoms -/

/-- Atoms that must all be true, and atoms of which one must be true if there are any. -/
def grouped (all : List (Atom α)) : List (Atom α) → Formula α
  | [] => chain .and (all.map .atom)
  | a :: any => chain .and (all.map .atom ++ [chain .or ((a :: any).map .atom)])

private theorem flatMap_atoms (as : List (Atom α)) : (as.map .atom).flatMap atoms = as := by
  induction as with
  | nil => rfl
  | cons a as ih => rw [List.map_cons, List.flatMap_cons, ih, atoms, List.singleton_append]

theorem atoms_grouped (all any : List (Atom α)) : (grouped all any).atoms = all ++ any := by
  cases any with
  | nil => rw [grouped, atoms_chain fun _ _ => rfl, flatMap_atoms, List.append_nil]
  | cons a any =>
      rw [grouped, atoms_chain fun _ _ => rfl, List.flatMap_append, flatMap_atoms,
        List.flatMap_singleton, atoms_chain fun _ _ => rfl, flatMap_atoms]

/-- **Two groups are true** when all atoms of the first are and, if the second has atoms, one of
    them is. -/
theorem eval_grouped (v : Atom α → Bool) (all any : List (Atom α)) :
    (grouped all any).eval v = true ↔
      (∀ a ∈ all, v a = true) ∧ (any ≠ [] → ∃ a ∈ any, v a = true) := by
  cases any with
  | nil => simp [grouped, eval_chain_and, List.all_map, eval]
  | cons a any =>
      have hany : eval v (chain or ((a :: any).map atom)) = ((a :: any).map atom).any (eval v) :=
        eval_chain_or v (List.cons_ne_nil _ _)
      rw [grouped, eval_chain_and, List.all_append, Bool.and_eq_true, List.all_cons, List.all_nil,
        Bool.and_true, hany]
      simp [List.all_map, List.any_map, eval]

/-- A grouped formula is resolved in both of its parts. -/
theorem resolve_grouped {values : Attributes} {as as' : List (Atom String)}
    {bs bs' : List (Atom AttributeValue)}
    (h : List.Forall₂ (fun a b => a.resolve values = some b) as bs)
    (h' : List.Forall₂ (fun a b => a.resolve values = some b) as' bs') :
    (grouped as as').resolve values = some (grouped bs bs') := by
  cases h' with
  | nil => exact resolve_chain resolve_and (resolve_atoms h)
  | cons hhead htail =>
      have hany := resolve_chain resolve_or (resolve_atoms (.cons hhead htail))
      exact resolve_chain resolve_and (List.rel_append (resolve_atoms h) (.cons hany .nil))

end Formula

end Depot.Expression
