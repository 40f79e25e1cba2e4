import Depot.Proofs.Expression.Formula
import Depot.Proofs.Expression.Token

/-!
# The grammar of conditions — how a table reads an expression

A condition is read as a formula over placeholders. **`Derives`** is the grammar over tokens. It has
three levels, so that `and` binds more tightly than `or` and parentheses go around anything;
**`Reads`** applies it to a text, of which the empty one is read as the formula that is always true.

The grammar is unambiguous: **`Derives.unique`** compares two derivations that start at one place,
each of which ends where no connective follows that would continue it, and shows that they end at
one place with one formula. The `and` of a `between` is no exception, since it stands behind a
placeholder inside of an atom. Hence **`Reads.unique`**: a text is read in at most one way.
-/

namespace Depot.Expression

/-- Words that are not the name of an attribute. -/
def reserved : List String := ["and", "or", "not", "between", "in"]

/-- The alternatives of an `in`: one placeholder or more, with commas between them. -/
inductive Alternatives : List Token → List String → Prop where
  | one (p : String) : Alternatives [.value p] [p]
  | more (p : String) {ts : List Token} {ps : List String} :
      Alternatives ts ps → Alternatives (.value p :: .comma :: ts) (p :: ps)

/-- A test of an attribute, with the placeholders of its operands. -/
inductive IsAtom : List Token → Atom String → Prop where
  | compare {column : String} (comparison : Comparison) (p : String) : column ∉ reserved →
      IsAtom [.word column, .operator comparison.symbol, .value p]
        ⟨column, .compare comparison, [p]⟩
  | between {column : String} (p q : String) : column ∉ reserved →
      IsAtom [.word column, .word "between", .value p, .word "and", .value q]
        ⟨column, .between, [p, q]⟩
  | oneOf {column : String} {ts : List Token} {ps : List String} : column ∉ reserved →
      Alternatives ts ps →
      IsAtom (.word column :: .word "in" :: .opening :: (ts ++ [.closing])) ⟨column, .oneOf, ps⟩
  | contains {column : String} (p : String) : column ∉ reserved →
      IsAtom [.word "contains", .opening, .word column, .comma, .value p, .closing]
        ⟨column, .contains, [p]⟩
  | beginsWith {column : String} (p : String) : column ∉ reserved →
      IsAtom [.word "begins_with", .opening, .word column, .comma, .value p, .closing]
        ⟨column, .beginsWith, [p]⟩
  | present {column : String} : column ∉ reserved →
      IsAtom [.word "attribute_exists", .opening, .word column, .closing] ⟨column, .present, []⟩
  | absent {column : String} : column ∉ reserved →
      IsAtom [.word "attribute_not_exists", .opening, .word column, .closing] ⟨column, .absent, []⟩

/-- The levels of the grammar, the most tightly bound first. -/
inductive Level where
  | term
  | conjunction
  | disjunction

/-- The grammar of conditions. -/
inductive Derives : Level → List Token → Formula String → Prop where
  | atom {ts : List Token} {a : Atom String} : IsAtom ts a → Derives .term ts (.atom a)
  | parens {ts : List Token} {φ : Formula String} : Derives .disjunction ts φ →
      Derives .term (.opening :: (ts ++ [.closing])) φ
  | conjunct {ts : List Token} {φ : Formula String} : Derives .term ts φ → Derives .conjunction ts φ
  | and {ts us : List Token} {φ ψ : Formula String} : Derives .term ts φ →
      Derives .conjunction us ψ → Derives .conjunction (ts ++ .word "and" :: us) (.and φ ψ)
  | disjunct {ts : List Token} {φ : Formula String} : Derives .conjunction ts φ →
      Derives .disjunction ts φ
  | or {ts us : List Token} {φ ψ : Formula String} : Derives .conjunction ts φ →
      Derives .disjunction us ψ → Derives .disjunction (ts ++ .word "or" :: us) (.or φ ψ)

/-- What a text is read as. -/
inductive Reads (text : String) : Formula String → Prop where
  | empty : tokens text.toList = [] → Reads text .truth
  | condition {φ : Formula String} : Derives .disjunction (tokens text.toList) φ → Reads text φ

/-! ## Unambiguity -/

/-- What may stand behind an expression of a level without continuing it. -/
def Follows : Level → List Token → Prop
  | .term, _ => True
  | .conjunction, rest => rest.head? ≠ some (.word "and")
  | .disjunction, rest => rest.head? ≠ some (.word "and") ∧ rest.head? ≠ some (.word "or")

theorem symbol_inj {c d : Comparison} (h : c.symbol = d.symbol) : c = d := by
  revert h
  cases c <;> cases d <;> decide

/-- The alternatives of an `in` end at its parenthesis. -/
theorem Alternatives.unique {ts us : List Token} {ps qs : List String} {r s : List Token}
    (h : Alternatives ts ps) (h' : Alternatives us qs)
    (heq : ts ++ .closing :: r = us ++ .closing :: s) : ts = us ∧ ps = qs ∧ r = s := by
  -- Where one of them ends and the other goes on, a parenthesis would be a comma.
  induction h generalizing us qs with
  | one p =>
      cases h' with
      | one q => simpa using heq
      | more q h' => simp at heq
  | @more p ts ps h ih =>
      cases h' with
      | one q => simp at heq
      | @more q us qs h' =>
          simp only [List.cons_append, List.cons.injEq, Token.value.injEq, true_and] at heq
          obtain ⟨rfl, htail⟩ := heq
          obtain ⟨rfl, rfl, rfl⟩ := ih h' htail
          exact ⟨rfl, rfl, rfl⟩

/-- Every atom begins with a word. -/
theorem IsAtom.exists_word {ts : List Token} {a : Atom String} (h : IsAtom ts a) :
    ∃ w rest, ts = .word w :: rest := by
  cases h <;> exact ⟨_, _, rfl⟩

/-- An atom ends where it must: its first two tokens say which one it is. -/
theorem IsAtom.unique {ts us : List Token} {a b : Atom String} {r s : List Token}
    (h : IsAtom ts a) (h' : IsAtom us b) (heq : ts ++ r = us ++ s) : ts = us ∧ a = b := by
  -- Every other test has another token among the first two, or a reserved word for its attribute.
  cases h with
  | compare c p hc =>
      cases h' <;> simp at heq
      obtain ⟨rfl, hsymbol, rfl, -⟩ := heq
      obtain rfl := symbol_inj hsymbol
      exact ⟨rfl, rfl⟩
  | between p q hc =>
      cases h' <;> simp at heq
      obtain ⟨rfl, rfl, rfl, -⟩ := heq
      exact ⟨rfl, rfl⟩
  | oneOf hc hts =>
      cases h' <;> simp at heq
      rename_i _ hus
      obtain ⟨rfl, htail⟩ := heq
      obtain ⟨rfl, rfl, -⟩ := hts.unique hus htail
      exact ⟨rfl, rfl⟩
  | contains p hc =>
      cases h' <;> simp at heq
      obtain ⟨rfl, rfl, -⟩ := heq
      exact ⟨rfl, rfl⟩
  | beginsWith p hc =>
      cases h' <;> simp at heq
      obtain ⟨rfl, rfl, -⟩ := heq
      exact ⟨rfl, rfl⟩
  | present hc =>
      cases h' <;> simp at heq
      obtain ⟨rfl, -⟩ := heq
      exact ⟨rfl, rfl⟩
  | absent hc =>
      cases h' <;> simp at heq
      obtain ⟨rfl, -⟩ := heq
      exact ⟨rfl, rfl⟩

/-- **The grammar is unambiguous.** Two derivations of a level that start at one place end at one
    place with one formula, when what follows continues neither of them. -/
theorem Derives.unique {l : Level} {ts : List Token} {φ : Formula String} (h : Derives l ts φ) :
    ∀ {us : List Token} {ψ : Formula String} {r s : List Token}, Derives l us ψ → Follows l r →
      Follows l s → ts ++ r = us ++ s → ts = us ∧ φ = ψ := by
  -- By induction on the first derivation. What a level must not be followed by is what would let
  -- one of the two go on where the other has ended.
  induction h with
  | @atom ts a ha =>
      intro us ψ r s h' _ _ heq
      cases h' with
      | atom hb =>
          obtain ⟨rfl, rfl⟩ := ha.unique hb heq
          exact ⟨rfl, rfl⟩
      | parens hd =>
          obtain ⟨w, rest, rfl⟩ := ha.exists_word
          simp at heq
  | @parens ts φ hd ih =>
      intro us ψ r s h' _ _ heq
      cases h' with
      | atom hb =>
          obtain ⟨w, rest, rfl⟩ := hb.exists_word
          simp at heq
      | @parens us ψ hd' =>
          simp only [List.cons_append, List.append_assoc, List.cons.injEq, true_and] at heq
          obtain ⟨rfl, rfl⟩ := ih hd' (by simp [Follows]) (by simp [Follows]) heq
          exact ⟨rfl, rfl⟩
  | @conjunct ts φ ht ih =>
      intro us ψ r s h' hr hs heq
      cases h' with
      | conjunct ht' => exact ih ht' trivial trivial heq
      | @and us vs ψ χ ht' hc' =>
          rw [List.append_assoc, List.cons_append] at heq
          obtain ⟨rfl, rfl⟩ := ih ht' trivial trivial heq
          rw [List.append_cancel_left heq] at hr
          exact absurd rfl hr
  | @and ts vs φ χ ht hc iht ihc =>
      intro us ψ r s h' hr hs heq
      rw [List.append_assoc, List.cons_append] at heq
      cases h' with
      | conjunct ht' =>
          obtain ⟨rfl, rfl⟩ := iht ht' trivial trivial heq
          rw [← List.append_cancel_left heq] at hs
          exact absurd rfl hs
      | @and us ws ψ ω ht' hc' =>
          rw [List.append_assoc, List.cons_append] at heq
          obtain ⟨rfl, rfl⟩ := iht ht' trivial trivial heq
          have htail := List.append_cancel_left heq
          rw [List.cons.injEq] at htail
          obtain ⟨rfl, rfl⟩ := ihc hc' hr hs htail.2
          exact ⟨rfl, rfl⟩
  | @disjunct ts φ hc ih =>
      intro us ψ r s h' hr hs heq
      cases h' with
      | disjunct hc' => exact ih hc' hr.1 hs.1 heq
      | @or us vs ψ χ hc' hd' =>
          rw [List.append_assoc, List.cons_append] at heq
          obtain ⟨rfl, rfl⟩ := ih hc' hr.1 (by simp [Follows]) heq
          rw [List.append_cancel_left heq] at hr
          exact absurd rfl hr.2
  | @or ts vs φ χ hc hd ihc ihd =>
      intro us ψ r s h' hr hs heq
      rw [List.append_assoc, List.cons_append] at heq
      cases h' with
      | disjunct hc' =>
          obtain ⟨rfl, rfl⟩ := ihc hc' (by simp [Follows]) hs.1 heq
          rw [← List.append_cancel_left heq] at hs
          exact absurd rfl hs.2
      | @or us ws ψ ω hc' hd' =>
          rw [List.append_assoc, List.cons_append] at heq
          obtain ⟨rfl, rfl⟩ := ihc hc' (by simp [Follows]) (by simp [Follows]) heq
          have htail := List.append_cancel_left heq
          rw [List.cons.injEq] at htail
          obtain ⟨rfl, rfl⟩ := ihd hd' hr hs htail.2
          exact ⟨rfl, rfl⟩

/-- Nothing is derived without a token. -/
theorem Derives.ne_nil {l : Level} {ts : List Token} {φ : Formula String} (h : Derives l ts φ) :
    ts ≠ [] := by
  induction h with
  | atom ha =>
      obtain ⟨w, rest, rfl⟩ := ha.exists_word
      exact List.cons_ne_nil _ _
  | parens => exact List.cons_ne_nil _ _
  | conjunct _ ih => exact ih
  | and => simp
  | disjunct _ ih => exact ih
  | or => simp

/-- **A text is read in at most one way.** -/
theorem Reads.unique {text : String} {φ ψ : Formula String} (h : Reads text φ)
    (h' : Reads text ψ) : φ = ψ := by
  cases h with
  | empty hnil =>
      cases h' with
      | empty => rfl
      | condition hd => exact absurd hnil hd.ne_nil
  | condition hd =>
      cases h' with
      | empty hnil => exact absurd hnil hd.ne_nil
      | condition hd' =>
          have hend : Follows .disjunction [] := by simp [Follows]
          exact (hd.unique hd' hend hend rfl).2

end Depot.Expression
