import Depot.Proofs.Placeholder

/-!
# Tokens of updates — how the text of an update is cut

The text of an update is cut into words, commas and equals signs; blanks only keep words apart. The
tokens are cut again where a keyword stands, in capital letters or not: what is behind a keyword, up
to the next one, is the body of its clause (**`sections`**).

A text between two others that keeps their words apart **`Separates`** them, and then their tokens
stand one after the other (`tokens_separated`, `tokens_intercalate`). Bodies without a keyword are
found behind their own keywords again (**`sections_flatMap`**).
-/

namespace Depot

/-- The clauses of an update. -/
inductive Clause where
  | valued (k : ValuedClause)
  | remove
  deriving DecidableEq, Repr

namespace Clause

/-- The clauses in the order in which they are rendered. -/
def order : List Clause := [.valued .set, .remove, .valued .add, .valued .delete]

/-- The keyword of a clause. -/
def keyword : Clause → String
  | .valued k => k.keyword
  | .remove => "REMOVE"

end Clause

namespace UpdateText

/-- A piece of the text of an update. -/
inductive Token where
  | word (letters : List Char)
  | comma
  | equals
  deriving DecidableEq, Repr

/-- Whether a character belongs to a word. -/
def inWord (c : Char) : Bool := !Text.isBlank c && c != ',' && c != '='

/-- Whether a word goes on with what is ahead. -/
def goesOn (rest : List Char) : Bool := rest.head?.any inWord

/-- Tokens with a character in front of them, which may belong to the first word. -/
def extend (c : Char) : Bool → List Token → List Token
  | true, .word letters :: ts => .word (c :: letters) :: ts
  | _, ts => .word [c] :: ts

/-- The tokens of a text. -/
def tokens : List Char → List Token
  | [] => []
  | c :: rest =>
      if inWord c then extend c (goesOn rest) (tokens rest)
      else if c = ',' then .comma :: tokens rest
      else if c = '=' then .equals :: tokens rest
      else tokens rest

/-- The clause of a keyword, which may be written in small letters. -/
def keyword? : Token → Option Clause
  | .word letters => Clause.order.find? fun k => letters.map Char.toUpper == k.keyword.toList
  | _ => none

/-- The tokens in front of the first keyword, and those behind each keyword. -/
def sections : List Token → List Token × List (Clause × List Token)
  | [] => ([], [])
  | t :: ts =>
      match keyword? t with
      | none => (t :: (sections ts).1, (sections ts).2)
      | some k => ([], (k, (sections ts).1) :: (sections ts).2)

/-! ## Words -/

theorem extend_false (c : Char) (ts : List Token) : extend c false ts = .word [c] :: ts := by
  cases ts <;> rfl

/-- Where a word goes on, the first token is a word. -/
theorem tokens_of_goesOn {cs : List Char} (h : goesOn cs = true) :
    ∃ letters ts, tokens cs = .word letters :: ts := by
  cases cs with
  | nil => exact nomatch h
  | cons c rest =>
      have hc : inWord c = true := h
      rw [tokens, if_pos hc]
      unfold extend
      split
      · exact ⟨_, _, rfl⟩
      · exact ⟨_, _, rfl⟩

/-- **Where no word goes on** a text can be cut in two. -/
theorem tokens_append {rest : List Char} (h : goesOn rest = false) (cs : List Char) :
    tokens (cs ++ rest) = tokens cs ++ tokens rest := by
  induction cs with
  | nil => rfl
  | cons c cs ih =>
      -- A character of a word looks one character ahead, across the cut only from its edge.
      have hextend : extend c (goesOn (cs ++ rest)) (tokens cs ++ tokens rest)
          = extend c (goesOn cs) (tokens cs) ++ tokens rest := by
        cases cs with
        | nil =>
            rw [List.nil_append, h, extend_false]
            rfl
        | cons d cs =>
            have hsame : goesOn (d :: cs ++ rest) = goesOn (d :: cs) := rfl
            rw [hsame]
            cases hd : goesOn (d :: cs) with
            | false =>
                rw [extend_false, extend_false]
                rfl
            | true =>
                obtain ⟨letters, ts, hts⟩ := tokens_of_goesOn hd
                rw [hts]
                rfl
      rw [List.cons_append, tokens, tokens, ih, hextend]
      split
      · rfl
      · split
        · rfl
        · split <;> rfl

theorem tokens_word {cs : List Char} (hne : cs ≠ []) (h : cs.all inWord = true) :
    tokens cs = [.word cs] := by
  induction cs with
  | nil => exact absurd rfl hne
  | cons c cs ih =>
      rw [List.all_cons, Bool.and_eq_true] at h
      rw [tokens, if_pos h.1]
      cases cs with
      | nil => rfl
      | cons d cs =>
          have hd : goesOn (d :: cs) = true := (Bool.and_eq_true _ _ ▸ h.2 : _ ∧ _).1
          rw [ih (List.cons_ne_nil _ _) h.2, hd]
          rfl

/-! ## Texts put together -/

/-- A text between two others that keeps their words apart and has tokens of its own. -/
structure Separates (sep : String) (ts : List Token) : Prop where
  stops : ∀ rest, goesOn (sep.toList ++ rest) = false
  reads : ∀ rest, tokens (sep.toList ++ rest) = ts ++ tokens rest

theorem separates_space : Separates " " [] where
  stops := fun _ => rfl
  reads := fun _ => rfl

theorem separates_comma : Separates ", " [.comma] where
  stops := fun _ => rfl
  reads := fun _ => rfl

theorem separates_equals : Separates " = " [.equals] where
  stops := fun _ => rfl
  reads := fun _ => rfl

/-- Texts on both sides of a separator have their own tokens. -/
theorem tokens_separated {sep : String} {ts : List Token} (h : Separates sep ts)
    (left right : String) :
    tokens (left ++ sep ++ right).toList = tokens left.toList ++ (ts ++ tokens right.toList) := by
  rw [String.toList_append, String.toList_append, List.append_assoc, tokens_append (h.stops _),
    h.reads]

/-- Texts with separators between them have their own tokens and those of the separators. -/
theorem tokens_intercalate {sep : String} {ts : List Token} (h : Separates sep ts)
    (texts : List String) :
    tokens (String.intercalate sep texts).toList
      = List.intercalate ts (texts.map fun text => tokens text.toList) := by
  induction texts with
  | nil => simp [tokens]
  | cons text rest ih =>
      cases rest with
      | nil => simp
      | cons next rest =>
          rw [String.intercalate_cons_cons, tokens_separated h, ih]
          simp [List.intercalate_cons_cons]

theorem tokens_spaced (texts : List String) :
    tokens (String.intercalate " " texts).toList
      = texts.flatMap fun text => tokens text.toList := by
  induction texts with
  | nil => simp [tokens]
  | cons text rest ih =>
      cases rest with
      | nil => simp
      | cons next rest =>
          rw [String.intercalate_cons_cons, tokens_separated separates_space, ih]
          rfl

theorem forall_mem_intercalate {α : Type} {p : α → Prop} {sep : List α} {ls : List (List α)}
    (hsep : ∀ t ∈ sep, p t) (h : ∀ l ∈ ls, ∀ t ∈ l, p t) : ∀ t ∈ List.intercalate sep ls, p t := by
  induction ls with
  | nil => simp
  | cons l ls ih =>
      have htail := ih fun l hl => h l (List.mem_cons_of_mem _ hl)
      cases ls with
      | nil => simpa using h l List.mem_cons_self
      | cons next ls =>
          intro t ht
          rw [List.intercalate_cons_cons] at ht
          rcases List.mem_append.mp ht with ht | ht
          · rcases List.mem_append.mp ht with ht | ht
            · exact h l List.mem_cons_self t ht
            · exact hsep t ht
          · exact htail t ht

/-! ## Sections -/

theorem keyword?_keyword (k : Clause) : keyword? (.word k.keyword.toList) = some k := by
  cases k with
  | remove => decide
  | valued k => cases k <;> decide

/-- Every keyword begins a section. -/
theorem keywords_eq (ts : List Token) :
    ts.filterMap keyword? = (sections ts).2.map (·.1) := by
  induction ts with
  | nil => rfl
  | cons t ts ih =>
      rw [sections]
      cases hk : keyword? t with
      | none => rw [List.filterMap_cons_none hk, ih]
      | some k => rw [List.filterMap_cons_some hk, ih, List.map_cons]

/-- Tokens without a keyword stand in front of the first section. -/
theorem sections_append {body : List Token} (h : ∀ t ∈ body, keyword? t = none) (ts : List Token) :
    sections (body ++ ts) = (body ++ (sections ts).1, (sections ts).2) := by
  induction body with
  | nil => rfl
  | cons t body ih =>
      rw [List.cons_append, sections, h t List.mem_cons_self,
        ih fun u hu => h u (List.mem_cons_of_mem _ hu)]
      rfl

/-- **Bodies without a keyword** are found behind their keywords. -/
theorem sections_flatMap {l : List (Clause × List Token)}
    (h : ∀ x ∈ l, ∀ t ∈ x.2, keyword? t = none) :
    sections (l.flatMap fun x => .word x.1.keyword.toList :: x.2) = ([], l) := by
  induction l with
  | nil => rfl
  | cons x l ih =>
      rw [List.flatMap_cons, List.cons_append, sections, keyword?_keyword,
        sections_append (h x List.mem_cons_self), ih fun y hy => h y (List.mem_cons_of_mem _ hy)]
      simp

end UpdateText

end Depot
