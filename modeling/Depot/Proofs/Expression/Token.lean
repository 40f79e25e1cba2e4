import Depot.Proofs.Placeholder

/-!
# Tokens of expressions — how the text of an expression is cut

An expression is cut into words, placeholders, operators and the marks `(`, `)` and `,`; blanks only
keep tokens apart. **`tokens`** always takes the longest word, placeholder or operator that is
ahead.

The main lemma is **`tokens_append`**: in front of a blank or a mark a text can be cut in two, and
its parts have their tokens one after the other. From it come the tokens of intercalated texts
(`tokens_intercalate`).
-/

namespace Depot.Expression

/-- A piece of an expression. -/
inductive Token where
  | word (s : String)
  | value (placeholder : String)
  | operator (symbol : String)
  | opening
  | closing
  | comma
  deriving DecidableEq, Repr

/-- What a character begins where a token may begin. -/
inductive Kind where
  | blank
  | opening
  | closing
  | comma
  | colon
  | operator
  | word
  deriving DecidableEq, Repr

/-- The kind of a character. -/
def kind (c : Char) : Kind :=
  if Text.isBlank c then .blank
  else if c = '(' then .opening
  else if c = ')' then .closing
  else if c = ',' then .comma
  else if c = ':' then .colon
  else if c = '=' || c = '<' || c = '>' then .operator
  else .word

/-- The characters that are neither blank nor part of a word. -/
def marks : List Char := ['(', ')', ',', ':', '=', '<', '>']

/-- Every other character that is not blank belongs to a word. -/
theorem kind_eq_word {c : Char} (hb : ¬ Text.isBlank c = true) (hm : c ∉ marks) :
    kind c = .word := by
  simp only [marks, List.mem_cons, List.not_mem_nil, or_false, not_or] at hm
  obtain ⟨ho, hcl, hco, hcolon, heq, hlt, hgt⟩ := hm
  rw [kind, if_neg hb, if_neg ho, if_neg hcl, if_neg hco, if_neg hcolon,
    if_neg (by simp [heq, hlt, hgt])]

/-- Whether a character is of a kind. -/
def isKind (k : Kind) (c : Char) : Bool := kind c == k

-- Kept closed, or the recursion of `tokens` is unfolded through every kind of character.
/-- The token that a character begins, none for a blank, and what is left behind it. -/
@[irreducible] def next (c : Char) (rest : List Char) : Option Token × List Char :=
  match kind c with
  | .blank => (none, rest)
  | .opening => (some .opening, rest)
  | .closing => (some .closing, rest)
  | .comma => (some .comma, rest)
  | .colon =>
      (some (.value (String.ofList (c :: rest.takeWhile isWordChar))), rest.dropWhile isWordChar)
  | .operator =>
      (some (.operator (String.ofList (c :: rest.takeWhile (isKind .operator)))),
        rest.dropWhile (isKind .operator))
  | .word =>
      (some (.word (String.ofList (c :: rest.takeWhile (isKind .word)))),
        rest.dropWhile (isKind .word))

theorem next_length (c : Char) (rest : List Char) : (next c rest).2.length ≤ rest.length := by
  unfold next
  cases kind c <;>
    first
    | exact Nat.le_refl _
    | exact (List.dropWhile_suffix _).length_le

/-- The tokens of a text. -/
def tokens : List Char → List Token
  | [] => []
  | c :: rest => (next c rest).1.toList ++ tokens (next c rest).2
termination_by cs => cs.length
decreasing_by exact Nat.lt_succ_of_le (next_length c rest)

/-- Whether a character ends what stands in front of it: a blank or a mark. -/
def isBreak (c : Char) : Bool := [.blank, .opening, .closing, .comma].contains (kind c)

/-- What is ahead ends whatever stands in front of it. -/
def Breaks (rest : List Char) : Prop := ∀ c ∈ rest.head?, isBreak c = true

instance (rest : List Char) : Decidable (Breaks rest) :=
  inferInstanceAs (Decidable (∀ c ∈ rest.head?, _))

/-! ## The next token -/

@[simp] theorem tokens_nil : tokens [] = [] := by rw [tokens]

/-- The kind of the first character says what the first token is and where the next one begins. -/
theorem tokens_cons (c : Char) (rest : List Char) :
    tokens (c :: rest) = match kind c with
      | .blank => tokens rest
      | .opening => .opening :: tokens rest
      | .closing => .closing :: tokens rest
      | .comma => .comma :: tokens rest
      | .colon => .value (String.ofList (c :: rest.takeWhile isWordChar)) ::
          tokens (rest.dropWhile isWordChar)
      | .operator => .operator (String.ofList (c :: rest.takeWhile (isKind .operator))) ::
          tokens (rest.dropWhile (isKind .operator))
      | .word => .word (String.ofList (c :: rest.takeWhile (isKind .word))) ::
          tokens (rest.dropWhile (isKind .word)) := by
  rw [tokens]
  unfold next
  cases kind c <;> rfl

@[simp] theorem tokens_space (rest : List Char) : tokens (' ' :: rest) = tokens rest := by
  rw [tokens_cons, show kind ' ' = .blank from by decide]

@[simp] theorem tokens_opening (rest : List Char) :
    tokens ('(' :: rest) = .opening :: tokens rest := by
  rw [tokens_cons, show kind '(' = .opening from by decide]

@[simp] theorem tokens_closing (rest : List Char) :
    tokens (')' :: rest) = .closing :: tokens rest := by
  rw [tokens_cons, show kind ')' = .closing from by decide]

@[simp] theorem tokens_comma (rest : List Char) :
    tokens (',' :: rest) = .comma :: tokens rest := by
  rw [tokens_cons, show kind ',' = .comma from by decide]

/-! ## Cutting a text in two -/

/-- No run of characters goes on into a character that breaks it. -/
private theorem run_append {p : Char → Bool} (hp : ∀ c, isBreak c = true → p c = false)
    {rest : List Char} (h : Breaks rest) (cs : List Char) :
    (cs ++ rest).takeWhile p = cs.takeWhile p ∧
      (cs ++ rest).dropWhile p = cs.dropWhile p ++ rest := by
  induction cs with
  | nil =>
      cases rest with
      | nil => exact ⟨rfl, rfl⟩
      | cons c rest =>
          have hc : p c = false := hp c (h c rfl)
          simp [hc]
  | cons c cs ih =>
      rw [List.cons_append, List.takeWhile_cons, List.takeWhile_cons, List.dropWhile_cons,
        List.dropWhile_cons, ih.1, ih.2]
      cases p c <;> exact ⟨rfl, rfl⟩

private theorem isWordChar_of_isBreak (c : Char) (h : isBreak c = true) : isWordChar c = false := by
  rw [Bool.eq_false_iff]
  intro hw
  have hblank : ¬ Text.isBlank c = true := by
    intro hb
    rw [isWordChar_of_isBlank hb] at hw
    exact nomatch hw
  have hmark : c ∉ marks := by
    intro hm
    have hall : marks.any isWordChar = false := by decide
    rw [List.any_eq_false] at hall
    exact hall c hm hw
  rw [isBreak, kind_eq_word hblank hmark] at h
  exact nomatch h

private theorem isKind_of_isBreak {k : Kind} (hk : k = .operator ∨ k = .word) (c : Char)
    (h : isBreak c = true) : isKind k c = false := by
  rw [isKind, beq_eq_false_iff_ne]
  rintro rfl
  rw [isBreak] at h
  rcases hk with hk | hk
  · rw [hk] at h
    exact nomatch h
  · rw [hk] at h
    exact nomatch h

/-- **In front of a blank or a mark** a text can be cut in two. -/
theorem tokens_append {rest : List Char} (h : Breaks rest) (cs : List Char) :
    tokens (cs ++ rest) = tokens cs ++ tokens rest := by
  induction cs using tokens.induct with
  | case1 => simp
  | case2 c cs ih =>
      -- Only values, operators and words look at what is ahead, and a break ends all three.
      have hnext : next c (cs ++ rest) = ((next c cs).1, (next c cs).2 ++ rest) := by
        have hvalue := run_append isWordChar_of_isBreak h cs
        have hoperator := run_append (isKind_of_isBreak (.inl rfl)) h cs
        have hword := run_append (isKind_of_isBreak (.inr rfl)) h cs
        unfold next
        cases kind c with
        | blank => rfl
        | opening => rfl
        | closing => rfl
        | comma => rfl
        | colon => rw [hvalue.1, hvalue.2]
        | operator => rw [hoperator.1, hoperator.2]
        | word => rw [hword.1, hword.2]
      rw [List.cons_append, tokens, tokens, hnext, ih, List.append_assoc]

/-! ## Texts of one token -/

private theorem run_of_all {p : Char → Bool} {cs : List Char} (h : cs.all p = true) :
    cs.takeWhile p = cs ∧ cs.dropWhile p = [] := by
  have ht : (cs ++ []).takeWhile p = cs ++ [].takeWhile p :=
    List.takeWhile_append_of_pos (List.all_eq_true.mp h)
  have hd : (cs ++ []).dropWhile p = [].dropWhile p :=
    List.dropWhile_append_of_pos (List.all_eq_true.mp h)
  rw [List.append_nil] at ht hd
  rw [ht, hd]
  exact ⟨List.append_nil cs, rfl⟩

/-- A word is one token. -/
theorem tokens_of_word {name : String} (hne : name ≠ "")
    (h : name.toList.all (isKind .word) = true) : tokens name.toList = [.word name] := by
  cases hl : name.toList with
  | nil => exact absurd (String.toList_eq_nil_iff.mp hl) hne
  | cons c cs =>
      rw [hl, List.all_cons, Bool.and_eq_true] at h
      have hrun := run_of_all h.2
      rw [tokens_cons, beq_iff_eq.mp h.1, hrun.1, hrun.2, tokens_nil, ← hl, String.ofList_toList]

theorem tokens_symbol (comparison : Comparison) :
    tokens comparison.symbol.toList = [.operator comparison.symbol] := by
  have hall : comparison.symbol.toList.all (isKind .operator) = true := by
    cases comparison <;> decide
  cases hl : comparison.symbol.toList with
  | nil => cases comparison <;> exact absurd hl (by decide)
  | cons c cs =>
      rw [hl, List.all_cons, Bool.and_eq_true] at hall
      have hrun := run_of_all hall.2
      rw [tokens_cons, beq_iff_eq.mp hall.1, hrun.1, hrun.2, tokens_nil, ← hl,
        String.ofList_toList]

theorem tokens_placeholder {p : String} (h : Placeholder p) : tokens p.toList = [.value p] := by
  obtain ⟨word, -, hword, rfl⟩ := h
  have hrun := run_of_all hword
  rw [String.toList_ofList, tokens_cons, show kind ':' = .colon from by decide, hrun.1, hrun.2,
    tokens_nil]

/-! ## Texts put together -/

/-- A text that is read as the given tokens whatever stands behind it. -/
def Leads (s : String) (ts : List Token) : Prop :=
  ∀ rest, tokens (s.toList ++ rest) = ts ++ tokens rest

/-- A text that is read as the given tokens wherever it stands. -/
structure Joint (s : String) (ts : List Token) : Prop where
  leads : Leads s ts
  breaks : ∀ rest, Breaks (s.toList ++ rest)

/-- Behind a text that leads the tokens go on with those of what is there. -/
theorem Leads.tokens_append {s : String} {ts : List Token} (h : Leads s ts) (right : String) :
    tokens (s ++ right).toList = ts ++ tokens right.toList := by
  rw [String.toList_append, h]

/-- On both sides of a joint the texts have their own tokens. -/
theorem Joint.tokens_append {s : String} {ts : List Token} (h : Joint s ts) (left right : String) :
    tokens (left ++ s ++ right).toList = tokens left.toList ++ (ts ++ tokens right.toList) := by
  rw [String.toList_append, String.toList_append, List.append_assoc,
    Expression.tokens_append (h.breaks _), h.leads]

/-- A joint at the end adds its tokens. -/
theorem Joint.tokens_append_end {s : String} {ts : List Token} (h : Joint s ts) (left : String) :
    tokens (left ++ s).toList = tokens left.toList ++ ts := by
  have := h.tokens_append left ""
  rwa [String.append_empty, String.toList_empty, tokens_nil, List.append_nil] at this

private theorem breaks_cons {c : Char} (h : isBreak c = true) (rest : List Char) :
    Breaks (c :: rest) := by
  intro d hd
  obtain rfl : c = d := Option.some.inj hd
  exact h

theorem joint_space : Joint " " [] where
  leads := tokens_space
  breaks := breaks_cons (by decide)

theorem joint_opening : Joint "(" [.opening] where
  leads := tokens_opening
  breaks := breaks_cons (by decide)

theorem joint_closing : Joint ")" [.closing] where
  leads := tokens_closing
  breaks := breaks_cons (by decide)

theorem joint_comma : Joint "," [.comma] where
  leads := tokens_comma
  breaks := breaks_cons (by decide)

/-- Two joints one behind the other are a joint. -/
theorem Joint.append {s t : String} {ts us : List Token} (hs : Joint s ts) (ht : Joint t us) :
    Joint (s ++ t) (ts ++ us) where
  leads := fun rest => by
    rw [String.toList_append, List.append_assoc, hs.leads, ht.leads, List.append_assoc]
  breaks := fun rest => by
    rw [String.toList_append, List.append_assoc]
    exact hs.breaks _

/-- A word between two joints is one token between theirs. -/
theorem Joint.word {s t w : String} {ts us : List Token} (hs : Joint s ts) (ht : Joint t us)
    (hne : w ≠ "") (hw : w.toList.all (isKind .word) = true) :
    Joint (s ++ w ++ t) (ts ++ .word w :: us) where
  leads := fun rest => by
    rw [String.toList_append, String.toList_append, List.append_assoc, List.append_assoc, hs.leads,
      Expression.tokens_append (ht.breaks rest), tokens_of_word hne hw, ht.leads]
    simp
  breaks := fun rest => by
    rw [String.toList_append, String.toList_append, List.append_assoc, List.append_assoc]
    exact hs.breaks _

theorem Joint.leads_word {t w : String} {us : List Token} (ht : Joint t us) (hne : w ≠ "")
    (hw : w.toList.all (isKind .word) = true) : Leads (w ++ t) (.word w :: us) := by
  intro rest
  rw [String.toList_append, List.append_assoc, Expression.tokens_append (ht.breaks rest),
    tokens_of_word hne hw, ht.leads]
  rfl

/-- Texts with a joint between each two of them have their own tokens and those of the joints. -/
theorem tokens_intercalate {sep : String} {ts : List Token} (h : Joint sep ts)
    (texts : List String) :
    tokens (String.intercalate sep texts).toList
      = List.intercalate ts (texts.map fun text => tokens text.toList) := by
  induction texts with
  | nil => simp
  | cons text rest ih =>
      cases rest with
      | nil => simp
      | cons next rest =>
          rw [String.intercalate_cons_cons, h.tokens_append, ih]
          simp [List.intercalate_cons_cons]

end Depot.Expression
