import Depot.Proofs.Json.Grammar
import Depot.Proofs.Json.Number

/-!
# Spelling — the text of a document says the document

The grammar of compact documents of every kind, **`Spells`**, again as relations between the
characters ahead and what is left behind them. It says what a text denotes without a word about how it
is printed: literals are spelled in any of the ways to write their characters, integers and
floating-point numbers by the numbers that they denote, and the parts of arrays and objects stand in
order between single marks.

What is printed for a document spells it (**`spells_render`**), by one case for each kind of document.
-/

namespace Depot.Json

/-! ## The grammar -/

mutual

/-- A document without blanks outside its literals. -/
inductive Spells : List Char → Json → List Char → Prop where
  | null (rest : List Char) : Spells ("null".toList ++ rest) .null rest
  | boolean (b : Bool) (rest : List Char) :
      Spells ((if b then "true" else "false").toList ++ rest) (.boolean b) rest
  | integer {cs : List Char} {n : Int} (rest : List Char) :
      IntegerText cs n → Spells (cs ++ rest) (.integer n) rest
  | float {cs : List Char} {x : Double} (rest : List Char) :
      FloatText cs x → Spells (cs ++ rest) (.float x) rest
  | text {cs rest : List Char} {s : String} : Quoted cs s rest → Spells cs (.text s) rest
  | noElements (rest : List Char) : Spells ('[' :: ']' :: rest) (.array []) rest
  | array {cs cs' rest : List Char} {j : Json} {js : List Json} :
      Spells cs j cs' → SpellsElements cs' js rest → Spells ('[' :: cs) (.array (j :: js)) rest
  | noMembers (rest : List Char) : Spells ('{' :: '}' :: rest) (.object []) rest
  | object {cs cs' cs'' rest : List Char} {name : String} {j : Json} {ms : List (String × Json)} :
      Quoted cs name (':' :: cs') → Spells cs' j cs'' → SpellsMembers cs'' ms rest →
      Spells ('{' :: cs) (.object ((name, j) :: ms)) rest

/-- The elements behind the first one, each behind a comma, up to the end of their array. -/
inductive SpellsElements : List Char → List Json → List Char → Prop where
  | close (rest : List Char) : SpellsElements (']' :: rest) [] rest
  | more {cs cs' rest : List Char} {j : Json} {js : List Json} :
      Spells cs j cs' → SpellsElements cs' js rest → SpellsElements (',' :: cs) (j :: js) rest

/-- The members behind the first one, each behind a comma, up to the end of their object. -/
inductive SpellsMembers : List Char → List (String × Json) → List Char → Prop where
  | close (rest : List Char) : SpellsMembers ('}' :: rest) [] rest
  | more {cs cs' cs'' rest : List Char} {name : String} {j : Json} {ms : List (String × Json)} :
      Quoted cs name (':' :: cs') → Spells cs' j cs'' → SpellsMembers cs'' ms rest →
      SpellsMembers (',' :: cs) ((name, j) :: ms) rest

end

/-! ## Literals -/

namespace Literal

/-- **What is written for a character** spells it: itself, a short escape or hexadecimal digits. -/
theorem literalChar_escapeChar (c : Char) (rest : List Char) :
    LiteralChar (escapeChar c ++ rest) c rest := by
  unfold escapeChar
  cases hshort : shortEscape? c with
  | some e => exact .short rest (unescape?_eq_some_iff.mp (Token.unescape?_of_shortEscape? hshort).1)
  | none =>
      obtain ⟨hquote, hbackslash⟩ := Token.ne_of_shortEscape?_eq_none hshort
      by_cases hcontrol : c.toNat < 0x20
      · simp only [if_pos hcontrol]
        exact .unit ((hexUnit?_eq_some_iff rest).mp (Token.hexUnit?_of_lt hcontrol))
      · simp only [if_neg hcontrol]
        exact .plain rest hquote hbackslash (by omega)

/-- Escaped characters and a quotation mark behind them spell the characters. -/
theorem literalEnd_escape (cs rest : List Char) :
    LiteralEnd (escape cs ++ '"' :: rest) cs rest := by
  induction cs with
  | nil => exact .close rest
  | cons c cs ih =>
      rw [escape, List.append_assoc]
      exact .more (literalChar_escapeChar c _) ih

/-- A quoted text spells the text. -/
theorem quoted_quote (s : String) (rest : List Char) : Quoted (quote s ++ rest) s rest := by
  have hquoted := Quoted.mk (literalEnd_escape s.toList rest)
  rw [String.ofList_toList] at hquoted
  rwa [quote, List.cons_append, List.append_assoc, List.singleton_append]

end Literal

/-! ## Documents -/

mutual

/-- **Every kind of document** is spelled by its characters, whatever is behind them. -/
theorem spells_chars : ∀ (j : Json) (rest : List Char), Spells (j.chars ++ rest) j rest
  | .null, rest => .null rest
  | .boolean true, rest => .boolean true rest
  | .boolean false, rest => .boolean false rest
  | .integer n, rest => .integer rest (integerText_spells n)
  | .float x, rest => .float rest (numberText_spells x)
  | .text s, rest => .text (Literal.quoted_quote s rest)
  | .array [], rest => .noElements rest
  | .array (j :: js), rest => by
      rw [chars, List.cons_append, List.append_assoc]
      exact .array (spells_chars j _) (spells_elementChars js rest)
  | .object [], rest => .noMembers rest
  | .object ((name, j) :: ms), rest => by
      rw [chars, List.cons_append, List.append_assoc, List.cons_append, List.append_assoc]
      exact .object (Literal.quoted_quote name _) (spells_chars j _) (spells_memberChars ms rest)

/-- The elements behind the first one are spelled up to the end of the array. -/
theorem spells_elementChars : ∀ (js : List Json) (rest : List Char),
    SpellsElements (elementChars js ++ rest) js rest
  | [], rest => .close rest
  | j :: js, rest => by
      rw [elementChars, List.cons_append, List.append_assoc]
      exact .more (spells_chars j _) (spells_elementChars js rest)

/-- The members behind the first one are spelled up to the end of the object. -/
theorem spells_memberChars : ∀ (ms : List (String × Json)) (rest : List Char),
    SpellsMembers (memberChars ms ++ rest) ms rest
  | [], rest => .close rest
  | (name, j) :: ms, rest => by
      rw [memberChars, List.cons_append, List.append_assoc, List.cons_append, List.append_assoc]
      exact .more (Literal.quoted_quote name _) (spells_chars j _) (spells_memberChars ms rest)

end

/-- **What is printed for a document** spells it, and nothing is left behind. -/
theorem spells_render (j : Json) : Spells j.render.toList j [] := by
  rw [render, String.toList_ofList, ← List.append_nil j.chars]
  exact spells_chars j []

end Depot.Json
