import Depot.Proofs.Json.Token

/-!
# A grammar of documents — which texts spell objects and literals

The grammar of the documents that are made of objects and texts, without a word about how they are
read. Each part is a relation between the characters ahead and what is left behind it:
`LiteralChar` is one character of a literal in any of the ways to write it, and **`ElementText`** is a
document with the blanks around it.

Scanning follows the grammar token by token: a mark or a literal is the next token exactly when it
stands ahead behind blanks (**`scanFrom_mark_iff`**, **`scanFrom_text_iff`**).
-/

namespace Depot.Json

/-! ## The grammar -/

/-- Blanks ahead of what is left, if there are any. -/
inductive Blanks : List Char → List Char → Prop where
  | done (rest : List Char) : Blanks rest rest
  | more {c : Char} {cs rest : List Char} :
      c ∈ [' ', '\t', '\n', '\r'] → Blanks cs rest → Blanks (c :: cs) rest

/-- The characters that have a short escape, each behind the letter of its escape. -/
def shortEscapes : List (Char × Char) :=
  [('"', '"'), ('\\', '\\'), ('/', '/'), ('b', '\x08'), ('f', '\x0c'), ('n', '\x0a'), ('r', '\x0d'),
    ('t', '\x09')]

/-- A hexadecimal digit in either case, with its value. -/
def HexDigit (c : Char) (n : Nat) : Prop :=
  "0123456789abcdef".toList[n]? = some c ∨ "0123456789ABCDEF".toList[n]? = some c

/-- Four hexadecimal digits with their value. -/
inductive HexUnit : List Char → Nat → List Char → Prop where
  | mk {a b c d : Char} {p q r s : Nat} (rest : List Char) :
      HexDigit a p → HexDigit b q → HexDigit c r → HexDigit d s →
      HexUnit (a :: b :: c :: d :: rest) (((p * 16 + q) * 16 + r) * 16 + s) rest

/-- One character of a literal: as it is, in a short escape, in hexadecimal digits, or as a pair of
    units behind the characters of four digits each. -/
inductive LiteralChar : List Char → Char → List Char → Prop where
  | plain {c : Char} (rest : List Char) :
      c ≠ '"' → c ≠ '\\' → 0x20 ≤ c.toNat → LiteralChar (c :: rest) c rest
  | short {e c : Char} (rest : List Char) :
      (e, c) ∈ shortEscapes → LiteralChar ('\\' :: e :: rest) c rest
  | unit {cs rest : List Char} {c : Char} :
      HexUnit cs c.toNat rest → LiteralChar ('\\' :: 'u' :: cs) c rest
  | pair {cs cs' rest : List Char} {u v : Nat} {c : Char} :
      HexUnit cs u ('\\' :: 'u' :: cs') → HexUnit cs' v rest →
      0xD800 ≤ u → u < 0xDC00 → 0xDC00 ≤ v → v < 0xE000 →
      c.toNat = 0x10000 + (u - 0xD800) * 0x400 + (v - 0xDC00) →
      LiteralChar ('\\' :: 'u' :: cs) c rest

/-- The characters of a literal up to the quotation mark behind them. -/
inductive LiteralEnd : List Char → List Char → List Char → Prop where
  | close (rest : List Char) : LiteralEnd ('"' :: rest) [] rest
  | more {cs cs' text rest : List Char} {c : Char} :
      LiteralChar cs c cs' → LiteralEnd cs' text rest → LiteralEnd cs (c :: text) rest

/-- A text between quotation marks. -/
inductive Quoted : List Char → String → List Char → Prop where
  | mk {cs text rest : List Char} :
      LiteralEnd cs text rest → Quoted ('"' :: cs) (String.ofList text) rest

mutual

/-- A document made of objects and texts, without the blanks around it. -/
inductive ValueText : List Char → Json → List Char → Prop where
  | text {cs rest : List Char} {s : String} : Quoted cs s rest → ValueText cs (.text s) rest
  | empty {cs rest : List Char} : Blanks cs ('}' :: rest) → ValueText ('{' :: cs) (.object []) rest
  | object {cs rest : List Char} {members : List (String × Json)} :
      MembersText cs members rest → ValueText ('{' :: cs) (.object members) rest

/-- A document with the blanks around it. -/
inductive ElementText : List Char → Json → List Char → Prop where
  | mk {cs cs' cs'' rest : List Char} {j : Json} :
      Blanks cs cs' → ValueText cs' j cs'' → Blanks cs'' rest → ElementText cs j rest

/-- A name, a colon and a document. -/
inductive MemberText : List Char → String × Json → List Char → Prop where
  | mk {cs cs' cs'' cs''' rest : List Char} {name : String} {j : Json} :
      Blanks cs cs' → Quoted cs' name cs'' → Blanks cs'' (':' :: cs''') → ElementText cs''' j rest →
      MemberText cs (name, j) rest

/-- Members with a comma between each two of them, up to the end of their object. -/
inductive MembersText : List Char → List (String × Json) → List Char → Prop where
  | last {cs rest : List Char} {m : String × Json} :
      MemberText cs m ('}' :: rest) → MembersText cs [m] rest
  | more {cs cs' rest : List Char} {m : String × Json} {ms : List (String × Json)} :
      MemberText cs m (',' :: cs') → MembersText cs' ms rest → MembersText cs (m :: ms) rest

end

/-! ## Escapes -/

namespace Literal

/-- The short escapes that are read are those of the table. -/
theorem unescape?_eq_some_iff {e c : Char} : unescape? e = some c ↔ (e, c) ∈ shortEscapes := by
  constructor
  · intro h
    unfold unescape? at h
    -- One case for each of the eight letters, and the last one without any.
    repeat' split at h
    all_goals
      first
      | obtain rfl := Option.some.inj h
        rename_i he
        subst he
        decide
      | exact nomatch h
  · intro h
    have hall : ∀ x ∈ shortEscapes, unescape? x.1 = some x.2 := by decide
    exact hall (e, c) h

instance (c : Char) (n : Nat) : Decidable (HexDigit c n) := inferInstanceAs (Decidable (_ ∨ _))

theorem toNat_lt_of_hexValue? {c : Char} {n : Nat} (h : hexValue? c = some n) : c.toNat < 128 := by
  unfold hexValue? at h
  simp only [Char.isDigit, Bool.and_eq_true, decide_eq_true_eq] at h
  split at h
  · rename_i hc
    exact Nat.lt_of_le_of_lt hc.2 (by decide)
  · split at h
    · rename_i hc
      exact Nat.lt_of_le_of_lt hc.2 (by decide)
    · split at h
      · rename_i hc
        exact Nat.lt_of_le_of_lt hc.2 (by decide)
      · exact nomatch h

theorem hexValue?_eq_some_iff {c : Char} {n : Nat} : hexValue? c = some n ↔ HexDigit c n := by
  constructor
  · intro h
    have hall : ∀ k < 128, (hexValue? (Char.ofNat k)).all
        (fun n => decide (HexDigit (Char.ofNat k) n)) = true := by decide +kernel
    have hc := hall c.toNat (toNat_lt_of_hexValue? h)
    rw [Char.ofNat_toNat, h] at hc
    exact of_decide_eq_true hc
  · have hlower : ∀ k < 16, ("0123456789abcdef".toList[k]?).all (hexValue? · == some k) = true := by
      decide +kernel
    have hupper : ∀ k < 16, ("0123456789ABCDEF".toList[k]?).all (hexValue? · == some k) = true := by
      decide +kernel
    rintro (h | h)
    · have hc := hlower n (List.getElem?_eq_some_iff.mp h).1
      rw [h] at hc
      exact eq_of_beq hc
    · have hc := hupper n (List.getElem?_eq_some_iff.mp h).1
      rw [h] at hc
      exact eq_of_beq hc

theorem HexDigit.lt {c : Char} {n : Nat} (h : HexDigit c n) : n < 16 := by
  rcases h with h | h
  · exact (List.getElem?_eq_some_iff.mp h).1
  · exact (List.getElem?_eq_some_iff.mp h).1

/-- Four digits are read as the unit that they spell. -/
theorem hexUnit?_eq_some_iff {a b c d : Char} {u : Nat} (rest : List Char) :
    hexUnit? a b c d = some u ↔ HexUnit (a :: b :: c :: d :: rest) u rest := by
  rw [hexUnit?]
  simp only [Option.bind_eq_bind, Option.bind_eq_some_iff, hexValue?_eq_some_iff]
  constructor
  · rintro ⟨p, hp, q, hq, r, hr, s, hs, h⟩
    obtain rfl := Option.some.inj h
    exact .mk rest hp hq hr hs
  · intro h
    cases h with
    | mk _ hp hq hr hs => exact ⟨_, hp, _, hq, _, hr, _, hs, rfl⟩

end Literal

/-- A unit stands in four digits ahead. -/
theorem HexUnit.exists_digits {cs rest : List Char} {u : Nat} (h : HexUnit cs u rest) :
    ∃ a b c d, cs = a :: b :: c :: d :: rest ∧ Literal.hexUnit? a b c d = some u := by
  cases h with
  | mk _ hp hq hr hs =>
      exact ⟨_, _, _, _, rfl, (Literal.hexUnit?_eq_some_iff rest).mpr (.mk rest hp hq hr hs)⟩

/-- A unit has sixteen bits. -/
theorem HexUnit.lt {cs rest : List Char} {u : Nat} (h : HexUnit cs u rest) : u < 0x10000 := by
  cases h with
  | mk _ hp hq hr hs =>
      have hp := Literal.HexDigit.lt hp
      have hq := Literal.HexDigit.lt hq
      have hr := Literal.HexDigit.lt hr
      have hs := Literal.HexDigit.lt hs
      omega

namespace Token

open Literal

/-! ## Literals -/

theorem scanFrom_pair {h₁ h₂ h₃ h₄ h₅ h₆ h₇ h₈ : Char} {u v : Nat}
    (hu : hexUnit? h₁ h₂ h₃ h₄ = some u) (hv : hexUnit? h₅ h₆ h₇ h₈ = some v)
    (hleading : isLeading u = true) (htrailing : isTrailing v = true) (read rest : List Char) :
    scanFrom (some read)
        ('\\' :: 'u' :: h₁ :: h₂ :: h₃ :: h₄ :: '\\' :: 'u' :: h₅ :: h₆ :: h₇ :: h₈ :: rest)
      = scanFrom (some (pairChar u v :: read)) rest := by
  rw [scanFrom.eq_def (some read)]
  simp only [if_neg (show ¬ '\\' = '"' by decide), ↓reduceIte, hu, hleading, hv, htrailing]

/-- **A character of a literal is read as itself**, in whatever way it is written. -/
theorem scanFrom_literalChar {cs rest : List Char} {c : Char} (h : LiteralChar cs c rest)
    (read : List Char) : scanFrom (some read) cs = scanFrom (some (c :: read)) rest := by
  cases h with
  | plain _ hquote hbackslash hcontrol =>
      exact scanFrom_plain hquote hbackslash (by omega) read rest
  | short _ he =>
      have hne : ∀ x ∈ shortEscapes, x.1 ≠ 'u' := by decide
      exact scanFrom_short (unescape?_eq_some_iff.mpr he) (hne _ he) read rest
  | unit hu =>
      obtain ⟨h₁, h₂, h₃, h₄, rfl, hunit⟩ := hu.exists_digits
      have hvalid : c.toNat < 0xD800 ∨ 0xDFFF < c.toNat ∧ c.toNat < 0x110000 := c.valid
      have hread := scanFrom_unit hunit (by simp [isLeading]; omega) (by simp [isTrailing]; omega)
        read rest
      rwa [Char.ofNat_toNat] at hread
  | @pair cs cs' _ u v _ hu hv hlow hhigh hlow' hhigh' hc =>
      obtain ⟨h₅, h₆, h₇, h₈, rfl, hsecond⟩ := hv.exists_digits
      obtain ⟨h₁, h₂, h₃, h₄, rfl, hfirst⟩ := hu.exists_digits
      have hpair : pairChar u v = c := by rw [pairChar, ← hc, Char.ofNat_toNat]
      rw [scanFrom_pair hfirst hsecond (by simp [isLeading, hlow, hhigh])
        (by simp [isTrailing, hlow', hhigh']), hpair]

theorem isLeading_iff {u : Nat} : isLeading u = true ↔ 0xD800 ≤ u ∧ u < 0xDC00 := by
  simp [isLeading]

theorem isTrailing_iff {u : Nat} : isTrailing u = true ↔ 0xDC00 ≤ u ∧ u < 0xE000 := by
  simp [isTrailing]

private theorem toNat_ofNat_of_valid {n : Nat} (h : n.isValidChar) : (Char.ofNat n).toNat = n := by
  rw [Char.ofNat, dif_pos h]
  rfl

/-- What is read behind a backslash is a character of the literal. -/
theorem exists_escaped {read cs : List Char} {ts : List Token}
    (h : scanFrom (some read) ('\\' :: cs) = some ts) :
    ∃ c rest, LiteralChar ('\\' :: cs) c rest ∧ scanFrom (some (c :: read)) rest = some ts := by
  rw [scanFrom.eq_def (some read)] at h
  simp only [if_neg (show ¬ '\\' = '"' by decide), ↓reduceIte] at h
  split at h
  · -- Four digits, and four more if they are the first unit of a pair.
    rename_i h₁ h₂ h₃ h₄ cs'
    split at h
    · cases h
    · rename_i u hu
      have hfirst := (hexUnit?_eq_some_iff cs').mp hu
      split at h
      · rename_i hleading
        split at h
        · rename_i h₅ h₆ h₇ h₈ cs''
          split at h
          · cases h
          · rename_i v hv
            have hsecond := (hexUnit?_eq_some_iff cs'').mp hv
            split at h
            · rename_i htrailing
              obtain ⟨hlow, hhigh⟩ := isLeading_iff.mp hleading
              obtain ⟨hlow', hhigh'⟩ := isTrailing_iff.mp htrailing
              have hvalid : (0x10000 + (u - 0xD800) * 0x400 + (v - 0xDC00)).isValidChar :=
                .inr ⟨by omega, by omega⟩
              have hvalue := toNat_ofNat_of_valid hvalid
              exact ⟨_, cs'', .pair hfirst hsecond hlow hhigh hlow' hhigh' hvalue, h⟩
            · cases h
        · cases h
      · rename_i hleading
        split at h
        · cases h
        · rename_i htrailing
          rw [isLeading_iff] at hleading
          rw [isTrailing_iff] at htrailing
          have hvalid : u.isValidChar := by
            have hlt := hfirst.lt
            by_cases hlow : u < 0xD800
            · exact .inl hlow
            · exact .inr ⟨by omega, by omega⟩
          exact ⟨_, cs', .unit ((toNat_ofNat_of_valid hvalid).symm ▸ hfirst), h⟩
  · split at h
    · rename_i he
      exact ⟨_, _, .short _ (unescape?_eq_some_iff.mp he), h⟩
    · cases h
  · cases h

/-- **What is read inside a literal** is its end or a character of it. -/
theorem exists_literalChar {read cs : List Char} {ts : List Token}
    (h : scanFrom (some read) cs = some ts) :
    (∃ rest, cs = '"' :: rest ∧
      (scanFrom none rest).map (.text (String.ofList read.reverse) :: ·) = some ts) ∨
    ∃ c rest, LiteralChar cs c rest ∧ scanFrom (some (c :: read)) rest = some ts := by
  cases cs with
  | nil => cases h
  | cons c rest =>
      by_cases hbackslash : c = '\\'
      · subst hbackslash
        exact .inr (exists_escaped h)
      · rw [scanFrom.eq_def (some read)] at h
        simp only [if_neg hbackslash] at h
        split at h
        · rename_i hquote
          exact .inl ⟨rest, by rw [hquote], h⟩
        · rename_i hquote
          split at h
          · cases h
          · exact .inr ⟨c, rest, .plain rest hquote hbackslash (by omega), h⟩

end Token

/-- Every character of a literal takes some of the text. -/
theorem LiteralChar.length_lt {cs rest : List Char} {c : Char} (h : LiteralChar cs c rest) :
    rest.length < cs.length := by
  cases h with
  | plain _ _ _ _ => exact Nat.lt_succ_self _
  | short _ _ => simp only [List.length_cons]; omega
  | unit hu =>
      obtain ⟨_, _, _, _, rfl, -⟩ := hu.exists_digits
      simp only [List.length_cons]
      omega
  | pair hu hv =>
      obtain ⟨_, _, _, _, rfl, -⟩ := hv.exists_digits
      obtain ⟨_, _, _, _, rfl, -⟩ := hu.exists_digits
      simp only [List.length_cons]
      omega

namespace Token

open Literal

/-- The end of a literal is read as the characters that it spells behind those before them. -/
theorem scanFrom_literalEnd {cs text rest : List Char} (h : LiteralEnd cs text rest)
    (read : List Char) : scanFrom (some read) cs
      = (scanFrom none rest).map (.text (String.ofList (read.reverse ++ text)) :: ·) := by
  induction h generalizing read with
  | close rest =>
      rw [scanFrom.eq_def (some _)]
      simp only [↓reduceIte, List.append_nil]
  | more hc _ ih =>
      rw [scanFrom_literalChar hc, ih, List.reverse_cons, List.append_assoc, List.singleton_append]

/-- Whatever is read inside a literal spells its end. -/
theorem exists_literalEnd (read cs : List Char) {ts : List Token}
    (h : scanFrom (some read) cs = some ts) :
    ∃ text rest, LiteralEnd cs text rest ∧
      (scanFrom none rest).map (.text (String.ofList (read.reverse ++ text)) :: ·) = some ts := by
  -- By induction on the characters ahead, of which every character of the literal takes some.
  rcases exists_literalChar h with ⟨rest, rfl, h⟩ | ⟨c, rest, hc, h⟩
  · exact ⟨[], rest, .close rest, by rwa [List.append_nil]⟩
  · have := hc.length_lt
    obtain ⟨text, rest', hend, h⟩ := exists_literalEnd (c :: read) rest h
    rw [List.reverse_cons, List.append_assoc, List.singleton_append] at h
    exact ⟨c :: text, rest', .more hc hend, h⟩
termination_by cs.length

/-! ## Tokens -/

/-- The marks with the characters that they are written with. -/
def marks : List (Char × Token) :=
  [('{', .opening), ('}', .closing), (':', .colon), (',', .comma)]

theorem isBlank_iff {c : Char} : isBlank c = true ↔ c ∈ [' ', '\t', '\n', '\r'] := by
  simp [isBlank, or_assoc]

/-- The marks that are read are those of the table. -/
theorem mark?_eq_some_iff {c : Char} {t : Token} : mark? c = some t ↔ (c, t) ∈ marks := by
  constructor
  · intro h
    unfold mark? at h
    repeat' split at h
    all_goals
      first
      | obtain rfl := Option.some.inj h
        rename_i hc
        subst hc
        decide
      | exact nomatch h
  · intro h
    have hall : ∀ x ∈ marks, mark? x.1 = some x.2 := by decide
    exact hall (c, t) h

/-- No mark is a literal. -/
theorem ne_text_of_mem_marks {c : Char} {t : Token} (h : (c, t) ∈ marks) (s : String) :
    t ≠ .text s := by
  rintro rfl
  simp [marks] at h

/-- Blanks ahead are passed over. -/
theorem scanFrom_blanks {cs rest : List Char} (h : Blanks cs rest) :
    scanFrom none cs = scanFrom none rest := by
  induction h with
  | done rest => rfl
  | more hc _ ih => rw [scanFrom, if_pos (isBlank_iff.mpr hc), ih]

/-- **A literal is read as the text** that it spells. -/
theorem scanFrom_quoted {cs rest : List Char} {s : String} (h : Quoted cs s rest) :
    scanFrom none cs = (scanFrom none rest).map (.text s :: ·) := by
  cases h with
  | mk hend => rw [scanFrom, if_neg (by decide), if_pos rfl, scanFrom_literalEnd hend]; rfl

/-- A token ahead, with the blanks in front of it. -/
inductive TokenText : List Char → Token → List Char → Prop where
  | mark {cs rest : List Char} {c : Char} {t : Token} :
      (c, t) ∈ marks → Blanks cs (c :: rest) → TokenText cs t rest
  | text {cs cs' rest : List Char} {s : String} :
      Blanks cs cs' → Quoted cs' s rest → TokenText cs (.text s) rest

theorem TokenText.blank {cs rest : List Char} {c : Char} {t : Token} (hc : isBlank c = true)
    (h : TokenText cs t rest) : TokenText (c :: cs) t rest := by
  cases h with
  | mark hmark hblanks => exact .mark hmark (.more (isBlank_iff.mp hc) hblanks)
  | text hblanks hquoted => exact .text (.more (isBlank_iff.mp hc) hblanks) hquoted

/-- What spells a token is read as that token. -/
theorem scanFrom_tokenText {cs rest : List Char} {t : Token} (h : TokenText cs t rest) :
    scanFrom none cs = (scanFrom none rest).map (t :: ·) := by
  cases h with
  | mark hmark hblanks =>
      have hplain : ∀ x ∈ marks, isBlank x.1 = false ∧ x.1 ≠ '"' := by decide
      obtain ⟨hblank, hquote⟩ := hplain _ hmark
      rw [scanFrom_blanks hblanks, scanFrom_mark hblank hquote (mark?_eq_some_iff.mpr hmark)]
  | text hblanks hquoted => rw [scanFrom_blanks hblanks, scanFrom_quoted hquoted]

/-- **What is read first** is a token ahead, and the others are read behind it. -/
theorem exists_tokenText {cs : List Char} {t : Token} {ts : List Token}
    (h : scanFrom none cs = some (t :: ts)) :
    ∃ rest, TokenText cs t rest ∧ scanFrom none rest = some ts := by
  induction cs with
  | nil => cases h
  | cons c cs ih =>
      rw [scanFrom] at h
      split at h
      · rename_i hblank
        obtain ⟨rest, ht, hrest⟩ := ih h
        exact ⟨rest, ht.blank hblank, hrest⟩
      · split at h
        · rename_i hquote
          subst hquote
          obtain ⟨text, rest, hend, h⟩ := exists_literalEnd [] cs h
          obtain ⟨others, hothers, heq⟩ := Option.map_eq_some_iff.mp h
          obtain ⟨rfl, rfl⟩ := List.cons.inj heq
          exact ⟨rest, .text (.done _) (.mk hend), hothers⟩
        · split at h
          · rename_i hmark
            obtain ⟨others, hothers, heq⟩ := Option.map_eq_some_iff.mp h
            obtain ⟨rfl, rfl⟩ := List.cons.inj heq
            exact ⟨cs, .mark (mark?_eq_some_iff.mp hmark) (.done _), hothers⟩
          · cases h

/-- **A mark is the next token** when it stands ahead behind blanks. -/
theorem scanFrom_mark_iff {c : Char} {t : Token} (ht : (c, t) ∈ marks) {cs : List Char}
    {ts : List Token} : scanFrom none cs = some (t :: ts) ↔
      ∃ rest, Blanks cs (c :: rest) ∧ scanFrom none rest = some ts := by
  constructor
  · intro h
    obtain ⟨rest, htoken, hrest⟩ := exists_tokenText h
    cases htoken with
    | mark hmark hblanks =>
        have hinj : ∀ x ∈ marks, ∀ y ∈ marks, x.2 = y.2 → x.1 = y.1 := by decide
        obtain rfl := hinj _ hmark _ ht rfl
        exact ⟨rest, hblanks, hrest⟩
    | text _ _ => exact absurd rfl (ne_text_of_mem_marks ht _)
  · rintro ⟨rest, hblanks, hrest⟩
    rw [scanFrom_tokenText (.mark ht hblanks), hrest]
    rfl

/-- **A literal is the next token** when it stands ahead behind blanks. -/
theorem scanFrom_text_iff {s : String} {cs : List Char} {ts : List Token} :
    scanFrom none cs = some (.text s :: ts) ↔
      ∃ cs' rest, Blanks cs cs' ∧ Quoted cs' s rest ∧ scanFrom none rest = some ts := by
  constructor
  · intro h
    obtain ⟨rest, htoken, hrest⟩ := exists_tokenText h
    cases htoken with
    | mark hmark _ => exact absurd rfl (ne_text_of_mem_marks hmark _)
    | text hblanks hquoted => exact ⟨_, rest, hblanks, hquoted, hrest⟩
  · rintro ⟨cs', rest, hblanks, hquoted, hrest⟩
    rw [scanFrom_tokenText (.text hblanks hquoted), hrest]
    rfl

/-- **No token is left** when there are only blanks ahead. -/
theorem scanFrom_nil_iff {cs : List Char} : scanFrom none cs = some [] ↔ Blanks cs [] := by
  constructor
  · intro h
    induction cs with
    | nil => exact .done []
    | cons c cs ih =>
        rw [scanFrom] at h
        split at h
        · rename_i hblank
          exact .more (isBlank_iff.mp hblank) (ih h)
        · split at h
          · obtain ⟨text, rest, -, h⟩ := exists_literalEnd [] cs h
            obtain ⟨others, -, heq⟩ := Option.map_eq_some_iff.mp h
            cases heq
          · split at h
            · obtain ⟨others, -, heq⟩ := Option.map_eq_some_iff.mp h
              cases heq
            · cases h
  · intro h
    rw [scanFrom_blanks h]
    rfl

end Token

end Depot.Json
