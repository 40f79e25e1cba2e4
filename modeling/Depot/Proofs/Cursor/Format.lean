import Depot.Proofs.Cursor
import Depot.Proofs.Json.Grammar

/-!
# The format of cursors — what decoding accepts

A cursor stands for a key (**`Stands`**) when it is canonical base64 of the bytes of a text that
spells an object, each member of which is an object with one text under the letter of a kind. Of
several members of one name the last one counts, and only this one needs a content that fits its
kind.

The main result, **`accepts_exactly`**, says that decoding gives a key for exactly the cursors that
stand for it, and says of every other text that it is no cursor.
-/

namespace Depot.Cursor

/-- A kind and a content with the value that they stand for. -/
inductive Holds : ScalarKind × String → AttributeValue → Prop where
  | text (s : String) : Holds (.text, s) (.text s)
  | number (digits : String) : Holds (.number, digits) (.number digits)
  | binary {content : String} {bytes : List UInt8} :
      Base64.Spells .urlSafe content.toList bytes → Holds (.binary, content) (.binary bytes)

/-- **A cursor stands for a key**: its layers are spelled one in the other, and under each name the key
    has the value of the last member of that name. -/
inductive Stands (cursor : String) (key : Attributes) : Prop where
  | mk {text : String} {members : List (String × ScalarKind × String)} :
      Base64.Spells .urlSafe cursor.toList (bytesOf text) →
      Json.ElementText text.toList (document members) [] →
      (∀ name, Option.Rel Holds (Mapping.lookup name members.reverse) (key.find? name)) →
      Stands cursor key

/-! ## Bytes -/

/-- A text is read off its own bytes and off no others. -/
theorem textOf?_eq_some_iff {bytes : List UInt8} {text : String} :
    textOf? bytes = some text ↔ bytes = bytesOf text := by
  constructor
  · intro h
    rw [textOf?, String.fromUTF8?] at h
    split at h
    · obtain rfl := Option.some.inj h
      rfl
    · cases h
  · rintro rfl
    exact textOf?_bytesOf text

/-! ## Members -/

/-- A letter is read as a scalar kind only if it is that of the kind. -/
theorem letter_of_ofLetter? {letter : String} {kind : ScalarKind}
    (h : ScalarKind.ofLetter? letter = some kind) : letter = kind.letter := by
  unfold ScalarKind.ofLetter? at h
  repeat' split at h
  all_goals
    first
    | obtain rfl := Option.some.inj h
      assumption
    | exact nomatch h

theorem exists_of_readMembers {ts : List Json.Token} {ms : List (String × ScalarKind × String)}
    (h : readMembers ts = some ms) :
    ∃ x rest, ms = x :: rest ∧ ts = memberTokens x ++ moreTokens rest := by
  -- Each step of the reader takes the seven tokens of a member and looks at the one behind them.
  fun_induction readMembers ts generalizing ms with
  | case1 => exact nomatch h
  | case2 name letter content kind hkind =>
      obtain rfl := Option.some.inj h
      refine ⟨(name, kind, content), [], rfl, ?_⟩
      rw [letter_of_ofLetter? hkind]
      rfl
  | case3 name letter content kind hkind rest ih =>
      obtain ⟨others, hothers, rfl⟩ := Option.map_eq_some_iff.mp h
      obtain ⟨x, more, rfl, rfl⟩ := ih hothers
      refine ⟨(name, kind, content), x :: more, rfl, ?_⟩
      rw [letter_of_ofLetter? hkind]
      rfl
  | case4 => exact nomatch h
  | case5 => exact nomatch h

/-- **Tokens that are read** are those of the members. -/
theorem readObject_eq_some_iff {ts : List Json.Token} {ms : List (String × ScalarKind × String)} :
    readObject ts = some ms ↔ ts = documentTokens ms := by
  constructor
  · intro h
    unfold readObject at h
    split at h
    · obtain rfl := Option.some.inj h
      rfl
    · obtain ⟨x, rest, rfl, rfl⟩ := exists_of_readMembers h
      rfl
    · exact nomatch h
  · rintro rfl
    exact readObject_tokens ms

/-! ## Documents -/

section

open Json Json.Token

theorem opening_mem : ('{', Token.opening) ∈ marks := by decide

theorem closing_mem : ('}', Token.closing) ∈ marks := by decide

theorem colon_mem : (':', Token.colon) ∈ marks := by decide

theorem comma_mem : (',', Token.comma) ∈ marks := by decide

/-- The tokens of a nested object are read off the texts that spell it, with blanks anywhere between
    them. -/
theorem scanFrom_object_iff {letter content : String} {cs : List Char} {ts : List Token} :
    scanFrom none cs
        = some (.opening :: .text letter :: .colon :: .text content :: .closing :: ts) ↔
      ∃ cs' rest, Blanks cs cs' ∧ ValueText cs' (.object [(letter, .text content)]) rest ∧
        scanFrom none rest = some ts := by
  simp only [scanFrom_mark_iff opening_mem, scanFrom_mark_iff closing_mem,
    scanFrom_mark_iff colon_mem, scanFrom_text_iff]
  constructor
  · rintro ⟨cs₁, h₁, cs₂, cs₃, h₂, hletter, cs₄, h₃, cs₅, cs₆, h₄, hcontent, rest, h₅, hrest⟩
    have helement : ElementText cs₄ (.text content) ('}' :: rest) := .mk h₄ (.text hcontent) h₅
    exact ⟨_, rest, h₁, .object (.last (.mk h₂ hletter h₃ helement)), hrest⟩
  · rintro ⟨cs₁, rest, h₁, hobject, hrest⟩
    cases hobject with
    | object hmembers =>
        cases hmembers with
        | last hmember =>
            cases hmember with
            | mk h₂ hletter h₃ helement =>
                cases helement with
                | mk h₄ hvalue h₅ =>
                    cases hvalue with
                    | text hcontent =>
                        exact ⟨_, h₁, _, _, h₂, hletter, _, h₃, _, _, h₄, hcontent, _, h₅, hrest⟩
        | more _ hnil => exact nomatch hnil

/-- A member of a document. -/
def member (x : String × ScalarKind × String) : String × Json :=
  (x.1, .object [(x.2.1.letter, .text x.2.2)])

theorem document_eq (ms : List (String × ScalarKind × String)) :
    document ms = .object (ms.map member) := rfl

/-- **The tokens of a member** are read where the member stands ahead of a mark. -/
theorem scanFrom_member_iff (x : String × ScalarKind × String) {c : Char} {t : Token}
    (ht : (c, t) ∈ marks) {cs : List Char} {ts : List Token} :
    scanFrom none cs = some (memberTokens x ++ t :: ts) ↔
      ∃ rest, MemberText cs (member x) (c :: rest) ∧ scanFrom none rest = some ts := by
  show scanFrom none cs = some (.text x.1 :: .colon :: .opening :: .text x.2.1.letter :: .colon ::
    .text x.2.2 :: .closing :: t :: ts) ↔ _
  simp only [scanFrom_text_iff (s := x.1), scanFrom_mark_iff colon_mem, scanFrom_object_iff,
    scanFrom_mark_iff ht]
  constructor
  · rintro ⟨cs₁, cs₂, h₁, hname, cs₃, h₂, cs₄, cs₅, h₃, hvalue, rest, h₄, hrest⟩
    exact ⟨rest, .mk h₁ hname h₂ (.mk h₃ hvalue h₄), hrest⟩
  · rintro ⟨rest, hmember, hrest⟩
    cases hmember with
    | mk h₁ hname h₂ helement =>
        cases helement with
        | mk h₃ hvalue h₄ =>
            exact ⟨_, _, h₁, hname, _, h₂, _, _, h₃, hvalue, rest, h₄, hrest⟩

/-- The tokens of the members are read off the texts that spell them, with blanks behind the object.
    -/
theorem scanFrom_members_iff (x : String × ScalarKind × String)
    (ms : List (String × ScalarKind × String)) {cs : List Char} :
    scanFrom none cs = some (memberTokens x ++ moreTokens ms) ↔
      ∃ rest, MembersText cs (member x :: ms.map member) rest ∧ Blanks rest [] := by
  induction ms generalizing x cs with
  | nil =>
      rw [moreTokens, scanFrom_member_iff x closing_mem, List.map_nil]
      simp only [scanFrom_nil_iff]
      constructor
      · rintro ⟨rest, hmember, hrest⟩
        exact ⟨rest, .last hmember, hrest⟩
      · rintro ⟨rest, hmembers, hrest⟩
        cases hmembers with
        | last hmember => exact ⟨rest, hmember, hrest⟩
        | more _ hnil => cases hnil
  | cons y ms ih =>
      rw [moreTokens, scanFrom_member_iff x comma_mem, List.map_cons]
      simp only [ih y]
      constructor
      · rintro ⟨cs', hmember, rest, hmembers, hrest⟩
        exact ⟨rest, .more hmember hmembers, hrest⟩
      · rintro ⟨rest, hmembers, hrest⟩
        cases hmembers with
        | more hmember hmore => exact ⟨_, hmember, rest, hmore, hrest⟩

/-- **The tokens of a document** are read from exactly the texts that spell it. -/
theorem scan_eq_some_iff {cs : List Char} {ms : List (String × ScalarKind × String)} :
    scan cs = some (documentTokens ms) ↔ ElementText cs (document ms) [] := by
  rw [scan, document_eq]
  cases ms with
  | nil =>
      rw [documentTokens, List.map_nil]
      simp only [scanFrom_mark_iff opening_mem, scanFrom_mark_iff closing_mem, scanFrom_nil_iff]
      constructor
      · rintro ⟨cs₁, h₁, rest, h₂, hrest⟩
        exact .mk h₁ (.empty h₂) hrest
      · intro h
        cases h with
        | mk h₁ hvalue hrest =>
            cases hvalue with
            | empty h₂ => exact ⟨_, h₁, _, h₂, hrest⟩
            | object hnil => cases hnil
  | cons x ms =>
      rw [documentTokens, List.map_cons, scanFrom_mark_iff opening_mem]
      simp only [scanFrom_members_iff]
      constructor
      · rintro ⟨cs₁, h₁, rest, hmembers, hrest⟩
        exact .mk h₁ (.object hmembers) hrest
      · intro h
        cases h with
        | mk h₁ hvalue hrest =>
            cases hvalue with
            | object hmembers => exact ⟨_, h₁, _, hmembers, hrest⟩

end

/-- **A text is read as members** exactly when it spells the document of these members. -/
theorem read?_eq_some_iff {text : String} {ms : List (String × ScalarKind × String)} :
    read? text = some ms ↔ Json.ElementText text.toList (document ms) [] := by
  rw [read?, Option.bind_eq_some_iff, ← scan_eq_some_iff]
  simp only [readObject_eq_some_iff, exists_eq_right]

/-! ## Values -/

/-- The content of a member is read as an attribute exactly when it holds that attribute. -/
theorem value?_eq_some_iff {x : ScalarKind × String} {a : AttributeValue} :
    value? x = some a ↔ Holds x a := by
  obtain ⟨kind, content⟩ := x
  cases kind with
  | text =>
      constructor
      · intro h
        obtain rfl := Option.some.inj h
        exact .text content
      · intro h
        cases h
        rfl
  | number =>
      constructor
      · intro h
        obtain rfl := Option.some.inj h
        exact .number content
      · intro h
        cases h
        rfl
  | binary =>
      rw [value?, Option.map_eq_some_iff]
      constructor
      · rintro ⟨bytes, hbytes, rfl⟩
        exact .binary (Base64.decode_eq_some_iff.mp hbytes)
      · intro h
        cases h with
        | binary hbytes => exact ⟨_, Base64.decode_eq_some_iff.mpr hbytes, rfl⟩

theorem isScalar_of_holds {x : ScalarKind × String} {a : AttributeValue} (h : Holds x a) :
    IsScalar a := by
  cases h <;> trivial

theorem Holds.unique {x : ScalarKind × String} {a b : AttributeValue} (ha : Holds x a)
    (hb : Holds x b) : a = b :=
  Option.some.inj ((value?_eq_some_iff.mpr ha).symm.trans (value?_eq_some_iff.mpr hb))

/-- Members are read as attributes when the first one is and the others are. -/
theorem values?_cons_eq_some_iff {name : String} {x : ScalarKind × String}
    {l : List (String × ScalarKind × String)} {entries : List (String × AttributeValue)} :
    values? ((name, x) :: l) = some entries ↔
      ∃ a others, Holds x a ∧ values? l = some others ∧ entries = (name, a) :: others := by
  rw [values?]
  cases hx : value? x with
  | none =>
      constructor
      · intro h
        cases h
      · rintro ⟨a, others, ha, -, -⟩
        cases hx.symm.trans (value?_eq_some_iff.mpr ha)
  | some a =>
      have ha := value?_eq_some_iff.mp hx
      rw [Option.map_eq_some_iff]
      constructor
      · rintro ⟨others, hothers, rfl⟩
        exact ⟨a, others, ha, hothers, rfl⟩
      · rintro ⟨b, others, hb, hothers, rfl⟩
        exact ⟨others, hothers, by rw [ha.unique hb]⟩

/-- **Values are kept under their names**, each of them as what it stands for. -/
theorem lookup_values? {l : List (String × ScalarKind × String)}
    {entries : List (String × AttributeValue)} (h : values? l = some entries) :
    entries.map (·.1) = l.map (·.1) ∧
      ∀ name, Option.Rel Holds (Mapping.lookup name l) (Mapping.lookup name entries) := by
  induction l generalizing entries with
  | nil =>
      obtain rfl := Option.some.inj h
      exact ⟨rfl, fun _ => .none⟩
  | cons hd l ih =>
      obtain ⟨other, x⟩ := hd
      obtain ⟨a, others, ha, hothers, rfl⟩ := values?_cons_eq_some_iff.mp h
      obtain ⟨hnames, hlookup⟩ := ih hothers
      refine ⟨by rw [List.map_cons, List.map_cons, hnames], fun name => ?_⟩
      rw [Mapping.lookup, Mapping.lookup]
      split
      · exact .some ha
      · exact hlookup name

theorem exists_values? {l : List (String × ScalarKind × String)}
    (h : ∀ x ∈ l, ∃ a, Holds x.2 a) : ∃ entries, values? l = some entries := by
  induction l with
  | nil => exact ⟨[], rfl⟩
  | cons hd l ih =>
      obtain ⟨a, ha⟩ := h hd List.mem_cons_self
      obtain ⟨others, hothers⟩ := ih fun x hx => h x (List.mem_cons_of_mem _ hx)
      exact ⟨_, values?_cons_eq_some_iff.mpr ⟨a, others, ha, hothers, rfl⟩⟩

/-- What the read attributes have under a name is what the members hold under it. -/
theorem find?_values? {m : Mapping (ScalarKind × String)} {entries : List (String × AttributeValue)}
    (h : values? m.entries = some entries) (name : String) :
    Option.Rel Holds (m.find? name) ((Mapping.ofList entries).find? name) := by
  obtain ⟨hnames, hlookup⟩ := lookup_values? h
  have hnodup : (entries.map (·.1)).Nodup := hnames ▸ Mapping.nodup_names m
  rw [Mapping.find?_ofList, Mapping.lookup_reverse hnodup]
  exact hlookup name

theorem rel_unique {x : Option (ScalarKind × String)} {a b : Option AttributeValue}
    (ha : Option.Rel Holds x a) (hb : Option.Rel Holds x b) : a = b := by
  cases ha with
  | none =>
      cases hb
      rfl
  | some ha =>
      cases hb with
      | some hb => rw [ha.unique hb]

theorem exists_of_rel_some {x : ScalarKind × String} {a : Option AttributeValue}
    (h : Option.Rel Holds (some x) a) : ∃ b, Holds x b := by
  cases h with
  | some hb => exact ⟨_, hb⟩

theorem isScalar_of_rel {x : Option (ScalarKind × String)} {a : AttributeValue}
    (h : Option.Rel Holds x (some a)) : IsScalar a := by
  cases h with
  | some ha => exact isScalar_of_holds ha

theorem eq_of_rel {key key' : Attributes} {find : String → Option (ScalarKind × String)}
    (h : ∀ name, Option.Rel Holds (find name) (key.find? name))
    (h' : ∀ name, Option.Rel Holds (find name) (key'.find? name)) : key = key' := by
  apply Mapping.ext_find?
  intro name
  exact rel_unique (h name) (h' name)

/-! ## Cursors -/

/-- A cursor decodes when each of its layers does: the bytes, the text, the members and their
    values. -/
theorem decode_eq_ok_iff {cursor : String} {key : Attributes} :
    decode cursor = .ok key ↔ ∃ bytes text members entries,
      Base64.decode .urlSafe cursor.toList = some bytes ∧ textOf? bytes = some text ∧
      read? text = some members ∧ values? (Mapping.ofList members).entries = some entries ∧
      Mapping.ofList entries = key := by
  unfold decode
  constructor
  · intro h
    split at h
    · exact nomatch h
    · rename_i bytes hbytes
      split at h
      · exact nomatch h
      · rename_i members hmembers
        obtain ⟨text, htext, hread⟩ := Option.bind_eq_some_iff.mp hmembers
        split at h
        · exact nomatch h
        · rename_i entries hentries
          exact ⟨bytes, text, members, entries, hbytes, htext, hread, hentries, Except.ok.inj h⟩
  · rintro ⟨bytes, text, members, entries, hbytes, htext, hread, hentries, rfl⟩
    simp only [hbytes, htext, Option.bind_some, hread, hentries]

/-- **Decoding gives a key** for exactly the cursors that stand for it. -/
theorem decode_eq_ok_iff_stands {cursor : String} {key : Attributes} :
    decode cursor = .ok key ↔ Stands cursor key := by
  rw [decode_eq_ok_iff]
  constructor
  · rintro ⟨bytes, text, members, entries, hbytes, htext, hread, hentries, rfl⟩
    obtain rfl := textOf?_eq_some_iff.mp htext
    refine .mk (Base64.decode_eq_some_iff.mp hbytes) (read?_eq_some_iff.mp hread) fun name => ?_
    rw [← Mapping.find?_ofList]
    exact find?_values? hentries name
  · rintro ⟨hbytes, hread, hlast⟩
    rename_i text members
    simp only [← Mapping.find?_ofList] at hlast
    -- Only the last members of their names are left, and each of them stands for a value.
    have hvalues : ∀ x ∈ (Mapping.ofList members).entries, ∃ a, Holds x.2 a := by
      intro x hx
      have hname := hlast x.1
      rw [Mapping.find?_eq_some_iff.mpr hx] at hname
      exact exists_of_rel_some hname
    obtain ⟨entries, hentries⟩ := exists_values? hvalues
    exact ⟨_, text, members, entries, Base64.decode_eq_some_iff.mpr hbytes, textOf?_bytesOf text,
      read?_eq_some_iff.mpr hread, hentries, eq_of_rel (find?_values? hentries) hlast⟩

theorem isScalar_of_decode {cursor : String} {key : Attributes} (h : decode cursor = .ok key) :
    ∀ x ∈ key.entries, IsScalar x.2 := by
  intro x hx
  cases decode_eq_ok_iff_stands.mp h with
  | mk _ _ hlast =>
      have hname := hlast x.1
      rw [Mapping.find?_eq_some_iff.mpr hx] at hname
      exact isScalar_of_rel hname

/-- **Decoding accepts exactly the format.** It gives a key for exactly the cursors that stand for the
    key, and every other text is refused as a cursor. A key that is given has a cursor of its own,
    which is read as the same key. -/
theorem accepts_exactly (cursor : String) :
    (∀ key, decode cursor = .ok key ↔ Stands cursor key) ∧
    ((∀ key, ¬ Stands cursor key) → ∃ layer, decode cursor = .error (.invalidCursor layer)) ∧
    ∀ key, decode cursor = .ok key → (∀ x ∈ key.entries, IsScalar x.2) ∧
      ∃ canonical, encode key = .ok canonical ∧ decode canonical = .ok key := by
  refine ⟨fun key => decode_eq_ok_iff_stands, ?_, ?_⟩
  · intro h
    cases hdecode : decode cursor with
    | ok key => exact absurd (decode_eq_ok_iff_stands.mp hdecode) (h key)
    | error e =>
        obtain ⟨layer, rfl⟩ := decode_eq_error hdecode
        exact ⟨layer, rfl⟩
  · intro key h
    have hscalar := isScalar_of_decode h
    obtain ⟨canonical, hcanonical, -, hdecode⟩ := exists_encode_eq_ok hscalar
    exact ⟨hscalar, canonical, hcanonical, hdecode⟩

/-- A cursor with blanks and escapes, in which the first of two members of one name is no base64. -/
def repeatedName : String :=
  "IHsiaWQiOnsiQiI6Ij8ifSwgImlkIiA6IHsiXHUwMDUzIjoiXHVkODNkXHVkZTAwIn19Cg"

/-- The text in that cursor. -/
def repeatedNameText : String :=
  " \x7b\"id\":\x7b\"B\":\"?\"\x7d, \"id\" : \x7b\"\\u0053\":\"\\ud83d\\ude00\"\x7d\x7d\n"

/-- The key of that cursor. -/
def repeatedNameKey : Attributes := .ofList [("id", .text "😀")]

theorem accepts_exactly_repeatedName :
    decode repeatedName = .ok repeatedNameKey ∧
      (∃ canonical, encode repeatedNameKey = .ok canonical ∧
        decode canonical = .ok repeatedNameKey) ∧
      ∃ layer, decode (repeatedName ++ "=") = .error (.invalidCursor layer) := by
  have hbytes : Base64.decode .urlSafe repeatedName.toList = some (bytesOf repeatedNameText) := by
    decide +kernel
  have hread : read? repeatedNameText = some [("id", .binary, "?"), ("id", .text, "😀")] := by
    decide +kernel
  have hstands : Stands repeatedName repeatedNameKey := by
    refine .mk (Base64.decode_eq_some_iff.mp hbytes) (read?_eq_some_iff.mp hread) fun name => ?_
    by_cases hname : "id" = name
    · subst hname
      exact .some (.text "😀")
    · simp [repeatedNameKey, Mapping.find?_ofList, Mapping.lookup, hname]
  have hpadded : Base64.decode .urlSafe (repeatedName ++ "=").toList = none := by decide +kernel
  have hnone (key : Attributes) : ¬ Stands (repeatedName ++ "=") key := by
    rintro ⟨hspells, -, -⟩
    cases hpadded.symm.trans (Base64.decode_eq_some_iff.mpr hspells)
  obtain ⟨hkey, -, hcanonical⟩ := accepts_exactly repeatedName
  obtain ⟨-, hrefused, -⟩ := accepts_exactly (repeatedName ++ "=")
  have hdecode := (hkey repeatedNameKey).mpr hstands
  exact ⟨hdecode, (hcanonical _ hdecode).2, hrefused hnone⟩

end Depot.Cursor
