import Mathlib.Data.List.Forall2
import Depot.Proofs.Clauses
import Depot.Proofs.Update.Token

/-!
# Updates as expressions — a compiled update is read as it was built

The text that `Clauses.compile` renders is cut at its keywords and commas here, and the placeholders
of the entries are looked up in the table of the update (**`read?`**). A clause is rendered as its
keyword and its entries (**`tokens_text`**), every entry is read as its own name with its own value
(**`read_entries`**), and nothing is trimmed off the text, since neither a keyword nor an entry has a
blank at its end (`Tight`).

The main result, **`clauses_read_back`**, says that an update whose values can be encoded compiles,
and that what is read are its clauses that have an entry, each once and in order.
-/

namespace Depot

namespace Clause

/-- The entries of a clause of an update. -/
def entries (c : Clauses) : Clause → List (String × Option Value)
  | .valued k => (c.assignments k).entries.map fun e => (e.1, some e.2)
  | .remove => c.remove.map fun name => (name, none)

/-- The texts of the entries of a clause. -/
def entryTexts (c : Clauses) : Clause → List String
  | .valued k => (c.assignments k).names.mapIdx k.entryText
  | .remove => c.remove

/-- The text of a clause of an update. -/
def text (c : Clauses) (k : Clause) : String := Clauses.clauseText k.keyword (k.entryTexts c)

end Clause

/-- The clauses of an update that have an entry, in order. -/
def Clauses.present (c : Clauses) : List Clause :=
  Clause.order.filter fun k => !(k.entries c).isEmpty

namespace UpdateText

/-- A name that an update can hold as it is: it has a character, each of them belongs to a word, and
    it is no keyword, in whatever letters. -/
structure IsName (name : String) : Prop where
  nonempty : name ≠ ""
  plain : name.toList.all inWord = true
  noKeyword : keyword? (.word name.toList) = none

instance (name : String) : Decidable (IsName name) :=
  decidable_of_iff (name ≠ "" ∧ name.toList.all inWord = true ∧ keyword? (.word name.toList) = none)
    ⟨fun ⟨hne, hp, hk⟩ => ⟨hne, hp, hk⟩, fun ⟨hne, hp, hk⟩ => ⟨hne, hp, hk⟩⟩

/-! ## Reading -/

/-- A name with the value of a placeholder. -/
def resolve (values : Attributes) (name p : List Char) : Option (String × Option AttributeValue) :=
  (values.find? (String.ofList p)).map fun a => (String.ofList name, some a)

/-- An entry, from the tokens that a clause has for it. -/
def readEntry (values : Attributes) :
    Clause → List Token → Option (String × Option AttributeValue)
  | .valued .set, [.word name, .equals, .word p] => resolve values name p
  | .valued .add, [.word name, .word p] => resolve values name p
  | .valued .delete, [.word name, .word p] => resolve values name p
  | .remove, [.word name] => some (String.ofList name, none)
  | _, _ => none

/-- The entries of a clause, from the tokens behind its keyword. -/
def readBody (values : Attributes) (k : Clause) (body : List Token) :
    Option (List (String × Option AttributeValue)) :=
  (body.splitOn .comma).mapM (readEntry values k)

/-- The clauses of a text with their entries. -/
def read? (values : Attributes) (text : String) :
    Option (List (Clause × List (String × Option AttributeValue))) :=
  match sections (tokens text.toList) with
  | ([], found) => found.mapM fun x => (readBody values x.1 x.2).map (x.1, ·)
  | _ => none

/-- An entry is stored under its name with its encoded value, if it has one. -/
inductive Stored : String × Option Value → String × Option AttributeValue → Prop where
  | name (name : String) : Stored (name, none) (name, none)
  | value (name : String) {v : Value} {a : AttributeValue} : v.encode = .ok a →
      Stored (name, some v) (name, some a)

/-- What is read element by element, when every element can be read. -/
theorem exists_mapM {α β γ : Type} {read : β → Option γ} {R : α → γ → Prop} {xs : List α}
    {ys : List β} (h : List.Forall₂ (fun x y => ∃ z, read y = some z ∧ R x z) xs ys) :
    ∃ zs, ys.mapM read = some zs ∧ List.Forall₂ R xs zs := by
  induction h with
  | nil => exact ⟨[], rfl, .nil⟩
  | cons h _ ih =>
      obtain ⟨z, hz, hR⟩ := h
      obtain ⟨zs, hzs, hRs⟩ := ih
      refine ⟨z :: zs, ?_, .cons hR hRs⟩
      rw [List.mapM_cons, hz, hzs]
      rfl

/-! ## Tokens of entries -/

/-- The tokens of an entry with a value. -/
def valuedTokens (k : ValuedClause) (index : Nat) (name : String) : List Token :=
  match k with
  | .set => [.word name.toList, .equals, .word (k.placeholder index).toList]
  | .add => [.word name.toList, .word (k.placeholder index).toList]
  | .delete => [.word name.toList, .word (k.placeholder index).toList]

/-- The tokens of the entries of a clause. -/
def entryTokens (c : Clauses) : Clause → List (List Token)
  | .valued k => (c.assignments k).names.mapIdx (valuedTokens k)
  | .remove => c.remove.map fun name => [.word name.toList]

theorem inWord_of_isWordChar {c : Char} (h : isWordChar c = true) : inWord c = true := by
  have hblank : Text.isBlank c = false := by
    rw [Bool.eq_false_iff]
    intro hb
    rw [isWordChar_of_isBlank hb] at h
    exact nomatch h
  have hcomma : c ≠ ',' := by
    rintro rfl
    exact nomatch h
  have hequals : c ≠ '=' := by
    rintro rfl
    exact nomatch h
  simp [inWord, hblank, hcomma, hequals]

theorem tokens_of_inWord {s : String} (hne : s ≠ "") (h : s.toList.all inWord = true) :
    tokens s.toList = [.word s.toList] :=
  tokens_word (fun hnil => hne (String.toList_eq_nil_iff.mp hnil)) h

/-- A placeholder is one word. -/
theorem inWord_placeholder {p : String} (h : Placeholder p) :
    p ≠ "" ∧ p.toList.all inWord = true := by
  obtain ⟨word, -, hword, rfl⟩ := h
  rw [String.toList_ofList]
  refine ⟨by simp, List.all_eq_true.mpr fun c hc => ?_⟩
  rcases List.mem_cons.mp hc with rfl | hc
  · rfl
  · exact inWord_of_isWordChar (List.all_eq_true.mp hword c hc)

/-- A placeholder is no keyword, since it begins with a colon. -/
theorem keyword?_placeholder {p : String} (h : Placeholder p) :
    keyword? (.word p.toList) = none := by
  obtain ⟨word, -, -, rfl⟩ := h
  rw [String.toList_ofList, keyword?, List.find?_eq_none]
  intro k _ heq
  have hhead : some ':' = k.keyword.toList.head? := congrArg List.head? (beq_iff_eq.mp heq)
  cases k with
  | remove => exact absurd hhead (by decide)
  | valued k => cases k <;> exact absurd hhead (by decide)

theorem tokens_entryText {name : String} (hn : IsName name) (k : ValuedClause) (index : Nat) :
    tokens (k.entryText index name).toList = valuedTokens k index name := by
  have hname := tokens_of_inWord hn.nonempty hn.plain
  obtain ⟨hne, hword⟩ := inWord_placeholder (k.placeholder_placeholder index)
  have hp := tokens_of_inWord hne hword
  cases k with
  | set => rw [ValuedClause.entryText, tokens_separated separates_equals, hname, hp]; rfl
  | add => rw [ValuedClause.entryText, tokens_separated separates_space, hname, hp]; rfl
  | delete => rw [ValuedClause.entryText, tokens_separated separates_space, hname, hp]; rfl

/-! ## Tokens of clauses -/

theorem mem_order (k : ValuedClause) : k ∈ ValuedClause.order := by
  cases k <;> decide

theorem mem_names {c : Clauses} {k : ValuedClause} {name : String}
    (h : name ∈ (c.assignments k).names) : name ∈ c.names :=
  List.mem_append_right _ (List.mem_flatMap.mpr ⟨k, mem_order k, h⟩)

theorem entries_ne_nil {c : Clauses} {k : Clause} (h : k ∈ c.present) : k.entries c ≠ [] := by
  have hentries := (List.mem_filter.mp h).2
  simpa using hentries

theorem tokens_entryTexts {c : Clauses} (hn : ∀ name ∈ c.names, IsName name) (k : Clause) :
    (k.entryTexts c).map (fun text => tokens text.toList) = entryTokens c k := by
  cases k with
  | valued k =>
      refine List.ext_getElem? fun index => ?_
      rw [Clause.entryTexts, entryTokens, List.getElem?_map, List.getElem?_mapIdx,
        List.getElem?_mapIdx, Option.map_map]
      cases hname : (c.assignments k).names[index]? with
      | none => rfl
      | some name =>
          have hmem := mem_names (List.mem_of_getElem? hname)
          exact congrArg some (tokens_entryText (hn name hmem) k index)
  | remove =>
      refine List.map_congr_left fun name hname => ?_
      have h := hn name (List.mem_append_left _ hname)
      exact tokens_of_inWord h.nonempty h.plain

/-- Whether an entry of a clause is there to be rendered. -/
theorem entryTexts_eq_nil_iff {c : Clauses} {k : Clause} :
    k.entryTexts c = [] ↔ k.entries c = [] := by
  cases k with
  | valued k => simp [Clause.entryTexts, Clause.entries, Assignments.names]
  | remove => simp [Clause.entryTexts, Clause.entries]

/-- A clause has no text exactly when it has no entries. -/
theorem clause_text_eq_empty_iff {c : Clauses} {k : Clause} :
    k.text c = "" ↔ k.entries c = [] := by
  rw [← entryTexts_eq_nil_iff, Clause.text, Clauses.clauseText]
  cases k.entryTexts c with
  | nil => simp
  | cons entry rest => simp [String.append_eq_empty_iff]

/-- **The text of an update** is that of its clauses that have an entry. -/
theorem text_eq (c : Clauses) :
    c.text = String.intercalate " " (c.present.map fun k => k.text c) := by
  have hmerge : c.text
      = (Fragment.merge " " (Clause.order.map fun k => ⟨k.text c, .empty⟩)).text := rfl
  have hfilter : (fun k : Clause => decide (k.text c ≠ "")) = fun k => !(k.entries c).isEmpty := by
    funext k
    rw [Bool.eq_iff_iff]
    simp [clause_text_eq_empty_iff]
  rw [hmerge, Fragment.merge_text, List.map_map, List.filter_map]
  show String.intercalate " " ((Clause.order.filter fun k => decide (k.text c ≠ "")).map _) = _
  rw [hfilter]
  rfl

/-- **A clause is rendered** as its keyword and its entries with commas between them. -/
theorem tokens_text {c : Clauses} (hn : ∀ name ∈ c.names, IsName name) {k : Clause}
    (hk : k.entries c ≠ []) : tokens (k.text c).toList
      = .word k.keyword.toList :: List.intercalate [.comma] (entryTokens c k) := by
  have hne : ¬ (k.entryTexts c).isEmpty = true := by
    rw [List.isEmpty_iff, entryTexts_eq_nil_iff]
    exact hk
  have hkeyword : tokens k.keyword.toList = [.word k.keyword.toList] := by
    cases k with
    | remove => decide
    | valued k => cases k <;> decide
  rw [Clause.text, Clauses.clauseText, if_neg hne, tokens_separated separates_space, hkeyword,
    tokens_intercalate separates_comma, tokens_entryTexts hn]
  rfl

theorem length_entryTokens (c : Clauses) (k : Clause) :
    (entryTokens c k).length = (k.entries c).length := by
  cases k with
  | valued k => simp [entryTokens, Clause.entries, Assignments.names]
  | remove => simp [entryTokens, Clause.entries]

/-- No entry has a comma or a keyword among its tokens. -/
theorem plain_entryTokens {c : Clauses} (hn : ∀ name ∈ c.names, IsName name) (k : Clause) :
    ∀ ts ∈ entryTokens c k, ∀ t ∈ ts, t ≠ .comma ∧ keyword? t = none := by
  cases k with
  | valued k =>
      intro ts hts
      obtain ⟨index, hindex, rfl⟩ := List.mem_mapIdx.mp hts
      have hname := (hn _ (mem_names (List.getElem_mem hindex))).noKeyword
      have hp := keyword?_placeholder (k.placeholder_placeholder index)
      cases k <;> simp [valuedTokens, hname, hp, keyword?.eq_2]
  | remove =>
      intro ts hts
      obtain ⟨name, hname, rfl⟩ := List.mem_map.mp hts
      simp [(hn name (List.mem_append_left _ hname)).noKeyword]

/-- **The sections of an update** are its clauses that have an entry. -/
theorem sections_text {c : Clauses} (hn : ∀ name ∈ c.names, IsName name) :
    sections (tokens c.text.toList)
      = ([], c.present.map fun k => (k, List.intercalate [.comma] (entryTokens c k))) := by
  have htokens : tokens c.text.toList
      = (c.present.map fun k => (k, List.intercalate [.comma] (entryTokens c k))).flatMap
          fun x => .word x.1.keyword.toList :: x.2 := by
    rw [text_eq, tokens_spaced, List.flatMap_map, List.flatMap_map]
    exact List.flatMap_congr fun k hk => tokens_text hn (entries_ne_nil hk)
  rw [htokens]
  refine sections_flatMap fun x hx => ?_
  obtain ⟨k, -, rfl⟩ := List.mem_map.mp hx
  refine forall_mem_intercalate ?_ fun ts hts t ht => (plain_entryTokens hn k ts hts t ht).2
  intro t ht
  rw [List.mem_singleton.mp ht]
  rfl

/-! ## Reading back -/

/-- The tokens of an entry are read as its name and the value of its placeholder. -/
theorem readEntry_valuedTokens {values : Attributes} {k : ValuedClause} {index : Nat}
    {a : AttributeValue} (h : values.find? (k.placeholder index) = some a) (name : String) :
    readEntry values (.valued k) (valuedTokens k index name) = some (name, some a) := by
  have hresolve :
      resolve values name.toList (k.placeholder index).toList = some (name, some a) := by
    rw [resolve, String.ofList_toList, String.ofList_toList, h]
    rfl
  cases k with
  | set => exact hresolve
  | add => exact hresolve
  | delete => exact hresolve

/-- **The entries of a clause** are read as they are stored, when each placeholder stands for the
    value that it was made for. -/
theorem read_entries {c : Clauses} {values : Attributes} (k : Clause)
    (hfind : ∀ kind index name value, (c.assignments kind).entries[index]? = some (name, value) →
      ∃ own, Value.encode value = .ok own ∧ values.find? (kind.placeholder index) = some own) :
    List.Forall₂ (fun e ts => ∃ found, readEntry values k ts = some found ∧ Stored e found)
      (k.entries c) (entryTokens c k) := by
  cases k with
  | remove =>
      rw [Clause.entries, entryTokens, List.forall₂_map_left_iff, List.forall₂_map_right_iff,
        List.forall₂_same]
      intro name _
      refine ⟨(name, none), ?_, .name name⟩
      rw [readEntry, String.ofList_toList]
  | valued k =>
      rw [Clause.entries, entryTokens, List.forall₂_map_left_iff, List.forall₂_iff_get]
      refine ⟨by simp [Assignments.names], fun index hindex hindex' => ?_⟩
      have hentry := List.getElem?_eq_getElem hindex
      obtain ⟨own, hown, hat⟩ := hfind k index _ _ hentry
      refine ⟨(_, some own), ?_, .value _ hown⟩
      simp only [List.get_eq_getElem, List.getElem_mapIdx, Assignments.names, List.getElem_map]
      exact readEntry_valuedTokens hat _

/-- The tokens of a body are cut at its commas into those of its entries. -/
theorem readBody_intercalate {c : Clauses} (hn : ∀ name ∈ c.names, IsName name) {k : Clause}
    (hk : k.entries c ≠ []) (values : Attributes) :
    readBody values k (List.intercalate [.comma] (entryTokens c k))
      = (entryTokens c k).mapM (readEntry values k) := by
  rw [readBody, List.splitOn_intercalate]
  · intro ts hts hcomma
    exact (plain_entryTokens hn k ts hts .comma hcomma).1 rfl
  · intro hnil
    have hlength := length_entryTokens c k
    rw [hnil] at hlength
    exact hk (List.length_eq_zero_iff.mp hlength.symm)

/-! ## Texts with nothing to trim -/

/-- Whether a text neither begins nor ends with a blank. -/
structure Tight (s : String) : Prop where
  first : ∃ c, s.toList.head? = some c ∧ Text.isBlank c = false
  last : ∃ c, s.toList.getLast? = some c ∧ Text.isBlank c = false

/-- Nothing is trimmed off a tight text. -/
theorem Tight.trim {s : String} (h : Tight s) : Text.trim s = s := by
  obtain ⟨front, back, hs, hfront, hback⟩ := Clauses.exists_trim s
  obtain ⟨first, hfirst, hfirstPlain⟩ := h.first
  obtain ⟨last, hlast, hlastPlain⟩ := h.last
  have hhead : ∀ c ∈ (front ++ ((Text.trim s).toList ++ back)).head?, Text.isBlank c = false := by
    intro c hc
    rw [← hs, hfirst] at hc
    obtain rfl := Option.some.inj hc
    exact hfirstPlain
  have hfrontNil : front = [] := Clauses.blanks_eq_nil hfront hhead
  have hbackNil : back = [] := by
    cases hl : back.getLast? with
    | none => exact List.getLast?_eq_none_iff.mp hl
    | some c =>
        rw [hs, List.getLast?_append, List.getLast?_append, hl] at hlast
        obtain rfl := Option.some.inj hlast
        rw [hback c (List.mem_of_getLast? hl)] at hlastPlain
        exact nomatch hlastPlain
  rw [hfrontNil, hbackNil, List.nil_append, List.append_nil] at hs
  exact String.toList_inj.mp hs.symm

/-- A text between two tight ones is made tight by them. -/
theorem Tight.append {left right : String} (hl : Tight left) (hr : Tight right) (mid : String) :
    Tight (left ++ mid ++ right) where
  first := by
    obtain ⟨c, hc, hplain⟩ := hl.first
    refine ⟨c, ?_, hplain⟩
    rw [String.toList_append, String.toList_append, List.append_assoc, List.head?_append, hc]
    rfl
  last := by
    obtain ⟨c, hc, hplain⟩ := hr.last
    refine ⟨c, ?_, hplain⟩
    rw [String.toList_append, List.getLast?_append, hc]
    rfl

/-- Tight texts with anything between them are tight. -/
theorem tight_intercalate (sep : String) {texts : List String} (hne : texts ≠ [])
    (h : ∀ text ∈ texts, Tight text) : Tight (String.intercalate sep texts) := by
  induction texts with
  | nil => exact absurd rfl hne
  | cons text rest ih =>
      cases rest with
      | nil =>
          rw [String.intercalate_singleton]
          exact h text List.mem_cons_self
      | cons next rest =>
          rw [String.intercalate_cons_cons]
          exact (h text List.mem_cons_self).append
            (ih (List.cons_ne_nil _ _) fun t ht => h t (List.mem_cons_of_mem _ ht)) sep

theorem tight_of_inWord {s : String} (hne : s ≠ "") (h : s.toList.all inWord = true) : Tight s := by
  have hplain : ∀ c ∈ s.toList, Text.isBlank c = false := by
    intro c hc
    have hin := List.all_eq_true.mp h c hc
    simp only [inWord, Bool.and_eq_true, Bool.not_eq_true'] at hin
    exact hin.1.1
  have hnil : s.toList ≠ [] := fun hnil => hne (String.toList_eq_nil_iff.mp hnil)
  exact ⟨⟨_, List.head?_eq_some_head hnil, hplain _ (List.head_mem hnil)⟩,
    ⟨_, List.getLast?_eq_some_getLast hnil, hplain _ (List.getLast_mem hnil)⟩⟩

theorem tight_entryText {name : String} (hn : IsName name) (k : ValuedClause) (index : Nat) :
    Tight (k.entryText index name) := by
  have hname : Tight name := tight_of_inWord hn.nonempty hn.plain
  obtain ⟨hne, hword⟩ := inWord_placeholder (k.placeholder_placeholder index)
  have hp : Tight (k.placeholder index) := tight_of_inWord hne hword
  cases k with
  | set => exact hname.append hp " = "
  | add => exact hname.append hp " "
  | delete => exact hname.append hp " "

theorem tight_text {c : Clauses} (hn : ∀ name ∈ c.names, IsName name) {k : Clause}
    (hk : k.entries c ≠ []) : Tight (k.text c) := by
  have hne : k.entryTexts c ≠ [] := fun hnil => hk (entryTexts_eq_nil_iff.mp hnil)
  have hkeyword : Tight k.keyword := by
    cases k with
    | remove => exact tight_of_inWord (by decide) (by decide)
    | valued k => cases k <;> exact tight_of_inWord (by decide) (by decide)
  have hentries : ∀ text ∈ k.entryTexts c, Tight text := by
    cases k with
    | valued k =>
        intro text htext
        obtain ⟨index, hindex, rfl⟩ := List.mem_mapIdx.mp htext
        exact tight_entryText (hn _ (mem_names (List.getElem_mem hindex))) k index
    | remove =>
        intro name hname
        have h := hn name (List.mem_append_left _ hname)
        exact tight_of_inWord h.nonempty h.plain
  rw [Clause.text, Clauses.clauseText, if_neg (by simpa using hne)]
  exact hkeyword.append (tight_intercalate ", " hne hentries) " "

theorem present_ne_nil {c : Clauses} (h : c.isEmpty = false) : c.present ≠ [] := by
  intro hnil
  have hentries : ∀ k ∈ Clause.order, k.entries c = [] := by
    simpa [Clauses.present] using hnil
  have hset := hentries (.valued .set) (by decide)
  have hremove := hentries .remove (by decide)
  have hadd := hentries (.valued .add) (by decide)
  have hdelete := hentries (.valued .delete) (by decide)
  simp only [Clause.entries, Clauses.assignments, List.map_eq_nil_iff] at hset hremove hadd hdelete
  simp [Clauses.isEmpty, Assignments.isEmpty, hset, hremove, hadd, hdelete] at h

/-- **Nothing is trimmed off the text of an update.** -/
theorem trim_text {c : Clauses} (hn : ∀ name ∈ c.names, IsName name) (hne : c.isEmpty = false) :
    Text.trim c.text = c.text := by
  refine Tight.trim ?_
  rw [text_eq]
  refine tight_intercalate " " ?_ ?_
  · simpa using present_ne_nil hne
  · intro text htext
    obtain ⟨k, hk, rfl⟩ := List.mem_map.mp htext
    exact tight_text hn (entries_ne_nil hk)

/-! ## Compiled updates -/

theorem exists_compileValued {a : Assignments} (k : ValuedClause)
    (h : ∀ v ∈ a.values, ∃ encoded, Value.encode v = .ok encoded) :
    ∃ f, Clauses.compileValued k a = .ok f := by
  obtain ⟨encoded, hencoded⟩ := Value.exists_encodeList h
  rw [Clauses.compileValued, hencoded]
  exact ⟨_, rfl⟩

/-- **Clauses compile** when they are not empty and all of their operands encode. -/
theorem exists_compile {c : Clauses} (hne : c.isEmpty = false)
    (hvalues : ∀ v ∈ c.operands, ∃ a, Value.encode v = .ok a) : ∃ g, c.compile = .ok g := by
  have hclause (k : ValuedClause) :
      ∃ f, Clauses.compileValued k (c.assignments k) = .ok f := by
    refine exists_compileValued k fun v hv => hvalues v ?_
    exact List.mem_flatMap.mpr ⟨k, mem_order k, hv⟩
  obtain ⟨set, hset⟩ := hclause .set
  obtain ⟨add, hadd⟩ := hclause .add
  obtain ⟨delete, hdelete⟩ := hclause .delete
  have hcompile : c.compile = Clauses.compileValued .set (c.assignments .set) >>= fun set =>
      Clauses.compileValued .add (c.assignments .add) >>= fun add =>
      Clauses.compileValued .delete (c.assignments .delete) >>= fun delete =>
      let merged := Fragment.merge " " [set, Clauses.compileRemove c.remove, add, delete]
      .ok ⟨Text.trim merged.text, merged.values⟩ := by
    rw [Clauses.compile, if_neg (by rw [hne]; exact Bool.false_ne_true)]
    rfl
  rw [hcompile, hset, hadd, hdelete]
  exact ⟨_, rfl⟩

/-- What is read of a compiled update. -/
structure ReadsBack (c : Clauses) (g : Fragment) : Prop where
  /-- The text is the one that the clauses are merged to: nothing is trimmed off it. -/
  untrimmed : ∃ set add delete, Clauses.compileValued .set c.set = .ok set ∧
    Clauses.compileValued .add c.add = .ok add ∧
    Clauses.compileValued .delete c.delete = .ok delete ∧
    g.text = (Fragment.merge " " [set, Clauses.compileRemove c.remove, add, delete]).text
  /-- The keywords of the text are those of the clauses with an entry, each once and in order. -/
  keywords : (tokens g.text.toList).filterMap keyword? = c.present
  /-- The clauses that are read have the entries of the update, with their encoded values. -/
  clauses : ∃ found, read? g.values g.text = some found ∧
    List.Forall₂ (fun k x => x.1 = k ∧ List.Forall₂ Stored (k.entries c) x.2) c.present found

/-- **An update is read as it was built.** If its values can be encoded and its names can stand in
    an update as they are, it compiles, and the clauses that are read are its own. -/
theorem clauses_read_back {c : Clauses} (hne : c.isEmpty = false)
    (hvalues : ∀ v ∈ c.operands, ∃ a, Value.encode v = .ok a)
    (hn : ∀ name ∈ c.names, IsName name) : ∃ g, c.compile = .ok g ∧ ReadsBack c g := by
  obtain ⟨g, hg⟩ := exists_compile hne hvalues
  have hrenders := Clauses.renders_of_compile hg
  have htext : g.text = c.text := by rw [hrenders.text, trim_text hn hne]
  obtain ⟨encoded, hencoded, htable⟩ := hrenders.values
  have hfind := Clauses.map_find?_placeholders hencoded
  rw [← htable] at hfind
  refine ⟨g, hg, ?_⟩
  constructor
  case untrimmed =>
    obtain ⟨set, add, delete, hset, hadd, hdelete, -, -⟩ := Clauses.compile_eq_ok hg
    refine ⟨set, add, delete, hset, hadd, hdelete, ?_⟩
    obtain ⟨-, -, rfl⟩ := Clauses.compileValued_eq_ok hset
    obtain ⟨-, -, rfl⟩ := Clauses.compileValued_eq_ok hadd
    obtain ⟨-, -, rfl⟩ := Clauses.compileValued_eq_ok hdelete
    exact htext
  case keywords =>
    rw [htext, keywords_eq, sections_text hn, List.map_map]
    exact List.map_id _
  case clauses =>
    rw [read?, htext, sections_text hn]
    refine exists_mapM ?_
    rw [List.forall₂_map_right_iff, List.forall₂_same]
    intro k hk
    obtain ⟨found, hread, hstored⟩ := exists_mapM
      (read_entries k fun _ _ _ _ hentry => Clauses.find?_placeholder hencoded hfind hentry)
    refine ⟨(k, found), ?_, rfl, hstored⟩
    rw [readBody_intercalate hn (entries_ne_nil hk), hread]
    rfl

/-- An update without additions, in which one name is removed twice and another begins like a
    keyword. -/
def mixed : Clauses where
  set := .ofList [("settings", .integer 1), ("größe", .text "x")]
  remove := ["b", "b"]
  add := .empty
  delete := .ofList [("tags", .set .text (.list [.text "y"]))]

theorem clauses_read_back_mixed :
    ∃ g, mixed.compile = .ok g ∧ g.text = "SET settings = :uniqueId0, größe = :uniqueId1 "
        ++ "REMOVE b, b DELETE tags :DELETE0" ∧
      mixed.present = [.valued .set, .remove, .valued .delete] ∧ ReadsBack mixed g := by
  have hvalues : ∀ v ∈ mixed.operands, ∃ a, Value.encode v = .ok a := by
    have hoperands : mixed.operands
        = [.integer 1, .text "x", .set .text (.list [.text "y"])] := rfl
    intro v hv
    rw [hoperands] at hv
    simp only [List.mem_cons, List.not_mem_nil, or_false] at hv
    rcases hv with rfl | rfl | rfl
    · exact ⟨_, rfl⟩
    · exact ⟨_, rfl⟩
    · exact ⟨_, rfl⟩
  have hn : ∀ name ∈ mixed.names, IsName name := by decide
  obtain ⟨g, hg, hread⟩ := clauses_read_back (c := mixed) rfl hvalues hn
  refine ⟨g, hg, ?_, rfl, hread⟩
  obtain rfl := Except.ok.inj hg
  rfl

end UpdateText

end Depot
