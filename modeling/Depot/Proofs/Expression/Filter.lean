import Depot.Proofs.Condition
import Depot.Proofs.Expression.Grammar
import Depot.Proofs.Fragment

/-!
# Filters as expressions — a compiled filter is read as it was meant

The text that `Filter.compile` renders is read back here by the grammar of conditions. A condition
is read as one atom (**`isAtom_text`**), the conditions of a group as a chain of atoms, and the
filter as its first group with the second one in parentheses behind it (**`reads_text`**). Since no
two operands have one placeholder, the values of the atoms are the encoded operands of their own
conditions (**`resolve_atomsFrom`**), also where the names of two attributes become one word.

The main result, **`reads_compile`**, puts this together: the text is read in exactly one way, and
what is read has the conditions of the filter as its atoms and is true when the filter holds.
-/

namespace Depot

/-- What a test asks of its attribute, without the operands. -/
def Test.operator : Test → Expression.Operator
  | .compare comparison _ => .compare comparison
  | .contains _ => .contains
  | .beginsWith _ => .beginsWith
  | .between _ _ => .between
  | .oneOf _ => .oneOf
  | .present => .present
  | .absent => .absent

namespace Expression

/-- A name that an expression can hold as it is: it has a character, none of them is blank or a
    mark, and it is no reserved word. -/
structure IsName (name : String) : Prop where
  nonempty : name ≠ ""
  plain : ∀ c ∈ name.toList, Text.isBlank c = false ∧ c ∉ marks
  unreserved : name ∉ reserved

instance (name : String) : Decidable (IsName name) :=
  decidable_of_iff (name ≠ "" ∧ name.toList.all (fun c => !Text.isBlank c && !marks.contains c) = true
      ∧ name ∉ reserved)
    ⟨fun ⟨hne, hp, hr⟩ => ⟨hne, by simpa using hp, hr⟩,
      fun ⟨hne, hp, hr⟩ => ⟨hne, by simpa using hp, hr⟩⟩

/-- The atom that a condition is read as: its placeholders are its operands. -/
def atomOf (c : Condition) (index : Nat) : Atom String :=
  ⟨c.column, c.test.operator, c.placeholders index⟩

/-- The atoms that conditions are read as, their operands numbered on from a number. -/
def atomsFrom (cs : List Condition) (index : Nat) : List (Atom String) :=
  (Condition.indexed cs index).map fun x => atomOf x.1 x.2

/-- An atom that is a condition with its operands encoded. -/
structure Denotes (c : Condition) (a : Atom AttributeValue) : Prop where
  column : a.column = c.column
  operator : a.operator = c.test.operator
  operands : Value.encodeList c.test.operands = .ok a.operands

/-- A formula that says what a filter does: its atoms are the conditions of the filter in order, and
    it is true when all atoms of the first group are and, if there is a second group, one of its
    atoms is. -/
def Means (f : Filter) (ψ : Formula AttributeValue) : Prop :=
  ∃ all any, ψ.atoms = all ++ any ∧
    List.Forall₂ Denotes f.all all ∧ List.Forall₂ Denotes f.any any ∧
    ∀ v, ψ.eval v = true ↔
      (∀ a ∈ all, v a = true) ∧ (f.any ≠ [] → ∃ a ∈ any, v a = true)

/-! ## One condition -/

/-- A name is one token. -/
theorem IsName.tokens {name : String} (h : IsName name) : tokens name.toList = [.word name] := by
  refine tokens_of_word h.nonempty (List.all_eq_true.mpr fun c hc => ?_)
  obtain ⟨hb, hm⟩ := h.plain c hc
  rw [isKind, kind_eq_word (by rw [hb]; decide) hm]
  rfl

private theorem joint_and : Joint " and " [.word "and"] :=
  joint_space.word joint_space (w := "and") (by decide) (by decide)

private theorem joint_or : Joint " or " [.word "or"] :=
  joint_space.word joint_space (w := "or") (by decide) (by decide)

private theorem joint_between : Joint " between " [.word "between"] :=
  joint_space.word joint_space (w := "between") (by decide) (by decide)

private theorem joint_in : Joint " in (" [.word "in", .opening] :=
  joint_space.word (joint_space.append joint_opening) (w := "in") (by decide) (by decide)

private theorem joint_argument : Joint ", " [.comma] := joint_comma.append joint_space

private theorem leads_call {w : String} (hne : w ≠ "")
    (hw : w.toList.all (isKind .word) = true) : Leads (w ++ "(") [.word w, .opening] :=
  joint_opening.leads_word hne hw

/-- The call of a function with a column is read as the function, the column and a closing mark. -/
private theorem tokens_call {f column : String} {ts : List Token} (hf : Leads f ts)
    (hcolumn : tokens column.toList = [.word column]) :
    tokens (f ++ column ++ ")").toList = ts ++ [.word column, .closing] := by
  rw [joint_closing.tokens_append_end, hf.tokens_append, hcolumn, List.append_assoc]
  rfl

/-- The call of a function with a column and an operand is read as its parts in order. -/
private theorem tokens_call_operand {f column p : String} {ts : List Token} (hf : Leads f ts)
    (hcolumn : tokens column.toList = [.word column]) (hp : tokens p.toList = [.value p]) :
    tokens (f ++ column ++ ", " ++ p ++ ")").toList
      = ts ++ [.word column, .comma, .value p, .closing] := by
  rw [joint_closing.tokens_append_end, joint_argument.tokens_append, hf.tokens_append, hcolumn, hp,
    List.append_assoc, List.append_assoc]
  rfl

theorem alternatives_intercalate {ps : List String} (hne : ps ≠ []) :
    Alternatives (List.intercalate [.comma] (ps.map fun p => [.value p])) ps := by
  induction ps with
  | nil => exact absurd rfl hne
  | cons p rest ih =>
      cases rest with
      | nil => exact .one p
      | cons q rest => exact .more p (ih (List.cons_ne_nil _ _))

/-- Every placeholder of a condition is one token. -/
theorem tokens_of_mem_placeholders (c : Condition) (index : Nat) {p : String}
    (hp : p ∈ c.placeholders index) : tokens p.toList = [.value p] :=
  tokens_placeholder ((c.numbered_placeholders index).placeholder hp)

/-- **A condition is read as one atom**, whatever it asks of its attribute. -/
theorem isAtom_text {c : Condition} (hname : IsName c.column) (hne : c.test ≠ .oneOf [])
    (index : Nat) : IsAtom (tokens (c.text index).toList) (atomOf c index) := by
  obtain ⟨column, test⟩ := c
  have hcolumn := hname.tokens
  have hun := hname.unreserved
  cases test with
  | compare comparison v =>
      have hp := tokens_of_mem_placeholders ⟨column, .compare comparison v⟩ index
        List.mem_cons_self
      have htext : tokens (Condition.text ⟨column, .compare comparison v⟩ index).toList
          = [.word column, .operator comparison.symbol,
            .value (operandPlaceholder column comparison.tag index)] := by
        rw [Condition.text, joint_space.tokens_append, joint_space.tokens_append, hcolumn,
          tokens_symbol, hp]
        rfl
      rw [htext]
      exact .compare comparison _ hun
  | contains v =>
      have hp := tokens_of_mem_placeholders ⟨column, .contains v⟩ index List.mem_cons_self
      have hcall : Leads "contains(" [.word "contains", .opening] :=
        leads_call (w := "contains") (by decide) (by decide)
      rw [Condition.text, tokens_call_operand hcall hcolumn hp]
      exact .contains _ hun
  | beginsWith v =>
      have hp := tokens_of_mem_placeholders ⟨column, .beginsWith v⟩ index List.mem_cons_self
      have hcall : Leads "begins_with(" [.word "begins_with", .opening] :=
        leads_call (w := "begins_with") (by decide) (by decide)
      rw [Condition.text, tokens_call_operand hcall hcolumn hp]
      exact .beginsWith _ hun
  | between low high =>
      have hlow := tokens_of_mem_placeholders ⟨column, .between low high⟩ index
        List.mem_cons_self
      have hhigh := tokens_of_mem_placeholders ⟨column, .between low high⟩ index
        (List.mem_cons_of_mem _ List.mem_cons_self)
      have htext : tokens (Condition.text ⟨column, .between low high⟩ index).toList
          = [.word column, .word "between", .value (operandPlaceholder column "start" index),
            .word "and", .value (operandPlaceholder column "end" (index + 1))] := by
        rw [Condition.text, joint_and.tokens_append, joint_between.tokens_append, hcolumn, hlow,
          hhigh]
        rfl
      rw [htext]
      exact .between _ _ hun
  | oneOf vs =>
      have hps : (Condition.placeholders ⟨column, .oneOf vs⟩ index).map
            (fun p => tokens p.toList)
          = (Condition.placeholders ⟨column, .oneOf vs⟩ index).map fun p => [.value p] :=
        List.map_congr_left fun p hp => tokens_of_mem_placeholders _ index hp
      -- A condition without a value to choose from does not compile.
      have hsome : Condition.placeholders ⟨column, .oneOf vs⟩ index ≠ [] := by
        intro hnil
        have hlength := Condition.length_placeholders ⟨column, .oneOf vs⟩ index
        rw [hnil] at hlength
        exact hne (congrArg Test.oneOf (List.length_eq_zero_iff.mp hlength.symm))
      have htext : tokens (Condition.text ⟨column, .oneOf vs⟩ index).toList
          = .word column :: .word "in" :: .opening ::
            (List.intercalate [.comma]
              ((Condition.placeholders ⟨column, .oneOf vs⟩ index).map fun p => [.value p])
              ++ [.closing]) := by
        rw [Condition.text, joint_closing.tokens_append_end, joint_in.tokens_append, hcolumn,
          tokens_intercalate joint_comma, hps]
        rfl
      rw [htext]
      exact .oneOf hun (alternatives_intercalate hsome)
  | present =>
      have hcall : Leads "attribute_exists(" [.word "attribute_exists", .opening] :=
        leads_call (w := "attribute_exists") (by decide) (by decide)
      rw [Condition.text, tokens_call hcall hcolumn]
      exact .present hun
  | absent =>
      have hcall : Leads "attribute_not_exists(" [.word "attribute_not_exists", .opening] :=
        leads_call (w := "attribute_not_exists") (by decide) (by decide)
      rw [Condition.text, tokens_call hcall hcolumn]
      exact .absent hun

/-! ## A list of conditions -/

/-- A condition on a name has a text, unless it is a membership in an empty list. -/
theorem text_ne_empty {c : Condition} (hname : IsName c.column) (hne : c.test ≠ .oneOf [])
    (index : Nat) : c.text index ≠ "" := by
  intro hempty
  have hsome := (Derives.atom (isAtom_text hname hne index)).ne_nil
  rw [hempty, String.toList_empty, tokens_nil] at hsome
  exact hsome rfl

/-- A fragment with a text, which is read as a formula without connectives around it. -/
structure IsTerm (f : Fragment) (φ : Formula String) : Prop where
  nonempty : f.text ≠ ""
  derives : Derives .term (tokens f.text.toList) φ

/-- Every condition of a compiled list is one term, the atom of it. -/
theorem isTerm_compileAll {cs : List Condition} {index : Nat} {fs : List Fragment}
    (h : Condition.compileAll cs index = .ok fs) (hn : ∀ c ∈ cs, IsName c.column) :
    List.Forall₂ IsTerm fs ((atomsFrom cs index).map .atom) := by
  induction cs generalizing index fs with
  | nil =>
      obtain rfl : [] = fs := Except.ok.inj h
      exact .nil
  | cons c rest ih =>
      obtain ⟨f, others, hc, hrest, rfl⟩ := Condition.compileAll_cons_eq_ok h
      obtain ⟨hne, encoded, -, rfl⟩ := Condition.compile_eq_ok hc
      have hname := hn c List.mem_cons_self
      refine .cons ⟨text_ne_empty hname hne index, .atom (isAtom_text hname hne index)⟩ ?_
      exact ih hrest fun d hd => hn d (List.mem_cons_of_mem c hd)

/-- Expressions of one level with a connective between them are a chain. -/
theorem derives_chain {inner outer : Level} {w : String}
    {op : Formula String → Formula String → Formula String}
    (hone : ∀ {ts φ}, Derives inner ts φ → Derives outer ts φ)
    (hmore : ∀ {ts us φ ψ}, Derives inner ts φ → Derives outer us ψ →
      Derives outer (ts ++ .word w :: us) (op φ ψ))
    {tss : List (List Token)} {φs : List (Formula String)}
    (h : List.Forall₂ (Derives inner) tss φs) (hne : tss ≠ []) :
    Derives outer (List.intercalate [.word w] tss) (Formula.chain op φs) := by
  induction h with
  | nil => exact absurd rfl hne
  | @cons ts φ tss φs hhead htail ih =>
      cases htail with
      | nil =>
          rw [List.intercalate_singleton]
          exact hone hhead
      | cons =>
          rw [List.intercalate_cons_cons, List.append_assoc]
          exact hmore hhead (ih (List.cons_ne_nil _ _))

/-- The tokens of merged fragments, none of which is without a text. -/
theorem tokens_merge {op : String} {ts : List Token} (hop : Joint op ts) {fs : List Fragment}
    (hne : ∀ f ∈ fs, f.text ≠ "") :
    tokens (Fragment.merge op fs).text.toList
      = List.intercalate ts (fs.map fun f => tokens f.text.toList) := by
  have hall : (fs.map (·.text)).filter (· ≠ "") = fs.map (·.text) := by
    rw [List.filter_eq_self]
    intro text htext
    obtain ⟨f, hf, rfl⟩ := List.mem_map.mp htext
    exact decide_eq_true (hne f hf)
  rw [Fragment.merge_text, hall, tokens_intercalate hop, List.map_map]
  rfl

/-- Merged terms are a chain of the formulas that they are read as. -/
theorem derives_merge {outer : Level} {w sep : String}
    {op : Formula String → Formula String → Formula String} (hsep : Joint sep [.word w])
    (hone : ∀ {ts φ}, Derives .term ts φ → Derives outer ts φ)
    (hmore : ∀ {ts us φ ψ}, Derives .term ts φ → Derives outer us ψ →
      Derives outer (ts ++ .word w :: us) (op φ ψ))
    {fs : List Fragment} {φs : List (Formula String)} (h : List.Forall₂ IsTerm fs φs)
    (hne : fs ≠ []) :
    Derives outer (tokens (Fragment.merge sep fs).text.toList) (Formula.chain op φs) := by
  have hterms : List.Forall₂ (Derives .term) (fs.map fun f => tokens f.text.toList) φs :=
    List.forall₂_map_left_iff.mpr (h.imp fun _ _ hf => hf.derives)
  have htexts : ∀ f ∈ fs, f.text ≠ "" :=
    ((List.forall₂_and_left fs φs).mp (h.imp fun _ _ hf => ⟨hf.nonempty, hf.derives⟩)).1
  rw [tokens_merge hsep htexts]
  refine derives_chain hone hmore hterms ?_
  rwa [ne_eq, List.map_eq_nil_iff]

/-! ## A whole filter -/

theorem isTerm_parenthesize {fs : List Fragment} {φs : List (Formula String)}
    (h : List.Forall₂ IsTerm fs φs) (hne : fs ≠ []) :
    IsTerm (Fragment.merge " or " fs).parenthesize (Formula.chain .or φs) := by
  have hinside : Derives .disjunction (tokens (Fragment.merge " or " fs).text.toList)
      (Formula.chain .or φs) :=
    derives_merge joint_or (fun ht => .disjunct (.conjunct ht)) (fun ht => .or (.conjunct ht)) h hne
  have hsome : (Fragment.merge " or " fs).text ≠ "" := by
    intro hempty
    rw [hempty, String.toList_empty, tokens_nil] at hinside
    exact hinside.ne_nil rfl
  have htext : (Fragment.merge " or " fs).parenthesize.text
      = "(" ++ (Fragment.merge " or " fs).text ++ ")" := by
    rw [Fragment.parenthesize, if_neg hsome]
  refine ⟨by rw [htext]; simp, ?_⟩
  rw [htext, joint_closing.tokens_append_end, joint_opening.leads.tokens_append]
  exact .parens hinside

/-- Terms that are joined by a conjunction are read as the chain of them. -/
theorem reads_merge {fs : List Fragment} {φs : List (Formula String)}
    (h : List.Forall₂ IsTerm fs φs) :
    Reads (Fragment.merge " and " fs).text (Formula.chain .and φs) := by
  cases h with
  | nil => exact .empty (by rw [Fragment.merge]; exact tokens_nil)
  | cons hhead htail =>
      refine .condition (.disjunct ?_)
      exact derives_merge joint_and .conjunct .and (.cons hhead htail) (List.cons_ne_nil _ _)

/-- **A compiled filter is read as its two groups.** -/
theorem reads_text {f : Filter} {g : Fragment} (h : f.compile = .ok g)
    (hn : ∀ c ∈ f.conditions, IsName c.column) :
    Reads g.text (Formula.grouped (atomsFrom f.all 0)
      (atomsFrom f.any (Condition.operandCount f.all))) := by
  obtain ⟨all, any, encoded, hall, hany, -, htext, -⟩ := Filter.compile_eq_ok h
  have hleft := isTerm_compileAll hall fun c hc => hn c (List.mem_append_left _ hc)
  have hright := isTerm_compileAll hany fun c hc => hn c (List.mem_append_right _ hc)
  rw [htext]
  -- Whether there is a second group is seen from its atoms.
  generalize atomsFrom f.any (Condition.operandCount f.all) = as at hright
  cases as with
  | nil =>
      obtain rfl : any = [] := List.forall₂_nil_right_iff.mp hright
      rw [show (Fragment.merge " or " []).parenthesize.text = "" from rfl,
        Fragment.join_empty_right]
      exact reads_merge hleft
  | cons a as =>
      have hparens := isTerm_parenthesize hright (by rintro rfl; exact nomatch hright)
      have hgroups := reads_merge (List.rel_append hleft (.cons hparens .nil))
      rw [Fragment.merge_append_text, Fragment.merge_cons_text,
        show (Fragment.merge " and " []).text = "" from rfl, Fragment.join_empty_right] at hgroups
      exact hgroups

/-! ## The values of the placeholders -/

private theorem mapM_of_map {f : String → Option AttributeValue} {ps : List String}
    {encoded : List AttributeValue} (h : ps.map f = encoded.map some) :
    ps.mapM f = some encoded := by
  induction ps generalizing encoded with
  | nil =>
      obtain rfl : encoded = [] := List.map_eq_nil_iff.mp h.symm
      rfl
  | cons p ps ih =>
      cases encoded with
      | nil => exact nomatch h
      | cons a encoded =>
          rw [List.map_cons, List.map_cons, List.cons.injEq] at h
          rw [List.mapM_cons, h.1, ih h.2]
          rfl

/-- **Every condition is read with its own operands**, when every placeholder stands for the operand
    that it was made for. -/
theorem resolve_atomsFrom {values : Attributes} {cs : List Condition} {index : Nat}
    (h : ∀ x ∈ Condition.indexed cs index, ∃ own, Value.encodeList x.1.test.operands = .ok own ∧
      (x.1.placeholders x.2).map values.find? = own.map some) :
    ∃ as, List.Forall₂ (fun a b => a.resolve values = some b) (atomsFrom cs index) as ∧
      List.Forall₂ Denotes cs as := by
  induction cs generalizing index with
  | nil => exact ⟨[], .nil, .nil⟩
  | cons c rest ih =>
      obtain ⟨own, hown, hfind⟩ := h (c, index) List.mem_cons_self
      obtain ⟨as, hresolve, hdenotes⟩ := ih fun x hx => h x (List.mem_cons_of_mem _ hx)
      refine ⟨⟨c.column, c.test.operator, own⟩ :: as, .cons ?_ hresolve,
        .cons ⟨rfl, rfl, hown⟩ hdenotes⟩
      rw [Atom.resolve, show (atomOf c index).operands = c.placeholders index from rfl,
        mapM_of_map hfind]
      rfl

private theorem length_atomsFrom (cs : List Condition) (index : Nat) :
    (atomsFrom cs index).length = cs.length := by
  induction cs generalizing index with
  | nil => rfl
  | cons c rest ih => exact congrArg Nat.succ (ih _)

private theorem forall₂_append_left {α β : Type} {R : α → β → Prop} {l r : List α} {u : List β}
    (h : List.Forall₂ R (l ++ r) u) :
    ∃ left right, u = left ++ right ∧ List.Forall₂ R l left ∧ List.Forall₂ R r right := by
  refine ⟨u.take l.length, u.drop l.length, (List.take_append_drop _ _).symm, ?_, ?_⟩
  · have := List.forall₂_take l.length h
    rwa [List.take_left] at this
  · have := List.forall₂_drop l.length h
    rwa [List.drop_left] at this

/-- **Compiling a filter preserves its meaning.** The text is read in exactly one way, and with the
    values of its placeholders what is read says what the filter does. -/
theorem reads_compile {f : Filter} {g : Fragment} (h : f.compile = .ok g)
    (hn : ∀ c ∈ f.conditions, IsName c.column) :
    ∃ φ ψ, (∀ φ', Reads g.text φ' ↔ φ' = φ) ∧ φ.resolve g.values = some ψ ∧ Means f ψ := by
  have hreads := reads_text h hn
  obtain ⟨-, -, encoded, -, -, hencoded, -, hvalues⟩ := Filter.compile_eq_ok h
  have hfind := Filter.map_find?_placeholders hencoded
  rw [← hvalues, Filter.placeholders] at hfind
  obtain ⟨as, hresolve, hdenotes⟩ :=
    resolve_atomsFrom (Condition.map_find?_indexed hencoded hfind)
  rw [atomsFrom, Filter.conditions, Condition.indexed_append, Nat.zero_add, List.map_append]
    at hresolve
  -- The two groups have their own atoms on both sides, since there are as many as conditions.
  obtain ⟨all, any, rfl, hall, hany⟩ := forall₂_append_left hresolve
  obtain ⟨all', any', heq, hall', hany'⟩ := forall₂_append_left hdenotes
  have hlength : all.length = all'.length := by
    rw [← hall.length_eq, ← hall'.length_eq]
    exact length_atomsFrom f.all 0
  obtain ⟨rfl, rfl⟩ := List.append_inj heq hlength
  have hempty : f.any = [] ↔ any = [] := by
    rw [← List.length_eq_zero_iff, hany'.length_eq, List.length_eq_zero_iff]
  refine ⟨_, _, fun φ' => ⟨fun h' => h'.unique hreads, ?_⟩, Formula.resolve_grouped hall hany,
    all, any, Formula.atoms_grouped all any, hall', hany', fun v => ?_⟩
  · rintro rfl
    exact hreads
  · rw [Formula.eval_grouped, ne_eq, ne_eq, hempty]

/-- Names that have one placeholder word, in both groups of a filter. -/
def alike : Filter where
  all := [⟨"a.b", .between (.integer 1) (.integer 2)⟩, ⟨"a_b", .contains (.text "x")⟩]
  any := [⟨"a-b", .oneOf [.integer 3, .integer 4]⟩, ⟨"a.b", .absent⟩]

theorem reads_compile_alike :
    ∃ g, alike.compile = .ok g ∧
      g.text = "a.b between :a_b_start0 and :a_b_end1 and contains(a_b, :a_b_contains2)"
        ++ " and (a-b in (:a_b_in3,:a_b_in4) or attribute_not_exists(a.b))" ∧
      ∃ φ ψ, (∀ φ', Reads g.text φ' ↔ φ' = φ) ∧ φ.resolve g.values = some ψ ∧ Means alike ψ := by
  have hn : ∀ c ∈ alike.conditions, IsName c.column := by decide
  obtain ⟨g, hg⟩ : ∃ g, alike.compile = .ok g := ⟨_, rfl⟩
  refine ⟨g, hg, ?_, reads_compile hg hn⟩
  obtain rfl := Except.ok.inj hg
  rfl

end Expression

end Depot
