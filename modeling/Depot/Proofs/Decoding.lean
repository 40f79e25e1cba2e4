import Mathlib.Data.List.Forall2
import Depot.Attribute.Decoding
import Depot.Attribute.Encoding
import Depot.Proofs.Mapping

/-!
# Decoding — what was encoded is the document again

The decimal text of an integer is read as that integer (**`Number.integer?_integerText`**), whatever
its sign is. Hence a document whose numbers are all integers of 64 bits (**`Json.Whole`**) is encoded,
and the attribute value is decoded to the same document with the members of its objects in order
(**`Json.exists_encode`**, along the document). Putting members in order changes none of them
(`Json.member?_inOrder`), and nothing at all when they already are in order
(**`Json.inOrder_of_ordered`**).
-/

namespace Depot

/-! ## Integers -/

namespace Number

theorem digitsFrom_of_isDigit {cs : List Char} (h : ∀ c ∈ cs, c.isDigit = true) (read : Nat) :
    digitsFrom read cs = some (Nat.ofDigitChars 10 cs read) := by
  induction cs generalizing read with
  | nil => rfl
  | cons c cs ih =>
      obtain ⟨hc, hcs⟩ := List.forall_mem_cons.mp h
      rw [digitsFrom, digit?, if_pos hc]
      exact ih hcs _

/-- A natural number has at least one digit, and nothing but digits. -/
theorem exists_toDigits_eq_cons (n : Nat) :
    ∃ c cs, Nat.toDigits 10 n = c :: cs ∧ ∀ d ∈ c :: cs, d.isDigit = true := by
  have hdigits : ∀ d ∈ Nat.toDigits 10 n, d.isDigit = true := fun d hd =>
    Nat.isDigit_of_mem_toDigits (by decide) (by decide) hd
  obtain ⟨c, cs, hcs⟩ := List.exists_cons_of_ne_nil (Nat.toDigits_ne_nil (b := 10) (n := n))
  exact ⟨c, cs, hcs, hcs ▸ hdigits⟩

/-- The digits of a natural number are read as that number. -/
theorem natural?_toDigits (n : Nat) : natural? (Nat.toDigits 10 n) = some n := by
  obtain ⟨c, cs, hcs, hdigits⟩ := exists_toDigits_eq_cons n
  rw [hcs, natural?, digitsFrom_of_isDigit hdigits, ← hcs, Nat.ofDigitChars_ten_toDigits]

/-- No digit is a sign. -/
theorem splitSign_toDigits (n : Nat) :
    splitSign (Nat.toDigits 10 n) = (false, Nat.toDigits 10 n) := by
  obtain ⟨c, cs, hcs, hdigits⟩ := exists_toDigits_eq_cons n
  have hc : c.isDigit = true := hdigits c List.mem_cons_self
  rw [hcs]
  unfold splitSign
  split
  · rename_i heq
    exact nomatch (List.cons.inj heq).1 ▸ hc
  · rename_i heq
    exact nomatch (List.cons.inj heq).1 ▸ hc
  · rfl

/-- **The text of an integer** is read as that integer. -/
theorem integer?_integerText (n : Int) : integer? (Json.integerText n) = some n := by
  by_cases hn : n < 0
  · have hsign :
        splitSign ('-' :: Nat.toDigits 10 n.natAbs) = (true, Nat.toDigits 10 n.natAbs) := rfl
    have hvalue : -(n.natAbs : Int) = n := by omega
    rw [Json.integerText, if_pos hn, integer?, hsign]
    simp only [natural?_toDigits]
    exact congrArg some hvalue
  · have hvalue : (n.natAbs : Int) = n := by omega
    rw [Json.integerText, if_neg hn, integer?, splitSign_toDigits]
    simp only [natural?_toDigits]
    exact congrArg some hvalue

end Number

/-! ## Documents -/

namespace Json

mutual

/-- A document whose numbers are all integers that 64 bits can hold, with a sign or without. -/
def Whole : Json → Prop
  | .integer n => -Int.pow 2 63 ≤ n ∧ n < Int.pow 2 64
  | .float _ => False
  | .array elements => WholeElements elements
  | .object members => WholeMembers members
  | _ => True

/-- Elements that are all of this kind. -/
def WholeElements : List Json → Prop
  | [] => True
  | j :: rest => j.Whole ∧ WholeElements rest

/-- Members whose values are all of this kind. -/
def WholeMembers : List (String × Json) → Prop
  | [] => True
  | (_, j) :: rest => j.Whole ∧ WholeMembers rest

end

mutual

/-- The document with the members of every object sorted by name, the last one where a name is
    repeated. -/
def inOrder : Json → Json
  | .array elements => .array (inOrderElements elements)
  | .object members => .object (Mapping.ofList (inOrderMembers members)).entries
  | j => j

/-- The elements with their members in order. -/
def inOrderElements : List Json → List Json
  | [] => []
  | j :: rest => j.inOrder :: inOrderElements rest

/-- The members with the members of their values in order. -/
def inOrderMembers : List (String × Json) → List (String × Json)
  | [] => []
  | (name, j) :: rest => (name, j.inOrder) :: inOrderMembers rest

end

mutual

/-- A document in which every object lists its members by strictly increasing name. -/
def Ordered : Json → Prop
  | .array elements => OrderedElements elements
  | .object members => Ascending members ∧ OrderedMembers members
  | _ => True

/-- Elements that are all ordered. -/
def OrderedElements : List Json → Prop
  | [] => True
  | j :: rest => j.Ordered ∧ OrderedElements rest

/-- Members whose values are all ordered. -/
def OrderedMembers : List (String × Json) → Prop
  | [] => True
  | (_, j) :: rest => j.Ordered ∧ OrderedMembers rest

end

mutual

/-- **An ordered document** is left as it is. -/
theorem inOrder_of_ordered {j : Json} (h : j.Ordered) : j.inOrder = j := by
  cases j with
  | array elements => rw [inOrder, inOrderElements_of_ordered h]
  | object members =>
      obtain ⟨hascending, hmembers⟩ := h
      rw [inOrder, inOrderMembers_of_ordered hmembers, Mapping.ofList_entries ⟨members, hascending⟩]
  | _ => rfl

theorem inOrderElements_of_ordered {l : List Json} (h : OrderedElements l) :
    inOrderElements l = l := by
  cases l with
  | nil => rfl
  | cons j rest => rw [inOrderElements, inOrder_of_ordered h.1, inOrderElements_of_ordered h.2]

theorem inOrderMembers_of_ordered {l : List (String × Json)} (h : OrderedMembers l) :
    inOrderMembers l = l := by
  cases l with
  | nil => rfl
  | cons x rest => rw [inOrderMembers, inOrder_of_ordered h.1, inOrderMembers_of_ordered h.2]

end

/-- An object has under a name what its members have under it as a mapping, the last one of several.
    -/
theorem member?_object (members : List (String × Json)) (name : String) :
    (Json.object members).member? name = (Mapping.ofList members).find? name := by
  rw [member?, Mapping.find?_ofList]
  induction members.reverse with
  | nil => rfl
  | cons x rest ih =>
      rw [List.find?_cons, Mapping.lookup]
      by_cases hx : x.1 = name
      · simp [hx]
      · simp [hx, ih]

theorem inOrderMembers_eq_map (members : List (String × Json)) :
    inOrderMembers members = members.map fun x => (x.1, x.2.inOrder) := by
  induction members with
  | nil => rfl
  | cons x rest ih => rw [inOrderMembers, ih, List.map_cons]

/-- **Every member stays** what it is, up to the order of its own members. -/
theorem member?_inOrder (j : Json) (name : String) :
    j.inOrder.member? name = (j.member? name).map inOrder := by
  cases j with
  | object members =>
      rw [inOrder, member?_object, member?_object, Mapping.ofList_entries, inOrderMembers_eq_map,
        Mapping.find?_ofList_map]
  | _ => rfl

end Json

/-! ## Tables -/

namespace Mapping

variable {α β : Type} {S : α → β → Prop}

/-- Two entries with one name, whose values are related. -/
def Alike (S : α → β → Prop) (x : String × α) (y : String × β) : Prop := x.1 = y.1 ∧ S x.2 y.2

theorem forall₂_insertEntry {name : String} {a : α} {b : β} (hab : S a b)
    {l : List (String × α)} {r : List (String × β)} (h : List.Forall₂ (Alike S) l r) :
    List.Forall₂ (Alike S) (insertEntry name a l) (insertEntry name b r) := by
  induction h with
  | nil => exact .cons ⟨rfl, hab⟩ .nil
  | @cons x y l r hxy hrest ih =>
      obtain ⟨other, old⟩ := x
      obtain ⟨_, old'⟩ := y
      obtain ⟨rfl, hold⟩ := hxy
      rw [insertEntry, insertEntry]
      split
      · exact .cons ⟨rfl, hab⟩ (.cons ⟨rfl, hold⟩ hrest)
      · split
        · exact .cons ⟨rfl, hab⟩ hrest
        · exact .cons ⟨rfl, hold⟩ ih

/-- **Lists with related entries** fill tables with related entries. -/
theorem forall₂_ofList {l : List (String × α)} {r : List (String × β)}
    (h : List.Forall₂ (Alike S) l r) :
    List.Forall₂ (Alike S) (ofList l).entries (ofList r).entries := by
  -- By induction on the lists, from any two tables that are related already.
  have hall : ∀ (m : Mapping α) (n : Mapping β), List.Forall₂ (Alike S) m.entries n.entries →
      List.Forall₂ (Alike S) (m.insertAll l).entries (n.insertAll r).entries := by
    induction h with
    | nil => exact fun m n hmn => hmn
    | @cons x y l r hxy hrest ih =>
        intro m n hmn
        obtain ⟨name, a⟩ := x
        obtain ⟨_, b⟩ := y
        obtain ⟨rfl, hab⟩ := hxy
        exact ih (m.insert name a) (n.insert name b) (forall₂_insertEntry hab hmn)
  exact hall empty empty .nil

end Mapping

/-! ## Attribute values -/

namespace AttributeValue

theorem fits_iff {n : Int} : fits n = true ↔ -Int.pow 2 63 ≤ n ∧ n < Int.pow 2 64 := by
  rw [fits, Bool.and_eq_true, decide_eq_true_iff, decide_eq_true_iff]

/-- The text of an integer that fits is read as that integer, and not as a fraction. -/
theorem decodeNumber_integerText {n : Int} (h : fits n = true) :
    decodeNumber (Value.integerText n) = .ok (.integer n) := by
  rw [decodeNumber, Value.integerText, String.toList_ofList, Number.integer?_integerText,
    Option.filter_some_pos h]

theorem decodeEntries_eq_ok {entries : List (String × AttributeValue)}
    {members : List (String × Json)}
    (h : List.Forall₂ (Mapping.Alike fun a j => decode a = .ok j) entries members) :
    decodeEntries entries = .ok members := by
  induction h with
  | nil => rfl
  | @cons x y entries members hxy hrest ih =>
      obtain ⟨name, a⟩ := x
      obtain ⟨_, j⟩ := y
      obtain ⟨rfl, hdecode⟩ := hxy
      rw [decodeEntries, hdecode, ih]
      rfl

end AttributeValue

namespace Json

mutual

/-- **A document without fractions** is encoded, and what it is encoded as is the document again. -/
theorem exists_encode {j : Json} (h : j.Whole) :
    ∃ a, (Value.ofJson j).encode = .ok a ∧ a.decode = .ok j.inOrder := by
  cases j with
  | null => exact ⟨.null true, rfl, rfl⟩
  | boolean b => exact ⟨.boolean b, rfl, rfl⟩
  | integer n =>
      refine ⟨.number (Value.integerText n), rfl, ?_⟩
      rw [AttributeValue.decode,
        AttributeValue.decodeNumber_integerText (AttributeValue.fits_iff.mpr h)]
      rfl
  | float x => exact h.elim
  | text s => exact ⟨.text s, rfl, rfl⟩
  | array elements =>
      obtain ⟨encoded, hencoded, hdecoded⟩ := exists_encodeElements h
      refine ⟨.list encoded, ?_, ?_⟩
      · rw [Value.ofJson, Value.encode, hencoded]
        rfl
      · rw [AttributeValue.decode, hdecoded]
        rfl
  | object members =>
      obtain ⟨encoded, hencoded, hdecoded⟩ := exists_encodeMembers h
      refine ⟨.map (Mapping.ofList encoded).entries, ?_, ?_⟩
      · rw [Value.ofJson, Value.encode, hencoded]
        rfl
      · -- The entries are sorted before they are decoded, and the members are sorted alike.
        rw [AttributeValue.decode,
          AttributeValue.decodeEntries_eq_ok (Mapping.forall₂_ofList hdecoded)]
        rfl

/-- A list of whole documents encodes, and its encoding decodes to the documents in order. -/
theorem exists_encodeElements {l : List Json} (h : WholeElements l) :
    ∃ encoded, Value.encodeList (Value.ofElements l) = .ok encoded ∧
      AttributeValue.decodeList encoded = .ok (inOrderElements l) := by
  cases l with
  | nil => exact ⟨[], rfl, rfl⟩
  | cons j rest =>
      obtain ⟨a, ha, hdecode⟩ := exists_encode h.1
      obtain ⟨others, hothers, hrest⟩ := exists_encodeElements h.2
      refine ⟨a :: others, ?_, ?_⟩
      · rw [Value.ofElements, Value.encodeList, ha, hothers]
        rfl
      · rw [AttributeValue.decodeList, hdecode, hrest]
        rfl

/-- The members of a whole document encode, each to what decodes to it. -/
theorem exists_encodeMembers {l : List (String × Json)} (h : WholeMembers l) :
    ∃ encoded, Value.encodeEntries (Value.ofMembers l) = .ok encoded ∧
      List.Forall₂ (Mapping.Alike fun a j => AttributeValue.decode a = .ok j) encoded
        (inOrderMembers l) := by
  cases l with
  | nil => exact ⟨[], rfl, .nil⟩
  | cons x rest =>
      obtain ⟨a, ha, hdecode⟩ := exists_encode h.1
      obtain ⟨others, hothers, hrest⟩ := exists_encodeMembers h.2
      refine ⟨(x.1, a) :: others, ?_, .cons ⟨rfl, hdecode⟩ hrest⟩
      rw [Value.ofMembers, Value.encodeEntries, ha, hothers]
      rfl

end

end Json

end Depot
