import Depot.Base64

/-!
# Base64 — one text for each list of bytes

A letter of the alphabet is read as the number that it was written for (**`number?_letter`**). The
bits of each three bytes are found again in their four letters, and one or two bytes at the end leave
no bit over, so every list of bytes comes back (**`decode_encode`**), and a text that is read is the
one that is written for its bytes (**`eq_encode_of_decode`**).

What a text stands for is said without reading or writing it by **`Spells`**, bit by bit. Decoding
accepts exactly the texts that stand for bytes in this way (**`decode_eq_some_iff`**).
-/

namespace Depot.Base64

/-! ## Letters -/

/-- The letter of a number is read as that number, in either alphabet. -/
theorem number?_letter (a : Alphabet) {n : Nat} (h : n < 64) : a.number? (a.letter n) = some n := by
  have hall : ∀ n < 64, a.number? (a.letter n) = some n := by cases a <;> decide
  exact hall n h

theorem toNat_lt_of_number? {a : Alphabet} {c : Char} {n : Nat} (h : a.number? c = some n) :
    c.toNat < 128 := by
  unfold Alphabet.number? at h
  -- The letters of three ranges, the last two letters, and nothing else.
  split at h
  · rename_i hc
    have hrange : 65 ≤ c.val ∧ c.val ≤ 90 := of_decide_eq_true hc
    exact Nat.lt_of_le_of_lt hrange.2 (by decide)
  · split at h
    · rename_i hc
      have hrange : c.val ≤ 122 := of_decide_eq_true (Bool.and_eq_true_iff.mp hc).2
      exact Nat.lt_of_le_of_lt hrange (by decide)
    · split at h
      · rename_i hc
        have hrange : c.val ≤ 57 := of_decide_eq_true (Bool.and_eq_true_iff.mp hc).2
        exact Nat.lt_of_le_of_lt hrange (by decide)
      · split at h
        · rename_i hc
          rw [hc]
          cases a <;> decide
        · split at h
          · rename_i hc
            rw [hc]
            cases a <;> decide
          · cases h

/-- A letter that is read as a number is the letter of that number. -/
theorem letter_of_number? {a : Alphabet} {c : Char} {n : Nat} (h : a.number? c = some n) :
    n < 64 ∧ a.letter n = c := by
  have hall : ∀ k < 128, (a.number? (Char.ofNat k)).all
      (fun n => decide (n < 64 ∧ a.letter n = Char.ofNat k)) = true := by
    cases a <;> decide
  have hc := hall c.toNat (toNat_lt_of_number? h)
  rw [Char.ofNat_toNat, h] at hc
  exact of_decide_eq_true hc

/-! ## Encoding and decoding -/

private theorem ofNat_eq {n : Nat} {x : UInt8} (h : n = x.toNat) : UInt8.ofNat n = x := by
  rw [h, UInt8.ofNat_toNat]

private theorem toNat_ofNat {n : Nat} (h : n < 256) : (UInt8.ofNat n).toNat = n :=
  UInt8.toNat_ofNat_of_lt' h

/-- **Decoding undoes encoding**, whatever the number of bytes is. -/
theorem decode_encode (a : Alphabet) (bytes : List UInt8) :
    decode a (encode a bytes) = some bytes := by
  -- Each byte is put together from the quotients and remainders that were written for it.
  induction bytes using encode.induct with
  | case1 => rfl
  | case2 x =>
      have hx := x.toNat_lt
      rw [encode, decode, number?_letter a (by omega), number?_letter a (by omega)]
      show (if _ then some [_] else none) = _
      rw [if_pos (by omega), ofNat_eq (x := x) (by omega)]
  | case3 x y =>
      have hx := x.toNat_lt
      have hy := y.toNat_lt
      rw [encode, decode, number?_letter a (by omega), number?_letter a (by omega),
        number?_letter a (by omega)]
      show (if _ then some [_, _] else none) = _
      rw [if_pos (by omega), ofNat_eq (x := x) (by omega), ofNat_eq (x := y) (by omega)]
  | case4 x y z rest ih =>
      have hx := x.toNat_lt
      have hy := y.toNat_lt
      have hz := z.toNat_lt
      rw [encode, decode, number?_letter a (by omega), number?_letter a (by omega),
        number?_letter a (by omega), number?_letter a (by omega), ih]
      show some (_ :: _ :: _ :: rest) = _
      rw [ofNat_eq (x := x) (by omega), ofNat_eq (x := y) (by omega), ofNat_eq (x := z) (by omega)]

/-- **What decoding accepts** is what encoding writes. -/
theorem eq_encode_of_decode {a : Alphabet} {cs : List Char} {bytes : List UInt8}
    (h : decode a cs = some bytes) : cs = encode a bytes := by
  -- Each letter is put together from the quotients and remainders of the bytes read from it.
  induction cs using decode.induct generalizing bytes with
  | case1 =>
      obtain rfl := Option.some.inj h
      rfl
  | case2 c => exact nomatch h
  | case3 c d =>
      rw [decode] at h
      simp only [Option.bind_eq_bind, Option.bind_eq_some_iff, Option.ite_none_right_eq_some] at h
      obtain ⟨p, hp, q, hq, hover, h⟩ := h
      obtain ⟨hp64, rfl⟩ := letter_of_number? hp
      obtain ⟨hq64, rfl⟩ := letter_of_number? hq
      obtain rfl := Option.some.inj h
      rw [encode, toNat_ofNat (by omega), show (p * 4 + q / 16) / 4 = p by omega,
        show (p * 4 + q / 16) % 4 * 16 = q by omega]
  | case4 c d e =>
      rw [decode] at h
      simp only [Option.bind_eq_bind, Option.bind_eq_some_iff, Option.ite_none_right_eq_some] at h
      obtain ⟨p, hp, q, hq, r, hr, hover, h⟩ := h
      obtain ⟨hp64, rfl⟩ := letter_of_number? hp
      obtain ⟨hq64, rfl⟩ := letter_of_number? hq
      obtain ⟨hr64, rfl⟩ := letter_of_number? hr
      obtain rfl := Option.some.inj h
      rw [encode, toNat_ofNat (by omega), toNat_ofNat (by omega),
        show (p * 4 + q / 16) / 4 = p by omega,
        show (p * 4 + q / 16) % 4 * 16 + (q % 16 * 16 + r / 4) / 16 = q by omega,
        show (q % 16 * 16 + r / 4) % 16 * 4 = r by omega]
  | case5 c d e f rest ih =>
      rw [decode] at h
      simp only [Option.bind_eq_bind, Option.bind_eq_some_iff] at h
      obtain ⟨p, hp, q, hq, r, hr, s, hs, others, hothers, h⟩ := h
      obtain ⟨hp64, rfl⟩ := letter_of_number? hp
      obtain ⟨hq64, rfl⟩ := letter_of_number? hq
      obtain ⟨hr64, rfl⟩ := letter_of_number? hr
      obtain ⟨hs64, rfl⟩ := letter_of_number? hs
      obtain rfl := Option.some.inj h
      rw [encode, ← ih hothers, toNat_ofNat (by omega), toNat_ofNat (by omega),
        toNat_ofNat (by omega), show (p * 4 + q / 16) / 4 = p by omega,
        show (p * 4 + q / 16) % 4 * 16 + (q % 16 * 16 + r / 4) / 16 = q by omega,
        show (q % 16 * 16 + r / 4) % 16 * 4 + (r % 4 * 64 + s) / 64 = r by omega,
        show (r % 4 * 64 + s) % 64 = s by omega]

/-! ## Bits -/

/-- The letters of an alphabet in order. -/
def Alphabet.letters (a : Alphabet) : List Char :=
  "ABCDEFGHIJKLMNOPQRSTUVWXYZabcdefghijklmnopqrstuvwxyz0123456789".toList ++ [a.plus, a.slash]

/-- The lowest bits of a number, as many as given, the highest of them first. -/
def bits : Nat → Nat → List Bool
  | 0, _ => []
  | width + 1, n => n.testBit width :: bits width n

/-- **Letters that stand for bytes**: their bits, six for a letter, are those of the bytes, eight for
    a byte, and behind them there are fewer than six bits, all of them zero. -/
def Spells (a : Alphabet) (cs : List Char) (bytes : List UInt8) : Prop :=
  ∃ (numbers : List Nat) (spare : Nat), numbers.map (a.letters[·]?) = cs.map some ∧ spare < 6 ∧
    numbers.flatMap (bits 6)
      = bytes.flatMap (fun b => bits 8 b.toNat) ++ List.replicate spare false

/-- The letters of an alphabet stand in the order of their numbers. -/
theorem getElem?_letters (a : Alphabet) {n : Nat} (h : n < 64) :
    a.letters[n]? = some (a.letter n) := by
  have hall : ∀ n < 64, a.letters[n]? = some (a.letter n) := by cases a <;> decide +kernel
  exact hall n h

theorem lt_of_getElem?_letters {a : Alphabet} {n : Nat} {c : Char} (h : a.letters[n]? = some c) :
    n < 64 := by
  obtain ⟨hlt, -⟩ := List.getElem?_eq_some_iff.mp h
  cases a <;> exact hlt

theorem length_bits (w n : Nat) : (bits w n).length = w := by
  induction w with
  | zero => rfl
  | succ w ih => rw [bits, List.length_cons, ih]

/-- Numbers of w bits each make up w bits for every number. -/
theorem length_flatMap_bits {α : Type} (w : Nat) (f : α → Nat) (l : List α) :
    (l.flatMap fun x => bits w (f x)).length = w * l.length := by
  induction l with
  | nil => rfl
  | cons x l ih =>
      rw [List.flatMap_cons, List.length_append, length_bits, ih, List.length_cons, Nat.mul_succ,
        Nat.add_comm]

theorem bits_zero (w : Nat) : bits w 0 = List.replicate w false := by
  induction w with
  | zero => rfl
  | succ w ih => rw [bits, ih, Nat.zero_testBit, List.replicate_succ]

/-- **A number put together** of a higher and a lower part has the bits of both. -/
theorem bits_mul_add (v w m : Nat) {n : Nat} (hn : n < Nat.pow 2 w) :
    bits (v + w) (m * Nat.pow 2 w + n) = bits v m ++ bits w n := by
  have hbit (i : Nat) : (m * Nat.pow 2 w + n).testBit i
      = if i < w then n.testBit i else m.testBit (i - w) := by
    rw [Nat.mul_comm]
    exact Nat.testBit_two_pow_mul_add m hn i
  have hlow (k : Nat) (hk : k ≤ w) : bits k (m * Nat.pow 2 w + n) = bits k n := by
    induction k with
    | zero => rfl
    | succ k ih => rw [bits, bits, hbit, if_pos (by omega), ih (by omega)]
  induction v with
  | zero =>
      rw [Nat.zero_add, hlow w (Nat.le_refl w)]
      rfl
  | succ v ih =>
      rw [Nat.add_right_comm, bits, hbit, if_neg (by omega), ih, Nat.add_sub_cancel]
      rfl

/-- The bits of a number are those of its quotient and those of its remainder, one after the other.
    -/
theorem bits_div_mod (v w n : Nat) :
    bits (v + w) n = bits v (n / Nat.pow 2 w) ++ bits w (n % Nat.pow 2 w) := by
  rw [← bits_mul_add v w _ (Nat.mod_lt n (Nat.pow_pos (by decide))), Nat.div_add_mod']

/-- Numbers that fit into as many bits are equal when their bits are. -/
theorem bits_inj {w m n : Nat} (hm : m < Nat.pow 2 w) (hn : n < Nat.pow 2 w)
    (h : bits w m = bits w n) : m = n := by
  have hlow (k : Nat) (hk : bits k m = bits k n) : ∀ i < k, m.testBit i = n.testBit i := by
    induction k with
    | zero => exact fun i hi => nomatch hi
    | succ k ih =>
        rw [bits, bits, List.cons.injEq] at hk
        intro i hi
        rcases Nat.lt_succ_iff_lt_or_eq.mp hi with hi | rfl
        · exact ih hk.2 i hi
        · exact hk.1
  apply Nat.eq_of_testBit_eq
  intro i
  by_cases hi : i < w
  · exact hlow w h i hi
  · have hpow : Nat.pow 2 w ≤ Nat.pow 2 i := Nat.pow_le_pow_right (by decide) (by omega)
    rw [Nat.testBit_lt_two_pow (Nat.lt_of_lt_of_le hm hpow),
      Nat.testBit_lt_two_pow (Nat.lt_of_lt_of_le hn hpow)]

theorem bits_first (n : Nat) : bits 8 n = bits 6 (n / 4) ++ bits 2 (n % 4) := bits_div_mod 6 2 n

theorem bits_second (n : Nat) : bits 8 n = bits 4 (n / 16) ++ bits 4 (n % 16) := bits_div_mod 4 4 n

theorem bits_third (n : Nat) : bits 8 n = bits 2 (n / 64) ++ bits 6 (n % 64) := bits_div_mod 2 6 n

theorem bits_between_first (m : Nat) {n : Nat} (hn : n < 16) :
    bits 6 (m * 16 + n) = bits 2 m ++ bits 4 n := bits_mul_add 2 4 m hn

theorem bits_between_second (m : Nat) {n : Nat} (hn : n < 4) :
    bits 6 (m * 4 + n) = bits 4 m ++ bits 2 n := bits_mul_add 4 2 m hn

/-- **Encoded bytes** are spelled by their letters. -/
theorem spells_encode (a : Alphabet) (bytes : List UInt8) : Spells a (encode a bytes) bytes := by
  -- Each byte is cut where a letter ends, and so is each letter where a byte ends.
  induction bytes using encode.induct with
  | case1 => exact ⟨[], 0, rfl, by decide, rfl⟩
  | case2 x =>
      have hx := x.toNat_lt
      refine ⟨[x.toNat / 4, x.toNat % 4 * 16], 4, ?_, by decide, ?_⟩
      · rw [List.map_cons, List.map_cons, getElem?_letters a (by omega),
          getElem?_letters a (by omega)]
        rfl
      · have hlast := bits_between_first (x.toNat % 4) (n := 0) (by decide)
        rw [Nat.add_zero] at hlast
        simp only [List.flatMap_cons, List.flatMap_nil, List.append_nil, bits_first x.toNat, hlast,
          bits_zero, List.append_assoc]
  | case3 x y =>
      have hx := x.toNat_lt
      have hy := y.toNat_lt
      refine ⟨[x.toNat / 4, x.toNat % 4 * 16 + y.toNat / 16, y.toNat % 16 * 4], 2, ?_, by decide, ?_⟩
      · rw [List.map_cons, List.map_cons, List.map_cons, getElem?_letters a (by omega),
          getElem?_letters a (by omega), getElem?_letters a (by omega)]
        rfl
      · have hmiddle := bits_between_first (x.toNat % 4) (n := y.toNat / 16) (by omega)
        have hlast := bits_between_second (y.toNat % 16) (n := 0) (by decide)
        rw [Nat.add_zero] at hlast
        simp only [List.flatMap_cons, List.flatMap_nil, List.append_nil, bits_first x.toNat,
          bits_second y.toNat, hmiddle, hlast, bits_zero, List.append_assoc]
  | case4 x y z rest ih =>
      have hx := x.toNat_lt
      have hy := y.toNat_lt
      have hz := z.toNat_lt
      obtain ⟨numbers, spare, hletters, hspare, hbits⟩ := ih
      refine ⟨x.toNat / 4 :: (x.toNat % 4 * 16 + y.toNat / 16) :: (y.toNat % 16 * 4 + z.toNat / 64)
        :: z.toNat % 64 :: numbers, spare, ?_, hspare, ?_⟩
      · rw [List.map_cons, List.map_cons, List.map_cons, List.map_cons, hletters,
          getElem?_letters a (by omega), getElem?_letters a (by omega),
          getElem?_letters a (by omega), getElem?_letters a (by omega)]
        rfl
      · have hsecond := bits_between_first (x.toNat % 4) (n := y.toNat / 16) (by omega)
        have hthird := bits_between_second (y.toNat % 16) (n := z.toNat / 64) (by omega)
        simp only [List.flatMap_cons, bits_first x.toNat, bits_second y.toNat, bits_third z.toNat,
          hsecond, hthird, hbits, List.append_assoc]

/-- Lists of six-bit numbers of one length are equal when their bits end to end are. -/
theorem numbers_inj {ms ns : List Nat} (hm : ∀ m ∈ ms, m < 64) (hn : ∀ n ∈ ns, n < 64)
    (hlength : ms.length = ns.length) (h : ms.flatMap (bits 6) = ns.flatMap (bits 6)) :
    ms = ns := by
  induction ms generalizing ns with
  | nil => exact (List.length_eq_zero_iff.mp hlength.symm).symm
  | cons m ms ih =>
      cases ns with
      | nil => exact nomatch hlength
      | cons n ns =>
          rw [List.flatMap_cons, List.flatMap_cons] at h
          obtain ⟨hhead, htail⟩ := List.append_inj h (by rw [length_bits, length_bits])
          rw [bits_inj (hm m List.mem_cons_self) (hn n List.mem_cons_self) hhead,
            ih (fun k hk => hm k (List.mem_cons_of_mem _ hk))
              (fun k hk => hn k (List.mem_cons_of_mem _ hk)) (Nat.succ.inj hlength) htail]

/-- **Bytes are spelled in one way only.** -/
theorem Spells.unique {a : Alphabet} {cs cs' : List Char} {bytes : List UInt8}
    (h : Spells a cs bytes) (h' : Spells a cs' bytes) : cs = cs' := by
  obtain ⟨ms, spare, hms, hspare, hbits⟩ := h
  obtain ⟨ns, spare', hns, hspare', hbits'⟩ := h'
  have hcount := congrArg List.length hbits
  have hcount' := congrArg List.length hbits'
  rw [List.length_append, length_flatMap_bits, length_flatMap_bits, List.length_replicate]
    at hcount hcount'
  -- The same number of bytes takes the same number of letters, so as many bits are left over.
  obtain rfl : spare = spare' := by omega
  have hlength : ms.length = ns.length := by omega
  have hsmall {ks : List Nat} {ls : List Char} (hks : ks.map (a.letters[·]?) = ls.map some) :
      ∀ k ∈ ks, k < 64 := by
    intro k hk
    obtain ⟨c, -, hc⟩ := List.mem_map.mp (hks ▸ List.mem_map_of_mem hk)
    exact lt_of_getElem?_letters hc.symm
  obtain rfl := numbers_inj (hsmall hms) (hsmall hns) hlength (hbits.trans hbits'.symm)
  exact List.map_inj_right (fun _ _ => Option.some.inj) |>.mp (hms.symm.trans hns)

/-- **Decoding accepts exactly** the letters that stand for bytes. -/
theorem decode_eq_some_iff {a : Alphabet} {cs : List Char} {bytes : List UInt8} :
    decode a cs = some bytes ↔ Spells a cs bytes := by
  constructor
  · intro h
    rw [eq_encode_of_decode h]
    exact spells_encode a bytes
  · intro h
    rw [h.unique (spells_encode a bytes), decode_encode]

end Depot.Base64
