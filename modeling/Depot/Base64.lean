/-!
# Base64 — three bytes as four characters

`Base64.encode` writes three bytes as four characters of a sixty-four letter **`Alphabet`**, one or
two bytes at the end as two or three characters, and no padding. `Base64.decode` reads exactly such
texts: a letter outside the alphabet, a single character at the end, or a bit that no byte owns
makes it fail.
-/

namespace Depot.Base64

/-- The two usual alphabets, which differ in their last two letters. -/
inductive Alphabet where
  | standard
  | urlSafe
  deriving DecidableEq, Repr

/-- The letter before last. -/
def Alphabet.plus : Alphabet → Char
  | .standard => '+'
  | .urlSafe => '-'

/-- The last letter. -/
def Alphabet.slash : Alphabet → Char
  | .standard => '/'
  | .urlSafe => '_'

/-- The letter of a number below 64. -/
def Alphabet.letter (a : Alphabet) (n : Nat) : Char :=
  if n < 26 then Char.ofNat ('A'.toNat + n)
  else if n < 52 then Char.ofNat ('a'.toNat + (n - 26))
  else if n < 62 then Char.ofNat ('0'.toNat + (n - 52))
  else if n = 62 then a.plus
  else a.slash

/-- The number of a letter. -/
def Alphabet.number? (a : Alphabet) (c : Char) : Option Nat :=
  if c.isUpper then some (c.toNat - 'A'.toNat)
  else if c.isLower then some (c.toNat - 'a'.toNat + 26)
  else if c.isDigit then some (c.toNat - '0'.toNat + 52)
  else if c = a.plus then some 62
  else if c = a.slash then some 63
  else none

/-- The text of bytes, without padding. -/
def encode (a : Alphabet) : List UInt8 → List Char
  | [] => []
  | [x] => [a.letter (x.toNat / 4), a.letter (x.toNat % 4 * 16)]
  | [x, y] =>
    [a.letter (x.toNat / 4), a.letter (x.toNat % 4 * 16 + y.toNat / 16),
      a.letter (y.toNat % 16 * 4)]
  | x :: y :: z :: rest =>
    a.letter (x.toNat / 4) :: a.letter (x.toNat % 4 * 16 + y.toNat / 16) ::
      a.letter (y.toNat % 16 * 4 + z.toNat / 64) :: a.letter (z.toNat % 64) :: encode a rest

/-- The bytes of a text without padding, in which no bit is left over. -/
def decode (a : Alphabet) : List Char → Option (List UInt8)
  | [] => some []
  | [_] => none
  | [c, d] => do
    let p ← a.number? c
    let q ← a.number? d
    if q % 16 = 0 then some [UInt8.ofNat (p * 4 + q / 16)] else none
  | [c, d, e] => do
    let p ← a.number? c
    let q ← a.number? d
    let r ← a.number? e
    if r % 4 = 0 then
      some [UInt8.ofNat (p * 4 + q / 16), UInt8.ofNat (q % 16 * 16 + r / 4)]
    else none
  | c :: d :: e :: f :: rest => do
    let p ← a.number? c
    let q ← a.number? d
    let r ← a.number? e
    let s ← a.number? f
    let bytes ← decode a rest
    some (UInt8.ofNat (p * 4 + q / 16) :: UInt8.ofNat (q % 16 * 16 + r / 4) ::
      UInt8.ofNat (r % 4 * 64 + s) :: bytes)

/-- A text filled up with equals signs to a multiple of four characters. -/
def pad (cs : List Char) : List Char := cs ++ List.replicate ((4 - cs.length % 4) % 4) '='

/-- The bytes of a text in the standard alphabet that is filled up with equals signs. -/
def decodePadded (cs : List Char) : Option (List UInt8) :=
  let bare := cs.takeWhile (· ≠ '=')
  if cs = pad bare then decode .standard bare else none

example : String.ofList (encode .urlSafe [0xFF, 0xFE, 0xFD, 0x00]) = "__79AA" := by decide

example : decode .urlSafe "_x".toList = none ∧ decode .urlSafe "A".toList = none := by decide

end Depot.Base64
