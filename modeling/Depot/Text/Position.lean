import Depot.Number.Reading

/-!
# Positions — the place that a reason ends in

A reason may end in the place it is about: the words `at line` and `column`, each with digits behind
it. Such a place is read as two numbers below 2^64 and written anew, so zeros in front of a number
are lost, and a place in line zero is no place at all and is left out.
-/

namespace Depot.Text

/-- A place in a text: a line, and a column in that line. -/
structure Position where
  line : Nat
  column : Nat
  deriving DecidableEq, Repr

/-- One more than the largest line or column. -/
def Position.limit : Nat := Nat.pow 2 64

/-- The digits of a line or a column. -/
def decimalText (n : Nat) : String := String.ofList (Nat.toDigits 10 n)

/-- The words for a place, none for a place in line zero. -/
def Position.text (p : Position) : String :=
  if p.line = 0 then ""
  else " at line " ++ decimalText p.line ++ " column " ++ decimalText p.column

/-- The number at the end of a text, behind a phrase, with what stands in front of the phrase. -/
def countBehind? (phrase : String) (cs : List Char) : Option (List Char × Nat) := do
  let reversed := cs.reverse
  let front ← phrase.toList.isSuffixOf? (reversed.dropWhile Char.isDigit).reverse
  let n ← Number.natural? (reversed.takeWhile Char.isDigit).reverse
  if n < Position.limit then some (front, n) else none

/-- The place at the end of a text, with what stands in front of it. -/
def Position.atEnd? (cs : List Char) : Option (List Char × Position) := do
  let (head, column) ← countBehind? " column " cs
  let (front, line) ← countBehind? " at line " head
  some (front, ⟨line, column⟩)

/-- A reason with the place at its end written anew. -/
def restatePosition (reason : String) : String :=
  match Position.atEnd? reason.toList with
  | some (front, p) => String.ofList front ++ p.text
  | none => reason

example : restatePosition "no at line 007 column 0" = "no at line 7 column 0" := by decide

example : restatePosition "no at line 00 column 9" = "no" := by decide

example : restatePosition "no at line  column 9" = "no at line  column 9" := by decide

end Depot.Text
