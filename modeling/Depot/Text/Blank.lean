/-!
# Blanks — the white space at the ends of a text

A character is blank when it has the property White_Space; the twenty-five of them are listed here.
`Text.trim` takes the blanks off both ends of a text and leaves those between other characters.
-/

namespace Depot.Text

/-- Whether a character has the property White_Space. -/
def isBlank (c : Char) : Bool :=
  let n := c.toNat
  (0x0009 ≤ n && n ≤ 0x000D) || n == 0x0020 || n == 0x0085 || n == 0x00A0 || n == 0x1680 ||
    (0x2000 ≤ n && n ≤ 0x200A) || n == 0x2028 || n == 0x2029 || n == 0x202F || n == 0x205F ||
    n == 0x3000

/-- Whether a text has no character that is not blank. -/
def isAllBlank (s : String) : Bool := s.toList.all isBlank

/-- Characters without the blanks at their end. -/
def trimEnd (cs : List Char) : List Char := (cs.reverse.dropWhile isBlank).reverse

/-- A text without the blanks at either end. -/
def trim (s : String) : String := String.ofList (trimEnd (s.toList.dropWhile isBlank))

example : trim "\u3000 a b\u0085\n" = "a b" := by decide

example : trim "\u200B" = "\u200B" := by decide

end Depot.Text
