import Depot.Json.Literal

/-!
# JSON tokens — reading text made of objects and strings

**`Token.scan`** cuts a text into the four marks of an object and its string literals, and passes
over blanks between them. It fails on any other character outside a literal, on a literal without
an end, on a control character inside one, and on an escape that stands for no character, an
unpaired half of a pair among them.
-/

namespace Depot.Json

/-- A mark of an object, or a string literal with its text. -/
inductive Token where
  | opening
  | closing
  | colon
  | comma
  | text (s : String)
  deriving DecidableEq, Repr

namespace Token

/-- Whether a character may stand between tokens. -/
def isBlank (c : Char) : Bool := c = ' ' || c = '\t' || c = '\n' || c = '\r'

/-- The mark that a character is. -/
def mark? (c : Char) : Option Token :=
  if c = '{' then some .opening
  else if c = '}' then some .closing
  else if c = ':' then some .colon
  else if c = ',' then some .comma
  else none

/-- The tokens of the characters ahead. Inside a literal the first argument holds its characters so
far, the last one first. -/
def scanFrom : Option (List Char) → List Char → Option (List Token)
  | none, [] => some []
  | some _, [] => none
  | none, c :: rest =>
    if isBlank c then scanFrom none rest
    else if c = '"' then scanFrom (some []) rest
    else match mark? c with
      | some t => (scanFrom none rest).map (t :: ·)
      | none => none
  | some read, c :: rest =>
    if c = '"' then (scanFrom none rest).map (.text (String.ofList read.reverse) :: ·)
    else if c = '\\' then
      match rest with
      | 'u' :: h₁ :: h₂ :: h₃ :: h₄ :: rest =>
        match Literal.hexUnit? h₁ h₂ h₃ h₄ with
        | none => none
        | some u =>
          if Literal.isLeading u then
            match rest with
            | '\\' :: 'u' :: h₅ :: h₆ :: h₇ :: h₈ :: rest =>
              match Literal.hexUnit? h₅ h₆ h₇ h₈ with
              | none => none
              | some v =>
                if Literal.isTrailing v then scanFrom (some (Literal.pairChar u v :: read)) rest
                else none
            | _ => none
          else if Literal.isTrailing u then none
          else scanFrom (some (Char.ofNat u :: read)) rest
      | e :: rest =>
        match Literal.unescape? e with
        | some c => scanFrom (some (c :: read)) rest
        | none => none
      | [] => none
    else if c.toNat < 0x20 then none
    else scanFrom (some (c :: read)) rest

/-- The tokens of a text. -/
def scan (cs : List Char) : Option (List Token) := scanFrom none cs

end Token

end Depot.Json
