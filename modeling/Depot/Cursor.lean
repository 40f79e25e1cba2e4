import Depot.Error
import Depot.Base64
import Depot.Json.Printer
import Depot.Json.Token

/-!
# Cursors — a key as opaque text

A cursor is the last key of a page as a JSON object, sorted by name, in base64 that can stand in an
address unescaped. Each attribute is an object with the letter of its kind and its content; bytes
are base64 inside. **`Cursor.encode`** fails on attributes of another kind, **`Cursor.decode`** on
every text that is not of this form.
-/

namespace Depot.Cursor

/-- The kind and the content of an attribute that can be part of a key. -/
def scalar? : AttributeValue → Option (ScalarKind × String)
  | .text s => some (.text, s)
  | .number digits => some (.number, digits)
  | .binary bytes => some (.binary, String.ofList (Base64.encode .urlSafe bytes))
  | _ => none

/-- The kinds and contents of the attributes of a key. -/
def scalars : List (String × AttributeValue) → Except Error (List (String × ScalarKind × String))
  | [] => .ok []
  | (name, a) :: rest => match scalar? a with
    | none => .error (.unsupportedCursorValue name)
    | some scalar => do
      let others ← scalars rest
      .ok ((name, scalar) :: others)

/-- The JSON document of the kinds and contents of a key. -/
def document (entries : List (String × ScalarKind × String)) : Json :=
  .object (entries.map fun (name, kind, content) =>
    (name, .object [(kind.letter, .text content)]))

/-- The bytes of a text. -/
def bytesOf (s : String) : List UInt8 := s.toUTF8.data.toList

/-- The text of bytes. -/
def textOf? (bytes : List UInt8) : Option String := String.fromUTF8? ⟨bytes.toArray⟩

/-- The cursor of a key. -/
def encode (key : Attributes) : Except Error String := do
  let entries ← scalars key.entries
  .ok (String.ofList (Base64.encode .urlSafe (bytesOf (document entries).render)))

/-- The members that tokens spell, up to the end of the object they are in. -/
def readMembers : List Json.Token → Option (List (String × ScalarKind × String))
  | .text name :: .colon :: .opening :: .text letter :: .colon :: .text content :: .closing ::
      rest =>
    match ScalarKind.ofLetter? letter with
    | none => none
    | some kind => match rest with
      | [.closing] => some [(name, kind, content)]
      | .comma :: rest => (readMembers rest).map ((name, kind, content) :: ·)
      | _ => none
  | _ => none

/-- The members of the object that tokens spell. -/
def readObject : List Json.Token → Option (List (String × ScalarKind × String))
  | [.opening, .closing] => some []
  | .opening :: rest => readMembers rest
  | _ => none

/-- The attribute of a kind and a content. -/
def value? : ScalarKind × String → Option AttributeValue
  | (.text, content) => some (.text content)
  | (.number, content) => some (.number content)
  | (.binary, content) => (Base64.decode .urlSafe content.toList).map .binary

/-- The attributes of kinds and contents. -/
def values? : List (String × ScalarKind × String) → Option (List (String × AttributeValue))
  | [] => some []
  | (name, scalar) :: rest => match value? scalar with
    | none => none
    | some a => (values? rest).map ((name, a) :: ·)

/-- The kinds and contents that the text of a document spells. -/
def read? (text : String) : Option (List (String × ScalarKind × String)) :=
  (Json.Token.scan text.toList).bind readObject

/-- The key of a cursor. Of several members of one name the last one counts. -/
def decode (cursor : String) : Except Error Attributes :=
  match Base64.decode .urlSafe cursor.toList with
  | none => .error (.invalidCursor .base64)
  | some bytes => match (textOf? bytes).bind read? with
    | none => .error (.invalidCursor .json)
    | some members => match values? (Mapping.ofList members).entries with
      | none => .error (.invalidCursor .base64)
      | some entries => .ok (Mapping.ofList entries)

end Depot.Cursor
