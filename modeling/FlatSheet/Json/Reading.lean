import FlatSheet.Reading

/-!
# Reading JSON

A JSON text is read from its start on, and the first thing wrong with it decides what is reported: the
text ends too early, it is not JSON from here on, or a value is not of the type that is wanted.
-/

namespace FlatSheet.Json

/-- What is wrong with a JSON text. -/
inductive Fault where
  /-- The text ends too early. -/
  | truncated
  /-- The text is not JSON. -/
  | malformed
  /-- A value has a type that is not wanted in its place. -/
  | wrongType
deriving DecidableEq

/-- The result of a reader of JSON. -/
abbrev TextReads (α : Type) (text : List Char) := Reads Fault α text

/-- A blank: space, tab, newline or carriage return. -/
def isSpace (c : Char) : Bool := c = ' ' || c = '\t' || c = '\n' || c = '\r'

/-- A text is not longer without the blanks it starts with. -/
theorem length_dropSpaces_le (text : List Char) : (text.dropWhile isSpace).length ≤ text.length :=
  (List.dropWhile_sublist _).length_le

/-- Read blanks, if there are any. -/
def spaces (text : List Char) : TextReads Unit text :=
  .ok ⟨(), text.dropWhile isSpace, length_dropSpaces_le text⟩

/-- Read one character. -/
def mark (c : Char) : (text : List Char) → TextReads Unit text
  | [] => .error .truncated
  | d :: _ => if d = c then .past d (.done ()) else .error .malformed

/-- Read one character after blanks. -/
def spacedMark (c : Char) (text : List Char) : TextReads Unit text :=
  (spaces text).andThen fun start ↦ mark c start.rest

/-- Read the characters of a word. -/
def word : List Char → (text : List Char) → TextReads Unit text
  | [], _ => .done ()
  | _ :: _, [] => .error .truncated
  | c :: letters, d :: text => if d = c then .past d (word letters text) else .error .malformed

/-- Read one of the words `null`, `true` and `false`, which their first letter tells apart. -/
def readWord : (text : List Char) → TextReads Unit text
  | 'n' :: text => .past 'n' (word ['u', 'l', 'l'] text)
  | 't' :: text => .past 't' (word ['r', 'u', 'e'] text)
  | 'f' :: text => .past 'f' (word ['a', 'l', 's', 'e'] text)
  | [] => .error .truncated
  | _ => .error .malformed

end FlatSheet.Json
