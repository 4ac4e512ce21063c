/-!
# Writing JSON

A value is laid out on lines: each item of a container has lines of its own, indented by two blanks.
-/

namespace FlatSheet.Json

/-- A digit to base sixteen. -/
def hexDigit (n : Nat) : Char := (Nat.toDigits 16 n).headD '0'

/-- A character as it stands in a string. -/
def escape (c : Char) : List Char :=
  match c with
  | '"' => ['\\', '"']
  | '\\' => ['\\', '\\']
  | '\x08' => ['\\', 'b']
  | '\x0c' => ['\\', 'f']
  | '\n' => ['\\', 'n']
  | '\r' => ['\\', 'r']
  | '\t' => ['\\', 't']
  | c =>
    if c < ' ' then ['\\', 'u', '0', '0', hexDigit (c.toNat / 16), hexDigit (c.toNat % 16)] else [c]

/-- A text as a JSON string. -/
def quoted (text : String) : String :=
  "\"" ++ String.ofList (text.toList.flatMap escape) ++ "\""

/-- The lines of a value. -/
abbrev Layout := List String

namespace Layout

/-- A string. -/
def text (s : String) : Layout := [quoted s]

/-- A natural number. -/
def number (n : Nat) : Layout := [n.repr]

/-- A comma after the last line. -/
def withComma : Layout → Layout
  | [] => []
  | [line] => [line ++ ","]
  | line :: lines => line :: withComma lines

/-- The lines of several items, with a comma after each but the last. -/
def separated : List Layout → Layout
  | [] => []
  | [item] => item
  | item :: items => withComma item ++ separated items

/-- Items between two marks. -/
def container (opening closing : String) : List Layout → Layout
  | [] => [opening ++ closing]
  | items => opening :: (separated items).map ("  " ++ ·) ++ [closing]

/-- A key in front of the first line of its value. -/
def keyed (key : String) : Layout → Layout
  | [] => []
  | line :: lines => (quoted key ++ ": " ++ line) :: lines

/-- An object of members in order. -/
def object (members : List (String × Layout)) : Layout :=
  container "\x7b" "\x7d" (members.map fun m ↦ keyed m.1 m.2)

/-- An array. -/
def array (items : List Layout) : Layout := container "[" "]" items

/-- The lines as one text. -/
def toText : Layout → String
  | [] => ""
  | [line] => line
  | line :: lines => line ++ "\n" ++ toText lines

end Layout

end FlatSheet.Json
