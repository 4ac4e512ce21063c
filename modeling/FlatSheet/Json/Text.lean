import FlatSheet.Json.Reading
import FlatSheet.Source.Lines

/-!
# JSON strings

A string is read from after its opening quote. `readText` gives its characters with escapes replaced;
an escaped surrogate must be one of a pair. `skipText` passes over a string of which the characters do
not matter, and does not look for pairs.
-/

namespace FlatSheet.Json

/-- The value of a digit to base sixteen. -/
def hexValue? (c : Char) : Option Nat :=
  if '0' ≤ c ∧ c ≤ '9' then some (c.toNat - '0'.toNat)
  else if 'a' ≤ c ∧ c ≤ 'f' then some (c.toNat - 'a'.toNat + 10)
  else if 'A' ≤ c ∧ c ≤ 'F' then some (c.toNat - 'A'.toNat + 10)
  else none

/-- The number that four digits to base sixteen write. -/
def hexUnit? (a b c d : Char) : Option Nat :=
  match hexValue? a, hexValue? b, hexValue? c, hexValue? d with
  | some a, some b, some c, some d => some (((a * 16 + b) * 16 + c) * 16 + d)
  | _, _, _, _ => none

/-- Read four digits to base sixteen. The text ends too early if it has fewer than four bytes. -/
def readUnit : (text : List Char) → TextReads Nat text
  | a :: b :: c :: d :: _ =>
    match hexUnit? a b c d with
    | some n => .past a (.past b (.past c (.past d (.done n))))
    | none => .error .malformed
  | text => if byteCount text < 4 then .error .truncated else .error .malformed

/-- The first unit of a surrogate pair. -/
def isLeading (n : Nat) : Bool := 0xD800 ≤ n && n ≤ 0xDBFF

/-- The second unit of a surrogate pair. -/
def isTrailing (n : Nat) : Bool := 0xDC00 ≤ n && n ≤ 0xDFFF

/-- The character that a surrogate pair stands for. -/
def ofPair (leading trailing : Nat) : Char :=
  Char.ofNat (0x10000 + (leading - 0xD800) * 0x400 + (trailing - 0xDC00))

/-- Read the digits of a character, and those of the other half of a pair. -/
def readUnicode (text : List Char) : TextReads Char text :=
  (readUnit text).andThen fun unit ↦
    if isTrailing unit.value then .error .malformed
    else if isLeading unit.value then
      (mark '\\' unit.rest).andThen fun slash ↦
      (mark 'u' slash.rest).andThen fun letter ↦
      (readUnit letter.rest).andThen fun other ↦
      if isTrailing other.value then .done (ofPair unit.value other.value)
      else .error .malformed
    else .done (Char.ofNat unit.value)

/-- The character that a letter or a mark after a backslash stands for. -/
def escaped? : Char → Option Char
  | '"' => some '"'
  | '\\' => some '\\'
  | '/' => some '/'
  | 'b' => some '\x08'
  | 'f' => some '\x0c'
  | 'n' => some '\n'
  | 'r' => some '\r'
  | 't' => some '\t'
  | _ => none

/-- Read what follows a backslash. -/
def readEscape : (text : List Char) → TextReads Char text
  | [] => .error .truncated
  | c :: text =>
    if c = 'u' then .past c (readUnicode text)
    else
      match escaped? c with
      | some e => .past c (.done e)
      | none => .error .malformed

/-- Read characters up to and with the closing quote. -/
def readChars : (text : List Char) → TextReads (List Char) text
  | [] => .error .truncated
  | c :: text =>
    if c = '"' then .past c (.done [])
    else if c = '\\' then
      .past c <| (readEscape text).andThen fun e ↦
        (readChars e.rest).andThen fun others ↦ .done (e.value :: others.value)
    else if c < ' ' then .error .malformed
    else .past c <| (readChars text).andThen fun others ↦ .done (c :: others.value)
termination_by text => text.length
decreasing_by
  · have := e.length_le
    simp only [List.length_cons]
    omega
  · simp

/-- Read a string from after its opening quote. -/
def readText (text : List Char) : TextReads String text :=
  (readChars text).andThen fun chars ↦ .done (String.ofList chars.value)

/-- Pass over what follows a backslash. -/
def skipEscape : (text : List Char) → TextReads Unit text
  | [] => .error .truncated
  | c :: text =>
    if c = 'u' then .past c <| (readUnit text).andThen fun _ ↦ .done ()
    else if (escaped? c).isSome then .past c (.done ())
    else .error .malformed

/-- Pass over a string from after its opening quote. -/
def skipText : (text : List Char) → TextReads Unit text
  | [] => .error .truncated
  | c :: text =>
    if c = '"' then .past c (.done ())
    else if c = '\\' then .past c <| (skipEscape text).andThen fun e ↦ skipText e.rest
    else if c < ' ' then .error .malformed
    else .past c (skipText text)
termination_by text => text.length
decreasing_by
  · have := e.length_le
    simp only [List.length_cons]
    omega
  · simp

end FlatSheet.Json
