import FlatSheet.Json.Skip
import FlatSheet.Prelude

/-!
# The document of a prelude

A prelude is written as a JSON object with a member `variables`, an object of strings, or as an array
with that object as its only element. Without the member, or the element, there are no variables. Other
members may be anything. The document is read from its start and the first fault is reported; it is a
fault of type if `variables` comes a second time.
-/

namespace FlatSheet

namespace Json

/-- Read what leads to the key of a member, from after a first character that is neither blank nor the
mark that closes the object: the quote itself, or a comma with the quote after it. -/
def readQuote (first : Bool) (c : Char) (text : List Char) : TextReads Unit text :=
  if first then
    if c = '"' then .done () else .error .malformed
  else
    if c = ',' then spacedMark '"' text else .error .malformed

/-- Read the members of an object from after its opening mark. `member` reads a member from after its
key and makes the next state of the last one. -/
def foldMembers {σ : Type} (member : σ → String → (text : List Char) → TextReads σ text)
    (first : Bool) (state : σ) : (text : List Char) → TextReads σ text
  | [] => .error .truncated
  | c :: text =>
    if isSpace c then .past c (foldMembers member first state text)
    else if c = '\x7d' then .past c (.done state)
    else
      .past c <| (readQuote first c text).andThen fun quote ↦
        (readText quote.rest).andThen fun key ↦
        (member state key.value key.rest).andThen fun next ↦
        foldMembers member false next.value next.rest
termination_by text => text.length
decreasing_by all_goals simp only [List.length_cons]; grind [Reading.length_le]

/-- Read a string after blanks. -/
def readString (text : List Char) : TextReads String text :=
  (spaces text).andThen fun start ↦
  match start.rest with
  | '"' :: inside => .past '"' (readText inside)
  | other => .error (refuse other)

end Json

namespace Prelude

open Json

/-- The entries of a prelude, in the order of the document. -/
abbrev Entries := List (String × String)

/-- Read one variable from after its name, and put it in front of those before it. -/
def readVariable (entries : Entries) (name : String) (text : List Char) : TextReads Entries text :=
  (spacedMark ':' text).andThen fun colon ↦
  (readString colon.rest).andThen fun value ↦
  .done ((name, value.value) :: entries)

/-- Read an object of strings after blanks. -/
def readVariables (text : List Char) : TextReads Entries text :=
  (spaces text).andThen fun start ↦
  match start.rest with
  | '\x7b' :: inside =>
    .past '\x7b' <| (foldMembers readVariable true [] inside).andThen fun entries ↦
      .done entries.value.reverse
  | other => .error (refuse other)

/-- Read a member of the document from after its key. The state is the variables, once they are
found. -/
def readField (found : Option Entries) (key : String) (text : List Char) :
    TextReads (Option Entries) text :=
  if key = "variables" then
    if found.isSome then .error .wrongType
    else
      (spacedMark ':' text).andThen fun colon ↦
      (readVariables colon.rest).andThen fun entries ↦
      .done (some entries.value)
  else
    (spacedMark ':' text).andThen fun colon ↦
    (skipValue colon.rest).andThen fun _ ↦
    .done found

/-- Read the elements of the document from after the mark that opens it as an array. -/
def readElements (text : List Char) : TextReads Entries text :=
  (spaces text).andThen fun start ↦
  match start.rest with
  | [] => .error .truncated
  | ']' :: _ => .past ']' (.done [])
  | other =>
    (readVariables other).andThen fun entries ↦
    (spacedMark ']' entries.rest).andThen fun _ ↦
    .done entries.value

/-- Read the value that the document holds. -/
def readDocument (text : List Char) : TextReads Entries text :=
  (spaces text).andThen fun start ↦
  match start.rest with
  | '\x7b' :: inside =>
    .past '\x7b' <| (foldMembers readField true none inside).andThen fun found ↦
      .done (found.value.getD [])
  | '[' :: inside => .past '[' (readElements inside)
  | other => .error (refuse other)

/-- The entries that a document writes; after its value there are only blanks. -/
def entriesOf (document : String) : Except Fault Entries :=
  match readDocument document.toList with
  | .error e => .error e
  | .ok r => if r.rest.all isSpace then .ok r.value else .error .malformed

/-- The name of a document that is not in a file. -/
def inline : String := "<inline>"

/-- The prelude that a document writes. In errors of its JSON it is called `path`. -/
def ofJson (path document : String) : Except PreludeError Prelude :=
  match entriesOf document with
  | .error fault => .error (.json path fault)
  | .ok entries => ofEntries entries

/-- The prelude in a file, whose text could be had or not for some reason. -/
def ofFile (path : String) : Except String String → Except PreludeError Prelude
  | .error reason => .error (.unreadable path reason)
  | .ok document => ofJson path document

end Prelude

end FlatSheet
