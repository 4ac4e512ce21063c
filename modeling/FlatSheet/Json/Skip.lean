import FlatSheet.Json.Number
import FlatSheet.Json.Text

/-!
# Values that are not wanted

`skipValue` passes over a value of any kind, which must be JSON. What may come next holds a list of the
containers that are open, so values may be nested to any depth. `refuse` is what is wrong with a value
that has not the type that is wanted: a word, a number or a string has to be JSON for that to be its
type, while for a container its opening mark is enough.
-/

namespace FlatSheet.Json

/-- A kind of value that holds others. -/
inductive Container where
  | array
  | object
deriving DecidableEq

/-- The mark that closes a container. -/
def Container.close : Container → Char
  | array => ']'
  | object => '\x7d'

/-- What may come next when a value is passed over, inside the containers that are open, innermost
first. -/
inductive Expected where
  | value (enclosing : List Container)
  /-- The first item of a container, or its closing mark. -/
  | firstItem (k : Container) (enclosing : List Container)
  /-- A comma and another item of a container, or its closing mark. -/
  | nextItem (k : Container) (enclosing : List Container)
deriving DecidableEq

/-- What comes after a value. There is nothing to come after one that is in no container. -/
def Expected.after? : List Container → Option Expected
  | [] => none
  | k :: enclosing => some (nextItem k enclosing)

/-- Without reading a character, what may come next changes only to something of lower rank. -/
def Expected.rank : Option Expected → Nat
  | some (firstItem _ _) => 2
  | some (value _) => 1
  | _ => 0

@[simp] theorem Expected.rank_after? (enclosing : List Container) :
    Expected.rank (Expected.after? enclosing) = 0 := by
  cases enclosing <;> rfl

/-- Pass over a value that is no container. -/
def skipScalar : (text : List Char) → TextReads Unit text
  | [] => .error .truncated
  | c :: text =>
    if c = '"' then .past c (skipText text)
    else if c = '-' ∨ isDigit c then
      (Number.read .malformed (c :: text)).andThen fun _ ↦ .done ()
    else readWord (c :: text)

/-- Pass over the key of a member and the colon after it. -/
def skipKey (text : List Char) : TextReads Unit text :=
  (spacedMark '"' text).andThen fun quote ↦
  (skipText quote.rest).andThen fun key ↦
  spacedMark ':' key.rest

/-- Pass over what comes before the value of an item: its key, in an object. -/
def Container.skipToValue : Container → (text : List Char) → TextReads Unit text
  | array, _ => .done ()
  | object, text => skipKey text

/-- Pass over what may come next and all that follows it in the value that `text` starts with. Of the
text, `left` is not yet read. -/
def skipFrom {text : List Char} : Option Expected → (left : List Char) →
    left.length ≤ text.length → TextReads Unit text
  | none, left, h => .ok ⟨(), left, h⟩
  | some _, [], _ => .error .truncated
  | some expected, c :: left, h =>
    have h_left := Nat.le_of_succ_le h
    if isSpace c then skipFrom (some expected) left h_left
    else
      match expected with
      | .value enclosing =>
        if c = '[' then skipFrom (some (.firstItem .array enclosing)) left h_left
        else if c = '\x7b' then skipFrom (some (.firstItem .object enclosing)) left h_left
        else
          match skipScalar (c :: left) with
          | .error e => .error e
          | .ok r => skipFrom (Expected.after? enclosing) r.rest (Nat.le_trans r.length_le h)
      | .firstItem k enclosing =>
        if c = k.close then skipFrom (Expected.after? enclosing) left h_left
        else
          match k.skipToValue (c :: left) with
          | .error e => .error e
          | .ok r => skipFrom (some (.value (k :: enclosing))) r.rest (Nat.le_trans r.length_le h)
      | .nextItem k enclosing =>
        if c = k.close then skipFrom (Expected.after? enclosing) left h_left
        else if c = ',' then
          match k.skipToValue left with
          | .error e => .error e
          | .ok r =>
            skipFrom (some (.value (k :: enclosing))) r.rest (Nat.le_trans r.length_le h_left)
        else .error .malformed
termination_by expected left => (left.length, Expected.rank expected)
decreasing_by all_goals grind [Reading.length_le, Expected.rank, Expected.rank_after?]

/-- Pass over a value. -/
def skipValue (text : List Char) : TextReads Unit text :=
  skipFrom (some (.value [])) text (Nat.le_refl _)

/-- What is wrong with the value at the start of a text, whose type is not the one that is wanted. -/
def refuse : List Char → Fault
  | [] => .truncated
  | c :: text =>
    if c = '[' ∨ c = '\x7b' then .wrongType
    else if c = '"' then
      match readText text with
      | .error e => e
      | .ok _ => .wrongType
    else if c = '-' ∨ isDigit c then
      match Number.read .truncated (c :: text) with
      | .error e => e
      | .ok n => if n.value.tooLarge then .malformed else .wrongType
    else
      match readWord (c :: text) with
      | .error e => e
      | .ok _ => .wrongType

end FlatSheet.Json
