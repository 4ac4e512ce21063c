import FlatSheet.Json.Reading
import FlatSheet.Source.Characters

/-!
# JSON numbers

`Number.read` reads the parts of a number. A number in the place of a value has a range, that of
doubles, while one that is only passed over has none. Of its digits as many count as sixty-four bits
hold and the others only move the point; these digits are rounded to a double, and once more when the
power of ten is applied. `Number.tooLarge` tells whether that leaves the finite doubles.
-/

namespace FlatSheet.Json

/-- The double that is nearest to a natural number, of two equally near ones the even one, for numbers
below the largest double. -/
def nearestDouble (n : Nat) : Nat :=
  if n < 9007199254740992 then n
  else
    let unit := Nat.pow 2 (n.log2 - 52)
    let quotient := n / unit
    let remainder := n % unit
    let up := unit < 2 * remainder ∨ 2 * remainder = unit ∧ quotient % 2 = 1
    (if up then quotient + 1 else quotient) * unit

/-- The least number that rounds to no finite double. -/
def doubleBound : Nat := Nat.pow 2 1024 - Nat.pow 2 970

/-- The parts of a number; its sign does not matter here. -/
structure Number where
  whole : List Char
  fraction : List Char
  exponent : Int
deriving DecidableEq

namespace Number

/-- Read digits, at least one. At the end of the text the fault is `atEnd`. -/
def readDigits (atEnd : Fault) : (text : List Char) → TextReads (List Char) text
  | [] => .error atEnd
  | c :: text =>
    if isDigit c then
      .ok ⟨(c :: text).takeWhile isDigit, (c :: text).dropWhile isDigit,
        (List.dropWhile_sublist _).length_le⟩
    else .error .malformed

/-- Read the digits before the point, of which a zero is not the first of several. -/
def readWhole (atEnd : Fault) : (text : List Char) → TextReads (List Char) text
  | '0' :: text => if text.head?.any isDigit then .error .malformed else .past '0' (.done ['0'])
  | text => readDigits atEnd text

/-- Read a point and digits, if there is a point. -/
def readFraction (atEnd : Fault) : (text : List Char) → TextReads (List Char) text
  | '.' :: text => .past '.' (readDigits atEnd text)
  | _ => .done []

/-- Read the sign of a power, if there is one; the value tells whether it is a minus. -/
def readSign : (text : List Char) → TextReads Bool text
  | '-' :: _ => .past '-' (.done true)
  | '+' :: _ => .past '+' (.done false)
  | _ => .done false

/-- Read a power of ten, if there is one. -/
def readExponent (atEnd : Fault) : (text : List Char) → TextReads Int text
  | [] => .done 0
  | c :: text =>
    if c = 'e' ∨ c = 'E' then
      .past c <| (readSign text).andThen fun negative ↦
        (readDigits atEnd negative.rest).andThen fun digits ↦
        let n : Int := Nat.ofDigitChars 10 digits.value 0
        .done (if negative.value then -n else n)
    else .done 0

/-- Read a minus, if there is one. -/
def readMinus : (text : List Char) → TextReads Unit text
  | '-' :: _ => .past '-' (.done ())
  | _ => .done ()

/-- Read a number. If the text ends inside it the fault is `atEnd`. -/
def read (atEnd : Fault) (text : List Char) : TextReads Number text :=
  (readMinus text).andThen fun minus ↦
  (readWhole atEnd minus.rest).andThen fun whole ↦
  (readFraction atEnd whole.rest).andThen fun fraction ↦
  (readExponent atEnd fraction.rest).andThen fun exponent ↦
  .done ⟨whole.value, fraction.value, exponent.value⟩

/-- Append digits to a number as long as it stays below `2 ^ 64`; the second part is the digits left. -/
def absorb (n : Nat) : List Char → Nat × List Char
  | [] => (n, [])
  | c :: digits =>
    let m := Nat.ofDigitChars 10 [c] n
    if m < 18446744073709551616 then absorb m digits else (n, c :: digits)

/-- Whether the value of a number is larger than any finite double. -/
def tooLarge (n : Number) : Bool :=
  let whole := absorb 0 n.whole
  let digits := absorb whole.1 n.fraction
  let power := n.exponent + whole.2.length - (n.fraction.length - digits.2.length : Nat)
  if digits.1 = 0 ∨ power < 0 then false
  else if 308 < power then true
  else doubleBound ≤ nearestDouble digits.1 * nearestDouble (Nat.pow 10 power.toNat)

end Number

end FlatSheet.Json
