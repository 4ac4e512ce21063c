import FlatSheet.Source.Characters
import FlatSheet.Token

/-!
# Kinds of text

A source is made of pieces of certain kinds: three that are dropped (blanks and two sorts of comment)
and one for each sort of token. `Kind.longest?` measures the longest text of a kind at the start of a
list of characters, and `Kind.meaning` says what such a text stands for.
-/

namespace FlatSheet

/-- A blank character: space, tab, carriage return, newline or form feed. -/
def isBlank (c : Char) : Bool :=
  c = ' ' || c = '\t' || c = '\r' || c = '\n' || c = '\x0c'

/-- A character of an identifier or a selector after its first. -/
def isNameChar (c : Char) : Bool := isSmall c || isDigit c || c = '-'

/-- A character of a variable's name after its first. -/
def isVariableChar (c : Char) : Bool := isSmall c || isCapital c || isDigit c || c = '_'

/-- The kinds of text that a source is made of. -/
inductive Kind where
  | blank
  | lineComment
  | blockComment
  | symbol (s : Symbol)
  | color
  | idSelector
  | classSelector
  | pixels
  | percentage
  | scalar
  | variableName
  | identifier
deriving DecidableEq

/-- The length of the characters of a class at the start of a text, if there are any. -/
def run? (p : Char → Bool) (text : List Char) : Option Nat :=
  match (text.takeWhile p).length with
  | 0 => none
  | n + 1 => some (n + 1)

/-- The length of the digits at the start of a text together with the unit after them. -/
def numberWith? (unit text : List Char) : Option Nat :=
  (run? isDigit text).bind fun n ↦
    if unit.isPrefixOf (text.drop n) then some (n + unit.length) else none

/-- The length of a name: a first character, then a run of others. -/
def name? (first other : Char → Bool) : List Char → Option Nat
  | [] => none
  | c :: text => if first c then some (1 + (text.takeWhile other).length) else none

/-- The length of a text up to and with its first closing mark of a comment. -/
def commentEnd? : List Char → Option Nat
  | '*' :: '/' :: _ => some 2
  | _ :: text => (commentEnd? text).map (1 + ·)
  | [] => none

/-- What a piece of text stands for. -/
inductive Meaning where
  /-- Nothing: the text is dropped. -/
  | dropped
  | token (t : Token)
  /-- A number that is no amount. -/
  | tooLarge
deriving DecidableEq

namespace Kind

/-- All kinds. Of two that fit a text of the same length, the one that stands first here is taken. -/
def byPrecedence : List Kind :=
  [.blank, .lineComment, .blockComment,
    .symbol .ifWord, .symbol .elseWord, .symbol .trueWord, .symbol .falseWord,
    .symbol .assign, .symbol .colon, .symbol .semicolon, .symbol .openBrace, .symbol .closeBrace,
    .symbol .openBracket, .symbol .closeBracket, .symbol .plus, .symbol .minus, .symbol .star,
    .color, .idSelector, .classSelector, .pixels, .percentage, .scalar, .variableName, .identifier]

/-- The length of the longest text of a kind at the start of `text`. -/
def longest? : Kind → List Char → Option Nat
  | blank, text => run? isBlank text
  | lineComment, '/' :: '/' :: text => some (2 + (text.takeWhile (· ≠ '\n')).length)
  | lineComment, _ => none
  | blockComment, '/' :: '*' :: text => (commentEnd? text).map (2 + ·)
  | blockComment, _ => none
  | symbol s, text => if s.chars.isPrefixOf text then some s.chars.length else none
  | color, '#' :: text => if 6 ≤ (text.takeWhile isHexDigit).length then some 7 else none
  | color, _ => none
  | idSelector, '#' :: text => (run? isNameChar text).map (1 + ·)
  | idSelector, _ => none
  | classSelector, '.' :: text => (run? isNameChar text).map (1 + ·)
  | classSelector, _ => none
  | pixels, text => numberWith? ['p', 'x'] text
  | percentage, text => numberWith? ['%'] text
  | scalar, text => numberWith? [] text
  | variableName, text => name? isCapital isVariableChar text
  | identifier, text => name? isSmall isNameChar text

/-- The number that the digits at the start of a text write. -/
def number (text : List Char) : Nat := Nat.ofDigitChars 10 (text.takeWhile isDigit) 0

/-- A number token for the digits at the start of a text, if their number is an amount. -/
def readNumber (token : Amount → Token) (text : List Char) : Meaning :=
  match Amount.ofInt? (number text) with
  | some n => .token (token n)
  | none => .tooLarge

/-- What a text of a kind stands for. -/
def meaning : Kind → List Char → Meaning
  | blank, _ => .dropped
  | lineComment, _ => .dropped
  | blockComment, _ => .dropped
  | symbol s, _ => .token (.symbol s)
  | color, text => .token (.color (String.ofList text))
  | idSelector, text => .token (.idSelector (String.ofList text))
  | classSelector, text => .token (.classSelector (String.ofList text))
  | pixels, text => readNumber .pixels text
  | percentage, text => readNumber .percentage text
  | scalar, text => readNumber .scalar text
  | variableName, text => .token (.variableName (String.ofList text))
  | identifier, text => .token (.identifier (String.ofList text))

end Kind

private theorem run?_bounds {p : Char → Bool} {text : List Char} {n : Nat} (h : run? p text = some n) :
    0 < n ∧ n ≤ text.length := by
  unfold run? at h
  split at h
  · cases h
  · next m hm =>
    cases h
    have := (List.takeWhile_prefix p (l := text)).length_le
    omega

private theorem numberWith?_bounds {unit text : List Char} {n : Nat}
    (h : numberWith? unit text = some n) : 0 < n ∧ n ≤ text.length := by
  obtain ⟨m, hm, h⟩ := Option.bind_eq_some_iff.mp h
  have := run?_bounds hm
  split at h
  · next hu =>
    cases h
    have := (List.isPrefixOf_iff_prefix.mp hu).length_le
    rw [List.length_drop] at this
    omega
  · cases h

private theorem name?_bounds {first other : Char → Bool} {text : List Char} {n : Nat}
    (h : name? first other text = some n) : 0 < n ∧ n ≤ text.length := by
  unfold name? at h
  split at h
  · cases h
  · next c text =>
    split at h
    · cases h
      have := (List.takeWhile_prefix other (l := text)).length_le
      simp only [List.length_cons]
      omega
    · cases h

private theorem commentEnd?_le {text : List Char} {n : Nat} (h : commentEnd? text = some n) :
    n ≤ text.length := by
  fun_induction commentEnd? text generalizing n with
  | case1 => cases h; simp
  | case2 c text _ ih =>
    obtain ⟨m, hm, rfl⟩ := Option.map_eq_some_iff.mp h
    have := ih hm
    simp only [List.length_cons]
    omega
  | case3 => cases h

/-- A longest text has at least one character and lies inside the text it is taken from. -/
theorem Kind.longest?_bounds {k : Kind} {text : List Char} {n : Nat} (h : k.longest? text = some n) :
    0 < n ∧ n ≤ text.length := by
  unfold Kind.longest? at h
  split at h
  · exact run?_bounds h
  · next text =>
    cases h
    have := (List.takeWhile_prefix (· ≠ '\n') (l := text)).length_le
    simp only [List.length_cons]
    omega
  · cases h
  · obtain ⟨m, hm, rfl⟩ := Option.map_eq_some_iff.mp h
    have := commentEnd?_le hm
    simp only [List.length_cons]
    omega
  · cases h
  · split at h
    · next hp =>
      cases h
      exact ⟨List.length_pos_iff.mpr (Symbol.chars_ne_nil _), (List.isPrefixOf_iff_prefix.mp hp).length_le⟩
    · cases h
  · next text =>
    split at h
    · cases h
      have := (List.takeWhile_prefix isHexDigit (l := text)).length_le
      simp only [List.length_cons]
      omega
    · cases h
  · cases h
  · obtain ⟨m, hm, rfl⟩ := Option.map_eq_some_iff.mp h
    have := run?_bounds hm
    simp only [List.length_cons]
    omega
  · cases h
  · obtain ⟨m, hm, rfl⟩ := Option.map_eq_some_iff.mp h
    have := run?_bounds hm
    simp only [List.length_cons]
    omega
  · cases h
  · exact numberWith?_bounds h
  · exact numberWith?_bounds h
  · exact numberWith?_bounds h
  · exact name?_bounds h
  · exact name?_bounds h

end FlatSheet
