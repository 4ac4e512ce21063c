import FlatSheet.Proofs.Token.Boundary

/-!
# Text that is spelled out in tokens

A token is spelled by a text that is read as the token and nothing else. Some characters separate
tokens: none has one of them after its first character, so a token ends where one of them comes next.
A text that spells tokens, with blanks between them and a separator after each, is read back as these
tokens.
-/

namespace FlatSheet

open Pattern

/-! ### Spellings -/

namespace Token

/-- The text that a token is written with. A number could be written with more digits. -/
def spelling : Token → String
  | symbol s => s.spelling
  | color t => t
  | idSelector t => t
  | classSelector t => t
  | pixels n => n.text ++ "px"
  | percentage n => n.text ++ "%"
  | scalar n => n.text
  | variableName name => name
  | identifier name => name

/-- A text that on its own is read as a token. -/
def SpelledAs (t : Token) (w : List Char) : Prop := ∃ k : Kind, LongestMatch k w w ∧ k.Writes w t

/-- There is a text that on its own is read as a token. -/
def Spelled (t : Token) : Prop := ∃ w, t.SpelledAs w

end Token

/-- A longest match is one of the text alone. -/
theorem LongestMatch.alone {k : Kind} {w text : List Char} (h : LongestMatch k w text) :
    LongestMatch k w w := by
  refine ⟨List.prefix_rfl, h.fits, ?_, h.first⟩
  intro other w' _ inFront
  exact inFront.length_le

/-- A text of a kind that no other kind of the text comes before is a longest match on its own. -/
theorem LongestMatch.of_mem {k : Kind} {w : List Char} (h : w ∈ k.pattern)
    (last : ∀ other : Kind, w ∈ other.pattern → ¬ other.Over k) : LongestMatch k w w := by
  refine ⟨List.prefix_rfl, h, ?_, ?_⟩
  · intro other w' _ inFront
    exact inFront.length_le
  · intro other hother
    obtain same | prior | prior := Kind.eq_or_over h hother
    · exact .inl same
    · exact .inr prior
    · exact absurd prior (last other hother)

/-- A symbol is spelled by its characters. -/
theorem Token.spelledAs_symbol (s : Symbol) : (symbol s).SpelledAs s.chars := by
  refine ⟨.symbol s, .of_mem rfl ?_, .symbol s _⟩
  intro other _ prior
  cases prior

theorem Token.spelled_symbol (s : Symbol) : (symbol s).Spelled := ⟨_, spelledAs_symbol s⟩

/-- A small letter with other characters of names spells an identifier, if it is no keyword. -/
theorem Token.spelled_identifier {c : Char} {others : List Char} (first : isSmall c = true)
    (rest : ∀ x ∈ others, isNameChar x = true) (free : ∀ s ∈ Symbol.words, s.chars ≠ c :: others) :
    (identifier (String.ofList (c :: others))).Spelled := by
  have fits : c :: others ∈ Kind.identifier.pattern :=
    mem_oneOf_mul.mpr ⟨c, others, first, mem_kstar_oneOf.mpr rest, rfl⟩
  refine ⟨c :: others, .identifier, .of_mem fits ?_, .identifier _⟩
  intro other hother prior
  cases prior with
  | keyword word => exact free _ word (mem_exactly.mp hother).symm

/-! ### Spellings of numbers -/

/-- The digits of a number are read as the number. -/
theorem decimal_toDigits (n : Nat) : decimal (Nat.toDigits 10 n) = n := by
  rw [← ofDigitChars_eq_decimal, Nat.ofDigitChars_ten_toDigits]

/-- An amount that is not negative is written in digits. -/
theorem Amount.toList_text {a : Amount} (h : 0 ≤ a.value) :
    a.text.toList = Nat.toDigits 10 a.value.natAbs := by
  rw [text, if_neg (Int.not_lt.mpr h), Nat.toList_repr]

/-- Digits with a unit after them are a longest match of the kind of the unit on their own. -/
theorem Kind.longestMatch_digits {k : Kind} {unit digits : List Char} (hk : k.unit? = some unit)
    (hne : digits ≠ []) (hdigits : ∀ c ∈ digits, isDigit c = true) :
    LongestMatch k (digits ++ unit) (digits ++ unit) := by
  have run : digits ∈ repeated (oneOf isDigit) := mem_repeated_oneOf.mpr ⟨hne, hdigits⟩
  have fits : digits ++ unit ∈ k.pattern := by
    cases k with
    | pixels =>
      cases hk
      exact Language.append_mem_mul run rfl
    | percentage =>
      cases hk
      exact Language.append_mem_mul run rfl
    | scalar =>
      cases hk
      rw [List.append_nil]
      exact run
    | _ => cases hk
  apply LongestMatch.of_mem fits
  intro other _ prior
  cases prior <;> cases hk

/-- The digits of an amount that is not negative, with a unit after them, are a longest match of the
kind of the unit on their own and write the amount. -/
theorem Kind.writesNumber_text {k : Kind} {unit : List Char} (hk : k.unit? = some unit) {a : Amount}
    (h : 0 ≤ a.value) :
    LongestMatch k (a.text.toList ++ unit) (a.text.toList ++ unit) ∧
      k.WritesNumber (a.text.toList ++ unit) a.value.natAbs := by
  rw [Amount.toList_text h]
  have digits : ∀ c ∈ Nat.toDigits 10 a.value.natAbs, isDigit c = true := by
    intro c hc
    exact Nat.isDigit_of_mem_toDigits (by decide) (by decide) hc
  have written : k.WritesNumber (Nat.toDigits 10 a.value.natAbs ++ unit) _ := .digits hk digits
  rw [decimal_toDigits] at written
  exact ⟨longestMatch_digits hk Nat.toDigits_ne_nil digits, written⟩

namespace Token

/-- A number that is not negative is spelled by its digits and its unit. -/
theorem spelledAs_number {k : Kind} {unit : List Char} (hk : k.unit? = some unit) {t : Token}
    {a : Amount} (h : 0 ≤ a.value)
    (writes : ∀ {w : List Char} {n : Nat}, k.WritesNumber w n → a.value = n → k.Writes w t) :
    t.SpelledAs (a.text.toList ++ unit) := by
  obtain ⟨longest, written⟩ := Kind.writesNumber_text hk h
  have value : a.value = a.value.natAbs := by omega
  exact ⟨k, longest, writes written value⟩

/-- A token that is spelled in some way is spelled by the text it is written with. -/
theorem Spelled.spelledAs_spelling {t : Token} (h : t.Spelled) : t.SpelledAs t.spelling.toList := by
  obtain ⟨w, k, longest, writes⟩ := h
  have named : t.spelling = String.ofList w → t.SpelledAs t.spelling.toList := by
    intro same
    rw [same, String.toList_ofList]
    exact ⟨k, longest, writes⟩
  cases writes with
  | symbol s =>
    rw [spelling, Symbol.spelling, String.toList_ofList]
    exact spelledAs_symbol s
  | pixels _ value =>
    rw [spelling, String.toList_append]
    exact spelledAs_number rfl (by omega) .pixels
  | percentage _ value =>
    rw [spelling, String.toList_append]
    exact spelledAs_number rfl (by omega) .percentage
  | scalar _ value =>
    rw [spelling, ← List.append_nil (String.toList _)]
    exact spelledAs_number rfl (by omega) .scalar
  | color => exact named rfl
  | idSelector => exact named rfl
  | classSelector => exact named rfl
  | variableName => exact named rfl
  | identifier => exact named rfl

end Token

/-! ### Separators -/

/-- Characters that no token has after its first. -/
def separators : List Char := [' ', '\n', '.', '#', ':', ';', '\x7b', '\x7d']

/-- A text is at its end or begins with a separator. -/
def Separated (text : List Char) : Prop := ∀ c ∈ text.head?, c ∈ separators

theorem separated_cons {c : Char} (h : c ∈ separators) (text : List Char) :
    Separated (c :: text) := by
  rintro d ⟨⟩
  exact h

/-- No separator is an inner character. -/
theorem isInner_of_mem_separators {c : Char} (h : c ∈ separators) : isInner c = false := by
  have outer : ∀ c ∈ separators, isInner c = false := by
    simp [separators, isInner, isVariableChar, isSmall, isCapital, isDigit]
  exact outer c h

/-- A match that is longest on its own is longest in front of a separator. -/
theorem LongestMatch.before_separator {k : Kind} {w rest : List Char} (h : LongestMatch k w w)
    (hk : ¬ k.IsDropped) (stop : Separated rest) : LongestMatch k w (w ++ rest) := by
  have alone : LongestMatch k w (w ++ ([] ++ [])) := by simpa using h
  exact alone.before hk fun c hc ↦ isInner_of_mem_separators (stop c hc)

/-! ### Spelled text -/

/-- A text spells tokens: each is written with its spelling and followed by a separator or the end,
and there may be blanks between them. -/
inductive Spells : List Char → List Token → Prop
  | nil : Spells [] []
  | blanks {w text : List Char} {tokens : List Token} : (∀ c ∈ w, isBlank c = true) →
    (∀ c ∈ text.head?, isBlank c = false) → Spells text tokens → Spells (w ++ text) tokens
  | token {t : Token} {text : List Char} {tokens : List Token} : t.Spelled → Separated text →
    Spells text tokens → Spells (t.spelling.toList ++ text) (t :: tokens)

namespace Spells

variable {text : List Char} {tokens : List Token}

/-- A blank may come before a spelled text. -/
theorem cons_blank {c : Char} (hc : isBlank c = true) (h : Spells text tokens) :
    Spells (c :: text) tokens := by
  have single : ∀ d ∈ [c], isBlank d = true := by simp [hc]
  cases h with
  | nil => exact blanks single nofun nil
  | @blanks w text _ hw stop h =>
    have run : ∀ d ∈ c :: w, isBlank d = true := List.forall_mem_cons.mpr ⟨hc, hw⟩
    exact blanks run stop h
  | @token t text tokens spelled stop h =>
    obtain ⟨k, longest, writes⟩ := spelled.spelledAs_spelling
    obtain ⟨a, start, hstart, head⟩ := Kind.head_of_mem longest.fits
    -- A token does not begin with a blank, so the new blank is a run of its own.
    have notBlank : isBlank a = false := by
      by_contra blank
      rw [Head.of_blank (Bool.eq_true_of_not_eq_false blank)] at head
      exact writes.not_isDropped (Kind.isDropped_iff.mpr (.inl head.symm))
    have front : ∀ d ∈ (t.spelling.toList ++ text).head?, isBlank d = false := by
      rw [hstart]
      rintro d ⟨⟩
      exact notBlank
    exact blanks single front (token spelled stop h)

/-- A spelled text is made of pieces, the longest matches at their places, that write the tokens. -/
theorem exists_pieces (h : Spells text tokens) :
    ∃ pieces, text = pieces.flatMap Piece.text ∧ AllLongest pieces [] ∧
      ∀ before, ∃ lexemes, Written before pieces lexemes ∧ lexemes.map Lexeme.token = tokens := by
  induction h with
  | nil => exact ⟨[], rfl, trivial, fun before ↦ ⟨[], .nil before, rfl⟩⟩
  | @blanks w text tokens hw stop _ ih =>
    by_cases hne : w = []
    · rw [hne]
      exact ih
    · obtain ⟨pieces, rfl, longest, written⟩ := ih
      have first := longestMatch_blanks hne hw stop
      refine ⟨⟨.blank, w⟩ :: pieces, rfl, ⟨by rwa [List.append_nil], longest⟩, ?_⟩
      intro before
      obtain ⟨lexemes, hlexemes, htokens⟩ := written (before ++ w)
      exact ⟨lexemes, .dropped (by simp [Kind.IsDropped]) hlexemes, htokens⟩
  | @token t text tokens spelled stop _ ih =>
    obtain ⟨pieces, rfl, longest, written⟩ := ih
    obtain ⟨k, alone, writes⟩ := spelled.spelledAs_spelling
    have first := alone.before_separator writes.not_isDropped stop
    refine ⟨⟨k, t.spelling.toList⟩ :: pieces, rfl, ⟨by rwa [List.append_nil], longest⟩, ?_⟩
    intro before
    obtain ⟨lexemes, hlexemes, htokens⟩ := written (before ++ t.spelling.toList)
    refine ⟨⟨t, .after before⟩ :: lexemes, .token writes hlexemes, ?_⟩
    rw [List.map_cons, htokens]

/-- A spelled text is read into the tokens that it spells. -/
theorem lex_eq (h : Spells text tokens) :
    ∃ lexemes, lex text = .ok lexemes ∧ lexemes.map Lexeme.token = tokens := by
  obtain ⟨pieces, lossless, longest, written⟩ := h.exists_pieces
  obtain ⟨lexemes, hlexemes, htokens⟩ := written []
  have decomposed : Decomposes text pieces lexemes [] :=
    ⟨by rw [List.append_nil, lossless], longest, hlexemes⟩
  exact ⟨lexemes, decomposed.lex_eq, htokens⟩

end Spells

private theorem Written.spelled {before rest : List Char} {pieces : List Piece}
    {lexemes : List Lexeme} (h : Written before pieces lexemes) (longest : AllLongest pieces rest) :
    ∀ l ∈ lexemes, l.token.Spelled := by
  induction h with
  | nil => exact List.forall_mem_nil _
  | dropped _ _ ih => exact ih longest.2
  | token writes _ ih =>
    have first : Token.Spelled _ := ⟨_, _, longest.1.alone, writes⟩
    exact List.forall_mem_cons.mpr ⟨first, ih longest.2⟩

/-- Every token that is read from a source is spelled there. -/
theorem spelled_of_lex {source : List Char} {lexemes : List Lexeme} (h : lex source = .ok lexemes) :
    ∀ l ∈ lexemes, l.token.Spelled := by
  obtain ⟨pieces, decomposed⟩ := exists_decomposes h
  exact decomposed.written.spelled decomposed.longest

end FlatSheet
