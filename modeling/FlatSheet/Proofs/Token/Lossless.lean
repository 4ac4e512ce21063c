import Mathlib.Data.Nat.Digits.Defs
import FlatSheet.Proofs.Source.Positions
import FlatSheet.Proofs.Token.Munch
import FlatSheet.Token.Lexeme

/-!
# Nothing is lost between the lexemes

A source is read by taking the longest match off its front, again and again. Its pieces make up the
source: each is dropped whole, or is a lexeme at the position where the piece starts. Reading stops at
the end of the source, where no kind of text has a match, or at a number that is no amount.
-/

namespace FlatSheet

open Pattern

/-! ### What a piece writes -/

/-- The kinds of text that are dropped. -/
def Kind.IsDropped (k : Kind) : Prop := k ∈ [Kind.blank, .lineComment, .blockComment]

/-- The unit of the numbers of a kind. -/
def Kind.unit? : Kind → Option (List Char)
  | pixels => some ['p', 'x']
  | percentage => some ['%']
  | scalar => some []
  | _ => none

/-- The number that digits write to base ten. -/
def decimal (digits : List Char) : Nat :=
  Nat.ofDigits 10 (digits.reverse.map fun c ↦ c.toNat - '0'.toNat)

/-- A text of a kind of number is its digits and the unit of the kind. -/
inductive Kind.WritesNumber (k : Kind) : List Char → Nat → Prop
  | digits {digits unit : List Char} : k.unit? = some unit → (∀ c ∈ digits, isDigit c = true) →
    WritesNumber k (digits ++ unit) (decimal digits)

/-- The token that a text of a kind writes. A name, a color or a selector is the text itself. -/
inductive Kind.Writes : Kind → List Char → Token → Prop
  | symbol (s : Symbol) (w : List Char) : Writes (.symbol s) w (.symbol s)
  | color (w : List Char) : Writes .color w (.color (String.ofList w))
  | idSelector (w : List Char) : Writes .idSelector w (.idSelector (String.ofList w))
  | classSelector (w : List Char) : Writes .classSelector w (.classSelector (String.ofList w))
  | variableName (w : List Char) : Writes .variableName w (.variableName (String.ofList w))
  | identifier (w : List Char) : Writes .identifier w (.identifier (String.ofList w))
  | pixels {w : List Char} {n : Nat} {a : Amount} : Kind.pixels.WritesNumber w n → a.value = n →
    Writes .pixels w (.pixels a)
  | percentage {w : List Char} {n : Nat} {a : Amount} : Kind.percentage.WritesNumber w n →
    a.value = n → Writes .percentage w (.percentage a)
  | scalar {w : List Char} {n : Nat} {a : Amount} : Kind.scalar.WritesNumber w n → a.value = n →
    Writes .scalar w (.scalar a)

/-- The greatest number that is an amount. -/
def Amount.greatest : Nat := 2 ^ 63 - 1

/-! ### Cutting a source -/

/-- Each of some pieces is the longest match at its place, before the pieces after it and the rest. -/
def AllLongest : List Piece → List Char → Prop
  | [], _ => True
  | p :: pieces, rest =>
    LongestMatch p.kind p.text (p.text ++ (pieces.flatMap Piece.text ++ rest)) ∧
      AllLongest pieces rest

/-- Pieces that come after some text, and the lexemes that they write: a piece is dropped, or writes
a token at the position after what comes before it. -/
inductive Written : List Char → List Piece → List Lexeme → Prop
  | nil (before : List Char) : Written before [] []
  | dropped {before : List Char} {p : Piece} {pieces : List Piece} {lexemes : List Lexeme} :
    p.kind.IsDropped → Written (before ++ p.text) pieces lexemes →
    Written before (p :: pieces) lexemes
  | token {before : List Char} {p : Piece} {t : Token} {pieces : List Piece}
    {lexemes : List Lexeme} : p.kind.Writes p.text t → Written (before ++ p.text) pieces lexemes →
    Written before (p :: pieces) (⟨t, .after before⟩ :: lexemes)

/-- A source up to the rest of it: pieces that are the longest matches at their places and that write
some lexemes. -/
structure Decomposes (source : List Char) (pieces : List Piece) (lexemes : List Lexeme)
    (rest : List Char) : Prop where
  lossless : source = pieces.flatMap Piece.text ++ rest
  longest : AllLongest pieces rest
  written : Written [] pieces lexemes

/-- Reading cannot go on: no kind has a match, or the longest match is a number that is no amount. -/
inductive Blocked (rest : List Char) : Prop
  | noMatch : rest ≠ [] → NoMatch rest → Blocked rest
  | tooLarge {k : Kind} {w : List Char} {n : Nat} : LongestMatch k w rest → k.WritesNumber w n →
    Amount.greatest < n → Blocked rest

/-! ### Numbers -/

/-- Digits are read from the left to the number that they write. -/
theorem ofDigitChars_eq_decimal (digits : List Char) :
    Nat.ofDigitChars 10 digits 0 = decimal digits := by
  induction digits using List.reverseRecOn with
  | nil => rfl
  | append_singleton digits c ih =>
    have before : Nat.ofDigitChars 10 (digits ++ [c]) 0 =
        10 * Nat.ofDigitChars 10 digits 0 + (c.toNat - '0'.toNat) := by
      simp [Nat.ofDigitChars]
    rw [before, ih, decimal, decimal, List.reverse_append, List.reverse_singleton,
      List.singleton_append, List.map_cons, Nat.ofDigits_cons, Nat.add_comm]

namespace Kind

/-- The number that a text writes is the one that its digits are read to. -/
theorem number_eq_of_writesNumber {k : Kind} {w : List Char} {n : Nat}
    (h : k.WritesNumber w n) : number w = n := by
  cases h with
  | @digits digits unit hunit hdigits =>
    have stop : ∀ c ∈ unit.head?, isDigit c = false := by
      cases k <;> cases hunit <;> rintro c ⟨⟩ <;> rfl
    rw [number, takeWhile_of_stop hdigits stop, ofDigitChars_eq_decimal]

private theorem writesNumber_of_mem {k : Kind} {unit w : List Char} (hk : k.unit? = some unit)
    (h : w ∈ repeated (oneOf isDigit) * exactly unit) : k.WritesNumber w (number w) := by
  obtain ⟨digits, hdigits, last, hlast, rfl⟩ := Language.mem_mul.mp h
  rw [mem_exactly] at hlast
  subst hlast
  have written : k.WritesNumber (digits ++ last) (decimal digits) :=
    .digits hk (mem_repeated_oneOf.mp hdigits).2
  rwa [number_eq_of_writesNumber written]

/-- A text of a kind of number writes one. -/
theorem exists_writesNumber {k : Kind} {unit w : List Char} (hk : k.unit? = some unit)
    (h : w ∈ k.pattern) : k.WritesNumber w (number w) := by
  cases k with
  | pixels => exact writesNumber_of_mem rfl h
  | percentage => exact writesNumber_of_mem rfl h
  | scalar =>
    have one : exactly [] = 1 := rfl
    have bare : w ∈ repeated (oneOf isDigit) * exactly [] := by
      rwa [one, mul_one]
    exact writesNumber_of_mem rfl bare
  | _ => cases hk

private theorem readNumber_cases (token : Amount → Token) (w : List Char) :
    (∃ a : Amount, readNumber token w = .token (token a) ∧ a.value = number w) ∨
      readNumber token w = .tooLarge ∧ Amount.greatest < number w := by
  unfold readNumber
  cases h : Amount.ofInt? (number w) with
  | some a => exact .inl ⟨a, rfl, Amount.ofInt?_eq_some_iff.mp h⟩
  | none =>
    refine .inr ⟨rfl, ?_⟩
    have range := Amount.ofInt?_eq_none_iff.mp h
    unfold Amount.greatest
    omega

/-- What a text of a kind means: it is dropped, writes a token, or is a number that is no amount. -/
theorem meaning_cases {k : Kind} {w : List Char} (h : w ∈ k.pattern) :
    (k.meaning w = .dropped ∧ k.IsDropped) ∨ (∃ t, k.meaning w = .token t ∧ k.Writes w t) ∨
      k.meaning w = .tooLarge ∧ ∃ n, k.WritesNumber w n ∧ Amount.greatest < n := by
  cases k with
  | blank => exact .inl ⟨rfl, by simp [IsDropped]⟩
  | lineComment => exact .inl ⟨rfl, by simp [IsDropped]⟩
  | blockComment => exact .inl ⟨rfl, by simp [IsDropped]⟩
  | symbol s => exact .inr (.inl ⟨_, rfl, .symbol s w⟩)
  | color => exact .inr (.inl ⟨_, rfl, .color w⟩)
  | idSelector => exact .inr (.inl ⟨_, rfl, .idSelector w⟩)
  | classSelector => exact .inr (.inl ⟨_, rfl, .classSelector w⟩)
  | variableName => exact .inr (.inl ⟨_, rfl, .variableName w⟩)
  | identifier => exact .inr (.inl ⟨_, rfl, .identifier w⟩)
  | pixels =>
    have written := exists_writesNumber rfl h
    obtain ⟨a, ha, value⟩ | ⟨large, bound⟩ := readNumber_cases .pixels w
    · exact .inr (.inl ⟨_, ha, .pixels written value⟩)
    · exact .inr (.inr ⟨large, _, written, bound⟩)
  | percentage =>
    have written := exists_writesNumber rfl h
    obtain ⟨a, ha, value⟩ | ⟨large, bound⟩ := readNumber_cases .percentage w
    · exact .inr (.inl ⟨_, ha, .percentage written value⟩)
    · exact .inr (.inr ⟨large, _, written, bound⟩)
  | scalar =>
    have written := exists_writesNumber rfl h
    obtain ⟨a, ha, value⟩ | ⟨large, bound⟩ := readNumber_cases .scalar w
    · exact .inr (.inl ⟨_, ha, .scalar written value⟩)
    · exact .inr (.inr ⟨large, _, written, bound⟩)

/-- A text that writes a token means that token. -/
theorem Writes.meaning_eq {k : Kind} {w : List Char} {t : Token} (h : k.Writes w t) :
    k.meaning w = .token t := by
  have amount {n : Nat} {a : Amount} (ha : a.value = n) (token : Amount → Token)
      (hn : number w = n) : readNumber token w = .token (token a) := by
    rw [readNumber, hn, Amount.ofInt?_eq_some_iff.mpr ha]
  cases h with
  | pixels hw ha => exact amount ha .pixels (number_eq_of_writesNumber hw)
  | percentage hw ha => exact amount ha .percentage (number_eq_of_writesNumber hw)
  | scalar hw ha => exact amount ha .scalar (number_eq_of_writesNumber hw)
  | _ => rfl

/-- A text of a kind that is dropped means nothing. -/
theorem IsDropped.meaning_eq {k : Kind} (h : k.IsDropped) (w : List Char) :
    k.meaning w = .dropped := by
  simp only [IsDropped, List.mem_cons, List.not_mem_nil, or_false] at h
  obtain rfl | rfl | rfl := h <;> rfl

end Kind

/-! ### Cutting takes the longest matches -/

/-- The pieces that a source is cut into are the longest matches, and none is left. -/
theorem allLongest_cut (text : List Char) :
    AllLongest (cut text).1 (cut text).2 ∧ NoMatch (cut text).2 := by
  fun_induction cut text with
  | case1 text h => exact ⟨trivial, munch?_eq_none_iff.mp h⟩
  | case2 text k n h tail ih =>
    refine ⟨⟨?_, ih.1⟩, ih.2⟩
    rw [flatMap_text_cut, List.take_append_drop]
    exact longestMatch_of_munch? h

/-- Pieces that are the longest matches up to where there is none are those that are cut. -/
theorem cut_of_allLongest {pieces : List Piece} {rest : List Char} (h : AllLongest pieces rest)
    (none : NoMatch rest) : cut (pieces.flatMap Piece.text ++ rest) = (pieces, rest) := by
  induction pieces with
  | nil => exact cut_of_none (munch?_eq_none_iff.mpr none)
  | cons p pieces ih =>
    rw [List.flatMap_cons, List.append_assoc, cut_of_some h.1.munch?_eq, List.drop_left,
      List.take_left, ih h.2]

/-- The first of some pieces are the longest matches before the others. -/
theorem AllLongest.of_append {a b : List Piece} {rest : List Char} (h : AllLongest (a ++ b) rest) :
    AllLongest a (b.flatMap Piece.text ++ rest) := by
  induction a with
  | nil => trivial
  | cons p a ih =>
    have first : LongestMatch p.kind p.text (p.text ++ ((a ++ b).flatMap Piece.text ++ rest)) :=
      h.1
    rw [List.flatMap_append, List.append_assoc] at first
    exact ⟨first, ih h.2⟩

/-! ### Lexemes of pieces -/

/-- Reading pieces after some text stops with an error: some of them write lexemes, and where they
end reading cannot go on. -/
private def Stops (before : List Char) (pieces : List Piece) (rest : List Char) (e : ParseError) :
    Prop :=
  ∃ passed left lexemes, pieces = passed ++ left ∧ Written before passed lexemes ∧
    e.position = .after (before ++ passed.flatMap Piece.text) ∧
    Blocked (left.flatMap Piece.text ++ rest)

private theorem Stops.here {before : List Char} {pieces : List Piece} {rest : List Char}
    {e : ParseError} (position : e.position = .after before)
    (blocked : Blocked (pieces.flatMap Piece.text ++ rest)) : Stops before pieces rest e := by
  refine ⟨[], pieces, [], rfl, .nil before, ?_, blocked⟩
  rw [position, List.flatMap_nil, List.append_nil]

private theorem Stops.later {before : List Char} {p : Piece} {pieces : List Piece}
    {rest : List Char} {e : ParseError} (h : Stops (before ++ p.text) pieces rest e)
    (first : ∀ passed lexemes, Written (before ++ p.text) passed lexemes →
      ∃ lexemes', Written before (p :: passed) lexemes') : Stops before (p :: pieces) rest e := by
  obtain ⟨passed, left, lexemes, rfl, written, position, blocked⟩ := h
  obtain ⟨lexemes', written'⟩ := first passed lexemes written
  refine ⟨p :: passed, left, lexemes', rfl, written', ?_, blocked⟩
  rw [position, List.flatMap_cons, List.append_assoc]

/-- Reading the pieces after some text gives the lexemes that they write, or it stops. -/
private theorem lexemesOf_cases {source rest : List Char} (none : NoMatch rest)
    {pieces : List Piece} (longest : AllLongest pieces rest) (before : List Char)
    (hsource : before ++ (pieces.flatMap Piece.text ++ rest) = source) :
    match lexemesOf (.ofSource source) rest (byteCount before) pieces with
    | .ok lexemes => rest = [] ∧ Written before pieces lexemes
    | .error e => Stops before pieces rest e := by
  induction pieces generalizing before with
  | nil =>
    have position := Lines.position_ofSource before rest
    rw [show before ++ rest = source from hsource] at position
    by_cases h : rest = []
    · rw [lexemesOf, if_pos h]
      exact ⟨h, .nil before⟩
    · rw [lexemesOf, if_neg h]
      exact .here position (.noMatch h none)
  | cons p pieces ih =>
    have position := Lines.position_ofSource before ((p :: pieces).flatMap Piece.text ++ rest)
    rw [hsource] at position
    have after : (before ++ p.text) ++ (pieces.flatMap Piece.text ++ rest) = source := by
      rw [← hsource, List.flatMap_cons, List.append_assoc, List.append_assoc]
    have next := ih longest.2 _ after
    rw [byteCount_append] at next
    unfold lexemesOf
    obtain ⟨meaning, dropped⟩ | ⟨t, meaning, writes⟩ | ⟨meaning, n, writes, large⟩ :=
      Kind.meaning_cases longest.1.fits
    · rw [meaning]
      dsimp only
      cases h : lexemesOf (.ofSource source) rest (byteCount before + byteCount p.text) pieces with
      | ok lexemes =>
        rw [h] at next
        exact ⟨next.1, .dropped dropped next.2⟩
      | error e =>
        rw [h] at next
        exact next.later fun _ _ written ↦ ⟨_, .dropped dropped written⟩
    · rw [meaning, position]
      dsimp only
      cases h : lexemesOf (.ofSource source) rest (byteCount before + byteCount p.text) pieces with
      | ok lexemes =>
        rw [h] at next
        exact ⟨next.1, .token writes next.2⟩
      | error e =>
        rw [h] at next
        exact next.later fun _ _ written ↦ ⟨_, .token writes written⟩
    · rw [meaning]
      apply Stops.here position
      rw [List.flatMap_cons, List.append_assoc]
      exact .tooLarge longest.1 writes large

private theorem lexemesOf_of_written {source : List Char} {pieces : List Piece}
    {before : List Char} {lexemes : List Lexeme} (h : Written before pieces lexemes)
    (hsource : source = before ++ pieces.flatMap Piece.text) :
    lexemesOf (.ofSource source) [] (byteCount before) pieces = .ok lexemes := by
  induction h with
  | nil before => exact if_pos rfl
  | @dropped before p pieces lexemes dropped _ ih =>
    have next := ih (by rw [hsource, List.flatMap_cons, List.append_assoc])
    rw [byteCount_append] at next
    rw [lexemesOf, dropped.meaning_eq]
    exact next
  | @token before p t pieces lexemes writes _ ih =>
    have next := ih (by rw [hsource, List.flatMap_cons, List.append_assoc])
    have position := Lines.position_ofSource before ((p :: pieces).flatMap Piece.text)
    rw [← hsource] at position
    rw [byteCount_append] at next
    rw [lexemesOf, writes.meaning_eq, position]
    simp only [next]

/-- The pieces of a source that they make up are those that it is cut into. -/
theorem Decomposes.cut_eq {source : List Char} {pieces : List Piece} {lexemes : List Lexeme}
    (h : Decomposes source pieces lexemes []) : cut source = (pieces, []) := by
  have none : NoMatch [] := munch?_eq_none_iff.mp (by decide)
  have pieces_eq := cut_of_allLongest h.longest none
  rwa [← h.lossless] at pieces_eq

/-- A source that is cut to its end is read into the lexemes that its pieces write. -/
theorem Decomposes.lex_eq {source : List Char} {pieces : List Piece} {lexemes : List Lexeme}
    (h : Decomposes source pieces lexemes []) : lex source = .ok lexemes := by
  have lossless := h.lossless
  rw [List.append_nil] at lossless
  rw [lex, h.cut_eq]
  exact lexemesOf_of_written h.written lossless

/-- Reading a source gives the lexemes that its pieces write, or it stops among them. -/
private theorem lex_cases (source : List Char) :
    match lex source with
    | .ok lexemes => (cut source).2 = [] ∧ Written [] (cut source).1 lexemes
    | .error e => Stops [] (cut source).1 (cut source).2 e := by
  have longest := allLongest_cut source
  exact lexemesOf_cases longest.2 longest.1 [] (flatMap_text_cut source)

/-- A source that is read into lexemes is cut to its end, and its pieces write them. -/
theorem exists_decomposes {source : List Char} {lexemes : List Lexeme}
    (h : lex source = .ok lexemes) : ∃ pieces, Decomposes source pieces lexemes [] := by
  have run := lex_cases source
  have longest := allLongest_cut source
  have lossless := flatMap_text_cut source
  rw [h] at run
  obtain ⟨hrest, written⟩ := run
  rw [hrest] at longest lossless
  exact ⟨_, lossless.symm, longest.1, written⟩

/-- A source is read into lexemes exactly when it is the texts of pieces without a rest, each the
longest match at its place, and the lexemes are those that the pieces write. Where reading fails, the
same holds up to the position of the error, and there no kind has a match, or the longest match is a
number that is too large. -/
theorem tokenize_munches (source : String) :
    (∀ lexemes, tokenize source = .ok lexemes ↔
      ∃ pieces, Decomposes source.toList pieces lexemes []) ∧
    ∀ e, tokenize source = .error e → ∃ pieces lexemes rest,
      Decomposes source.toList pieces lexemes rest ∧
        e.position = .after (pieces.flatMap Piece.text) ∧ Blocked rest := by
  constructor
  · intro lexemes
    constructor
    · exact exists_decomposes
    · rintro ⟨pieces, h⟩
      exact h.lex_eq
  · intro e h
    have run := lex_cases source.toList
    have longest := allLongest_cut source.toList
    have lossless := flatMap_text_cut source.toList
    rw [show lex source.toList = .error e from h] at run
    obtain ⟨passed, left, lexemes, hpieces, written, position, blocked⟩ := run
    rw [hpieces] at longest lossless
    rw [List.flatMap_append, List.append_assoc] at lossless
    exact ⟨passed, lexemes, _, ⟨lossless.symm, longest.1.of_append, written⟩, position, blocked⟩

end FlatSheet
