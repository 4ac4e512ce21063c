import FlatSheet.Proofs.Folding.Legible
import FlatSheet.Proofs.Sheet.Css
import FlatSheet.Proofs.Token.Between

/-!
# Values are read as they are written

A source is read as a value exactly when it is read into the token of that value alone. So a value
is read back from its text exactly if its token can be spelled, which says for a color that it is six
hexadecimal digits and for an amount that it is not negative. Digits with a unit are read as their
number as long as that is an amount.
-/

namespace FlatSheet

open Pattern

/-- The values that can be written in a sheet. -/
def Literal.Representable : Literal → Prop
  | bool _ => True
  | color t => ∃ digits : List Char, t = String.ofList ('#' :: digits) ∧ digits.length = 6 ∧
      ∀ c ∈ digits, isHexDigit c
  | pixels n => 0 ≤ n.value
  | percentage n => 0 ≤ n.value
  | scalar n => 0 ≤ n.value

/-- The units that may follow digits, none included, and the value of an amount in each. -/
def Literal.units : List (String × (Amount → Literal)) :=
  [("px", pixels), ("%", percentage), ("", scalar)]

/-! ### One piece, one token -/

/-- A text that is read as a token on its own is read into it. -/
theorem Token.SpelledAs.readAs {t : Token} {w : List Char} (h : t.SpelledAs w) : ReadAs w [t] := by
  obtain ⟨k, longest, writes⟩ := h
  have nothing : ReadAs [] [] := Spells.nil.lex_eq
  have first : LongestMatch k w (w ++ []) := by rwa [List.append_nil]
  have all := nothing.token first writes
  rwa [List.append_nil] at all

/-- A text that is one piece is read, if at all, into the token that the piece writes. -/
theorem ReadAs.exists_writes {k : Kind} {w : List Char} {tokens : List Token} (h : ReadAs w tokens)
    (longest : LongestMatch k w w) (hk : ¬ k.IsDropped) : ∃ t, k.Writes w t ∧ tokens = [t] := by
  obtain ⟨pieces, lexemes, rfl, all, written, rfl⟩ := h.exists_pieces
  generalize hw : pieces.flatMap Piece.text = w at longest
  have none : NoMatch [] := munch?_eq_none_iff.mp (by decide)
  have single : AllLongest [⟨k, w⟩] [] := by
    refine ⟨?_, trivial⟩
    simpa using longest
  have cut := cut_of_allLongest single none
  simp only [List.flatMap_cons, List.flatMap_nil, List.append_nil] at cut
  have same := cut_of_allLongest all none
  rw [List.append_nil, hw, cut] at same
  cases same
  cases written with
  | dropped dropped => exact absurd dropped hk
  | token writes rest =>
    cases rest
    exact ⟨_, writes, rfl⟩

/-! ### Values -/

namespace Literal

/-- A token writes one value at most. -/
theorem token_injective {v w : Literal} (h : v.token = w.token) : v = w := by
  have first := ofToken?_eq_some_iff.mpr h
  rw [ofToken?_eq_some_iff.mpr rfl] at first
  exact Option.some.inj first

/-- A value is read exactly from its token alone. -/
theorem ofLexemes_eq_ok_iff {lexemes : List Lexeme} {v : Literal} :
    ofLexemes lexemes = .ok v ↔ tokensOf lexemes = [v.token] := by
  cases lexemes with
  | nil => exact ⟨nofun, nofun⟩
  | cons l rest =>
    cases h : ofToken? l.token with
    | none =>
      have other : l.token ≠ v.token := by
        intro same
        rw [ofToken?_eq_some_iff.mpr same] at h
        cases h
      simp [ofLexemes, read, h, stuck, Reads.andThen, other]
    | some w =>
      cases rest with
      | nil =>
        have value : ofLexemes [l] = .ok w := by
          simp [ofLexemes, read, h, Reads.past, Reads.done, readEnd, Reads.andThen]
        rw [value, tokensOf_cons, tokensOf_nil, ofToken?_eq_some_iff.mp h]
        constructor
        · rintro ⟨⟩
          rfl
        · intro same
          rw [token_injective (List.cons.inj same).1]
      | cons next rest =>
        simp [ofLexemes, read, h, Reads.past, Reads.done, readEnd, stuck, Reads.andThen]

/-- A value is read from a source exactly when the source is read into its token alone. -/
theorem ofSource_eq_ok_iff {source : String} {v : Literal} :
    ofSource source = .ok v ↔ ReadAs source.toList [v.token] := by
  unfold ofSource ReadAs tokenize
  cases lex source.toList with
  | error e => simp
  | ok lexemes => simp [ofLexemes_eq_ok_iff]

/-- A value can be written exactly if its token is spelled. -/
theorem spelled_token_iff {v : Literal} : v.token.Spelled ↔ v.Representable := by
  constructor
  · rintro ⟨w, k, longest, writes⟩
    cases v with
    | bool b => trivial
    | color t =>
      cases writes
      obtain ⟨digits, hdigits, rfl⟩ := mem_exactly_mul.mp longest.fits
      exact ⟨digits, rfl, mem_oneOf_pow.mp hdigits⟩
    | pixels n =>
      cases writes with
      | pixels _ value =>
        rw [Representable, value]
        exact Int.natCast_nonneg _
    | percentage n =>
      cases writes with
      | percentage _ value =>
        rw [Representable, value]
        exact Int.natCast_nonneg _
    | scalar n =>
      cases writes with
      | scalar _ value =>
        rw [Representable, value]
        exact Int.natCast_nonneg _
  · intro h
    cases v with
    | bool b => cases b <;> exact Token.spelled_symbol _
    | color t =>
      obtain ⟨digits, rfl, hdigits⟩ := h
      have fits : '#' :: digits ∈ Kind.color.pattern :=
        mem_exactly_mul.mpr ⟨digits, mem_oneOf_pow.mpr hdigits, rfl⟩
      refine ⟨_, .color, .of_mem fits ?_, .color _⟩
      intro other _ prior
      cases prior
    | pixels n => exact legible_of_type (v := pixels n) nofun h
    | percentage n => exact legible_of_type (v := percentage n) nofun h
    | scalar n => exact legible_of_type (v := scalar n) nofun h

/-- A value is read back from its text exactly if it can be written. -/
theorem ofSource_text_iff {v : Literal} : ofSource v.text = .ok v ↔ v.Representable := by
  rw [ofSource_eq_ok_iff, ← spelled_token_iff]
  constructor
  · rintro ⟨lexemes, hlex, htokens⟩
    obtain ⟨l, rest, rfl, hl, -⟩ := exists_of_tokensOf_eq_cons htokens
    rw [← hl]
    exact spelled_of_lex hlex l (.head _)
  · intro spelled
    rw [text_eq_spelling]
    exact spelled.spelledAs_spelling.readAs

/-! ### Numbers -/

/-- Digits with a unit are read as the amount that they write, and not at all if it is none. -/
private theorem ofSource_digits_eq_ok_iff {k : Kind} {unit : String} {make : Amount → Literal}
    (hk : k.unit? = some unit.toList)
    (writes : ∀ w t, k.Writes w t ↔ ∃ a n, t = (make a).token ∧ k.WritesNumber w n ∧ a.value = n)
    {digits : List Char} (hne : digits ≠ []) (hdigits : ∀ c ∈ digits, isDigit c = true)
    {v : Literal} :
    ofSource (String.ofList digits ++ unit) = .ok v ↔
      ∃ a, v = make a ∧ a.value = decimal digits := by
  have longest := Kind.longestMatch_digits hk hne hdigits
  have number : k.WritesNumber (digits ++ unit.toList) (decimal digits) := .digits hk hdigits
  rw [ofSource_eq_ok_iff, String.toList_append, String.toList_ofList]
  constructor
  · intro h
    have kept : ¬ k.IsDropped := by
      intro dropped
      simp only [Kind.IsDropped, List.mem_cons, List.not_mem_nil, or_false] at dropped
      obtain rfl | rfl | rfl := dropped <;> cases hk
    obtain ⟨t, ht, single⟩ := h.exists_writes longest kept
    obtain ⟨a, n, rfl, other, value⟩ := (writes _ t).mp ht
    refine ⟨a, token_injective (List.cons.inj single).1, ?_⟩
    rw [value, ← Kind.number_eq_of_writesNumber other, Kind.number_eq_of_writesNumber number]
  · rintro ⟨a, rfl, value⟩
    exact Token.SpelledAs.readAs ⟨k, longest, (writes _ _).mpr ⟨a, _, rfl, number, value⟩⟩

/-- Digits with any of the units, or with none, are read as the amount that they write, and not at
all if it is none. -/
theorem ofSource_number_eq_ok_iff {unit : String} {make : Amount → Literal}
    (form : (unit, make) ∈ units) {digits : List Char} (hne : digits ≠ [])
    (hdigits : ∀ c ∈ digits, isDigit c = true) {v : Literal} :
    ofSource (String.ofList digits ++ unit) = .ok v ↔
      ∃ a, v = make a ∧ a.value = decimal digits := by
  simp only [units, List.mem_cons, Prod.mk.injEq, List.not_mem_nil, or_false] at form
  obtain ⟨rfl, rfl⟩ | ⟨rfl, rfl⟩ | ⟨rfl, rfl⟩ := form
  · refine ofSource_digits_eq_ok_iff (k := .pixels) rfl (fun w t ↦ ⟨?_, ?_⟩) hne hdigits
    · rintro ⟨⟩
      exact ⟨_, _, rfl, ‹_›, ‹_›⟩
    · rintro ⟨a, n, rfl, written, value⟩
      exact .pixels written value
  · refine ofSource_digits_eq_ok_iff (k := .percentage) rfl (fun w t ↦ ⟨?_, ?_⟩) hne hdigits
    · rintro ⟨⟩
      exact ⟨_, _, rfl, ‹_›, ‹_›⟩
    · rintro ⟨a, n, rfl, written, value⟩
      exact .percentage written value
  · refine ofSource_digits_eq_ok_iff (k := .scalar) rfl (fun w t ↦ ⟨?_, ?_⟩) hne hdigits
    · rintro ⟨⟩
      exact ⟨_, _, rfl, ‹_›, ‹_›⟩
    · rintro ⟨a, n, rfl, written, value⟩
      exact .scalar written value

/-- Values are read back from their texts exactly if they can be written. What is read is read back,
too. Digits are read with each unit exactly if their number is at most the greatest amount, as that
number. -/
theorem ofSource_inverts_text :
    (∀ v : Literal, ofSource v.text = .ok v ↔ v.Representable) ∧
    (∀ (source : String) (v : Literal), ofSource source = .ok v → ofSource v.text = .ok v) ∧
    ∀ (unit : String) (make : Amount → Literal), (unit, make) ∈ units →
      ∀ digits : List Char, digits ≠ [] → (∀ c ∈ digits, isDigit c = true) →
        (∀ v, ofSource (String.ofList digits ++ unit) = .ok v ↔
          ∃ a, v = make a ∧ a.value = decimal digits) ∧
        ((∃ v, ofSource (String.ofList digits ++ unit) = .ok v) ↔
          decimal digits ≤ Amount.greatest) := by
  refine ⟨fun v ↦ ofSource_text_iff, ?_, ?_⟩
  · intro source v h
    obtain ⟨lexemes, hlex, htokens⟩ := ofSource_eq_ok_iff.mp h
    obtain ⟨l, rest, rfl, hl, -⟩ := exists_of_tokensOf_eq_cons htokens
    rw [ofSource_text_iff, ← spelled_token_iff, ← hl]
    exact spelled_of_lex hlex l (.head _)
  · intro unit make form digits hne hdigits
    refine ⟨fun v ↦ ofSource_number_eq_ok_iff form hne hdigits, ?_⟩
    simp only [ofSource_number_eq_ok_iff form hne hdigits]
    constructor
    · rintro ⟨v, a, -, value⟩
      have bound := a.le_greatest
      unfold Amount.greatest
      omega
    · intro bound
      unfold Amount.greatest at bound
      exact ⟨_, ⟨decimal digits, by omega, by omega⟩, rfl, rfl⟩

/-- The greatest amount, with zeros in front, and the number after it; and a color in letters of
both cases. -/
theorem ofSource_inverts_text_at_greatest :
    let digits := ['0', '0', '9', '2', '2', '3', '3', '7', '2', '0', '3', '6', '8', '5', '4', '7',
      '7', '5', '8', '0', '7']
    let more := ['9', '2', '2', '3', '3', '7', '2', '0', '3', '6', '8', '5', '4', '7', '7', '5',
      '8', '0', '8']
    let greatest : Literal := .pixels ⟨9223372036854775807, by decide, by decide⟩
    ofSource (String.ofList digits ++ "px") = .ok greatest ∧ ofSource greatest.text = .ok greatest ∧
      (¬ ∃ v, ofSource (String.ofList more ++ "%") = .ok v) ∧
      ofSource (color "#00aAfF").text = .ok (color "#00aAfF") := by
  intro digits more greatest
  obtain ⟨written, again, numbers⟩ := ofSource_inverts_text
  obtain ⟨read, -⟩ := numbers "px" pixels (by simp [units]) digits (by decide)
    (List.all_eq_true.mp (by decide))
  obtain ⟨-, bound⟩ := numbers "%" percentage (by simp [units]) more (by decide)
    (List.all_eq_true.mp (by decide))
  have value : ofSource (String.ofList digits ++ "px") = .ok greatest :=
    (read greatest).mpr ⟨_, rfl, by decide⟩
  refine ⟨value, again _ _ value, ?_, (written _).mpr ?_⟩
  · rw [bound]
    decide
  · exact ⟨['0', '0', 'a', 'A', 'f', 'F'], by decide, by decide, List.all_eq_true.mp (by decide)⟩

end Literal

end FlatSheet
