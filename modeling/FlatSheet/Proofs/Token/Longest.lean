import FlatSheet.Proofs.Token.Comment

/-!
# The longest text of a kind

The pattern of each kind of text, and that `Kind.longest?` measures it.
-/

open Computability

namespace FlatSheet

open Pattern

/-- The texts of a kind. -/
def Kind.pattern : Kind → Language Char
  | blank => repeated (oneOf isBlank)
  | lineComment => exactly ['/', '/'] * (oneOf (· ≠ '\n'))∗
  | blockComment => exactly ['/', '*'] * commentTail
  | symbol s => exactly s.chars
  | color => exactly ['#'] * oneOf isHexDigit ^ 6
  | idSelector => exactly ['#'] * repeated (oneOf isNameChar)
  | classSelector => exactly ['.'] * repeated (oneOf isNameChar)
  | pixels => repeated (oneOf isDigit) * exactly ['p', 'x']
  | percentage => repeated (oneOf isDigit) * exactly ['%']
  | scalar => repeated (oneOf isDigit)
  | variableName => oneOf isCapital * (oneOf isVariableChar)∗
  | identifier => oneOf isSmall * (oneOf isNameChar)∗

namespace Pattern

/-! ### Measures of single patterns -/

/-- A measure that looks for a fixed text in front and measures what follows. -/
theorem Measures.front {L : Language Char} {first : List Char}
    {measure found : List Char → Option Nat} (inner : ∀ text, Measures L text (found text))
    (hit : ∀ text, measure (first ++ text) = (found text).map (first.length + ·))
    (miss : ∀ text, ¬ first <+: text → measure text = none) (text : List Char) :
    Measures (exactly first * L) text (measure text) := by
  by_cases h : first <+: text
  · obtain ⟨rest, rfl⟩ := h
    rw [hit]
    exact (inner rest).after first
  · rw [miss text h]
    exact measures_none h

/-- A fixed text is measured by looking for it. -/
theorem measures_exactly (first text : List Char) :
    Measures (exactly first) text
      (if first.isPrefixOf text then some first.length else none) := by
  constructor
  · intro n h
    split at h
    · next hp =>
      cases h
      exact ⟨first, rfl, List.isPrefixOf_iff_prefix.mp hp, rfl⟩
    · cases h
  · intro w hw hprefix
    rw [mem_exactly] at hw
    subst hw
    exact ⟨w.length, if_pos (List.isPrefixOf_iff_prefix.mpr hprefix), Nat.le_refl _⟩

/-- Six digits to base sixteen are measured by the digits at the start of a text. -/
theorem measures_digits (p : Char → Bool) (count : Nat) (text : List Char) :
    Measures (oneOf p ^ count) text
      (if count ≤ (text.takeWhile p).length then some count else none) := by
  constructor
  · intro n h
    split at h
    · next enough =>
      cases h
      refine ⟨(text.takeWhile p).take count, mem_oneOf_pow.mpr ⟨?_, ?_⟩, ?_, ?_⟩
      · rw [List.length_take]
        omega
      · intro c hc
        exact all_takeWhile p text c (List.mem_of_mem_take hc)
      · exact (List.take_prefix _ _).trans (List.takeWhile_prefix p)
      · rw [List.length_take]
        omega
    · cases h
  · intro w hw hprefix
    rw [mem_oneOf_pow] at hw
    have bound := length_le_takeWhile hprefix hw.2
    refine ⟨count, if_pos ?_, ?_⟩
    · omega
    · omega

/-- A name is measured by its first character and those that go on with it. -/
theorem measures_name? (first other : Char → Bool) (text : List Char) :
    Measures (oneOf first * (oneOf other)∗) text (name? first other text) := by
  constructor
  · intro n h
    unfold name? at h
    split at h
    · cases h
    · next c rest =>
      split at h
      · next hc =>
        cases h
        have others := mem_kstar_oneOf.mpr (all_takeWhile other rest)
        refine ⟨c :: rest.takeWhile other, mem_oneOf_mul.mpr ⟨c, _, hc, others, rfl⟩, ?_, ?_⟩
        · exact (List.prefix_cons_inj c).mpr (List.takeWhile_prefix other)
        · rw [List.length_cons, Nat.add_comm]
      · cases h
  · rintro w hw ⟨rest, rfl⟩
    obtain ⟨c, others, hc, hothers, rfl⟩ := mem_oneOf_mul.mp hw
    rw [mem_kstar_oneOf] at hothers
    have bound := length_le_takeWhile (List.prefix_append others rest) hothers
    refine ⟨1 + ((others ++ rest).takeWhile other).length, ?_, ?_⟩
    · rw [List.cons_append, name?, if_pos hc]
    · rw [List.length_cons]
      omega

/-- A number is measured by its digits, if the unit follows. A unit does not begin with a digit, so
the digits in front of it are all that there are. -/
theorem measures_numberWith? {unit : List Char} (hunit : ∀ c ∈ unit.head?, isDigit c = false)
    (text : List Char) :
    Measures (repeated (oneOf isDigit) * exactly unit) text (numberWith? unit text) := by
  have digitsFound := measures_run? isDigit text
  constructor
  · intro n h
    obtain ⟨m, hm, h⟩ := Option.bind_eq_some_iff.mp h
    split at h
    · next follows =>
      cases h
      obtain ⟨digits, hdigits, ⟨rest, rfl⟩, rfl⟩ := digitsFound.sound m hm
      rw [List.drop_left, List.isPrefixOf_iff_prefix] at follows
      refine ⟨digits ++ unit, Language.append_mem_mul hdigits rfl, ?_, List.length_append⟩
      exact (List.prefix_append_right_inj digits).mpr follows
    · cases h
  · rintro w hw ⟨rest, rfl⟩
    obtain ⟨digits, hdigits, last, hlast, rfl⟩ := Language.mem_mul.mp hw
    rw [mem_exactly] at hlast
    subst hlast
    rw [List.append_assoc] at digitsFound ⊢
    cases last with
    | nil =>
      obtain ⟨n, hn, bound⟩ := digitsFound.greatest digits hdigits (List.prefix_append _ _)
      refine ⟨n, ?_, ?_⟩
      · rw [numberWith?, hn]
        rfl
      · rw [List.append_nil]
        exact bound
    | cons c unit =>
      rw [mem_repeated_oneOf] at hdigits
      have run : run? isDigit (digits ++ (c :: unit ++ rest)) = some digits.length :=
        run?_of_stop hdigits.1 hdigits.2 hunit
      refine ⟨digits.length + (c :: unit).length, ?_, ?_⟩
      · rw [numberWith?, run, Option.bind_some, List.drop_left, if_pos]
        exact List.isPrefixOf_iff_prefix.mpr (List.prefix_append _ _)
      · rw [List.length_append]

end Pattern

/-- The longest text of a kind at the start of a text is the longest match of its pattern. -/
theorem Kind.measures (k : Kind) (text : List Char) : Measures k.pattern text (k.longest? text) := by
  cases k with
  | blank => exact measures_run? isBlank text
  | lineComment =>
    apply Measures.front (measures_kstar (· ≠ '\n')) (fun _ ↦ rfl)
    intro text miss
    rw [longest?]
    rintro rest rfl
    exact miss (List.prefix_append _ _)
  | blockComment =>
    apply Measures.front measures_commentEnd? (fun _ ↦ rfl)
    intro text miss
    rw [longest?]
    rintro rest rfl
    exact miss (List.prefix_append _ _)
  | symbol s => exact measures_exactly s.chars text
  | color =>
    apply Measures.front (measures_digits isHexDigit 6)
    · intro text
      rw [List.singleton_append, longest?]
      split <;> rfl
    · intro text miss
      rw [longest?]
      rintro rest rfl
      exact miss (List.prefix_append _ _)
  | idSelector =>
    apply Measures.front (measures_run? isNameChar) (fun _ ↦ rfl)
    intro text miss
    rw [longest?]
    rintro rest rfl
    exact miss (List.prefix_append _ _)
  | classSelector =>
    apply Measures.front (measures_run? isNameChar) (fun _ ↦ rfl)
    intro text miss
    rw [longest?]
    rintro rest rfl
    exact miss (List.prefix_append _ _)
  | pixels => exact measures_numberWith? (by rintro c ⟨⟩; rfl) text
  | percentage => exact measures_numberWith? (by rintro c ⟨⟩; rfl) text
  | scalar =>
    have one : exactly [] = 1 := rfl
    have bare : Measures (repeated (oneOf isDigit) * exactly []) text (numberWith? [] text) :=
      measures_numberWith? (by simp) text
    rwa [one, mul_one] at bare
  | variableName => exact measures_name? isCapital isVariableChar text
  | identifier => exact measures_name? isSmall isNameChar text

end FlatSheet
