import FlatSheet.Proofs.Token.Longest
import FlatSheet.Token.Piece

/-!
# The longest match of all kinds

At the start of a text the longest match of any kind is cut off. Two kinds have a match in common only
if it is a keyword, which could be an identifier, or a color, which could be the selector of an id;
then the keyword and the color come first. So `munch?` finds the longest match and its kind, and
finds nothing exactly where no kind has a match.
-/

namespace FlatSheet

open Pattern

/-! ### What a text begins with -/

/-- What a text may begin with, as far as it tells the kinds of text apart. -/
inductive Head where
  | blank
  | slash
  | hash
  | dot
  | digit
  | capital
  | small
  | mark
deriving DecidableEq

/-- The head of the texts that begin with a character. -/
def Head.of (c : Char) : Head :=
  if isBlank c then blank
  else if c = '/' then slash
  else if c = '#' then hash
  else if c = '.' then dot
  else if isDigit c then digit
  else if isCapital c then capital
  else if isSmall c then small
  else mark

/-- The symbols that are words. -/
def Symbol.words : List Symbol := [.ifWord, .elseWord, .trueWord, .falseWord]

/-- What the texts of a kind begin with. -/
def Kind.head : Kind → Head
  | blank => .blank
  | lineComment => .slash
  | blockComment => .slash
  | symbol s => if s ∈ Symbol.words then .small else .mark
  | color => .hash
  | idSelector => .hash
  | classSelector => .dot
  | pixels => .digit
  | percentage => .digit
  | scalar => .digit
  | variableName => .capital
  | identifier => .small

private theorem isDigit_iff {c : Char} : isDigit c = true ↔ 48 ≤ c.toNat ∧ c.toNat ≤ 57 := by
  simp only [isDigit, Bool.and_eq_true, decide_eq_true_eq, Char.le_def, UInt32.le_iff_toNat_le]
  rfl

private theorem isCapital_iff {c : Char} : isCapital c = true ↔ 65 ≤ c.toNat ∧ c.toNat ≤ 90 := by
  simp only [isCapital, Bool.and_eq_true, decide_eq_true_eq, Char.le_def, UInt32.le_iff_toNat_le]
  rfl

private theorem isSmall_iff {c : Char} : isSmall c = true ↔ 97 ≤ c.toNat ∧ c.toNat ≤ 122 := by
  simp only [isSmall, Bool.and_eq_true, decide_eq_true_eq, Char.le_def, UInt32.le_iff_toNat_le]
  rfl

private theorem isBlank_toNat {c : Char} (h : isBlank c = true) : c.toNat ≤ 32 := by
  simp only [isBlank, Bool.or_eq_true, decide_eq_true_eq] at h
  obtain (((rfl | rfl) | rfl) | rfl) | rfl := h <;> decide

theorem Head.of_blank {c : Char} (h : isBlank c = true) : of c = blank := by
  rw [of, if_pos h]

private theorem Head.of_above {c : Char} (h : 48 ≤ c.toNat) :
    of c = if isDigit c then digit
      else if isCapital c then capital else if isSmall c then small else mark := by
  have noBlank : ¬ isBlank c = true := by
    intro blank
    have := isBlank_toNat blank
    omega
  have noSign {d : Char} (hd : d.toNat < 48) : c ≠ d := by
    rintro rfl
    omega
  rw [of, if_neg noBlank, if_neg (noSign (by decide)), if_neg (noSign (by decide)),
    if_neg (noSign (by decide))]

theorem Head.of_digit {c : Char} (h : isDigit c = true) : of c = digit := by
  have range := isDigit_iff.mp h
  rw [of_above range.1, if_pos h]

theorem Head.of_capital {c : Char} (h : isCapital c = true) : of c = capital := by
  have range := isCapital_iff.mp h
  have noDigit : ¬ isDigit c = true := by
    rw [isDigit_iff]
    omega
  rw [of_above (by omega), if_neg noDigit, if_pos h]

theorem Head.of_small {c : Char} (h : isSmall c = true) : of c = small := by
  have range := isSmall_iff.mp h
  have noDigit : ¬ isDigit c = true := by
    rw [isDigit_iff]
    omega
  have noCapital : ¬ isCapital c = true := by
    rw [isCapital_iff]
    omega
  rw [of_above (by omega), if_neg noDigit, if_neg noCapital, if_pos h]

namespace Kind

private theorem head_of_repeated {p : Char → Bool} {w : List Char} (h : w ∈ repeated (oneOf p)) :
    ∃ c rest, w = c :: rest ∧ p c = true := by
  obtain ⟨hne, hp⟩ := mem_repeated_oneOf.mp h
  obtain ⟨c, rest, rfl⟩ := List.exists_cons_of_ne_nil hne
  exact ⟨c, rest, rfl, hp c List.mem_cons_self⟩

private theorem head_of_number {unit w : List Char}
    (h : w ∈ repeated (oneOf isDigit) * exactly unit) :
    ∃ c rest, w = c :: rest ∧ Head.of c = .digit := by
  obtain ⟨digits, hdigits, last, -, rfl⟩ := Language.mem_mul.mp h
  obtain ⟨c, rest, rfl, hc⟩ := head_of_repeated hdigits
  exact ⟨c, rest ++ last, rfl, Head.of_digit hc⟩

private theorem head_of_front {c : Char} {first w : List Char} {L : Language Char}
    (h : w ∈ exactly (c :: first) * L) : ∃ rest, w = c :: rest := by
  obtain ⟨rest, -, rfl⟩ := mem_exactly_mul.mp h
  exact ⟨first ++ rest, rfl⟩

/-- A text of a kind is not empty and begins with the head of the kind. -/
theorem head_of_mem {k : Kind} {w : List Char} (h : w ∈ k.pattern) :
    ∃ c rest, w = c :: rest ∧ Head.of c = k.head := by
  cases k with
  | blank =>
    obtain ⟨c, rest, hw, hc⟩ := head_of_repeated h
    exact ⟨c, rest, hw, Head.of_blank hc⟩
  | lineComment =>
    obtain ⟨rest, hw⟩ := head_of_front h
    exact ⟨_, rest, hw, by decide⟩
  | blockComment =>
    obtain ⟨rest, hw⟩ := head_of_front h
    exact ⟨_, rest, hw, by decide⟩
  | symbol s =>
    rw [mem_exactly.mp h]
    cases s <;> exact ⟨_, _, rfl, by decide⟩
  | color =>
    obtain ⟨rest, hw⟩ := head_of_front h
    exact ⟨_, rest, hw, by decide⟩
  | idSelector =>
    obtain ⟨rest, hw⟩ := head_of_front h
    exact ⟨_, rest, hw, by decide⟩
  | classSelector =>
    obtain ⟨rest, hw⟩ := head_of_front h
    exact ⟨_, rest, hw, by decide⟩
  | pixels => exact head_of_number h
  | percentage => exact head_of_number h
  | scalar =>
    obtain ⟨c, rest, hw, hc⟩ := head_of_repeated h
    exact ⟨c, rest, hw, Head.of_digit hc⟩
  | variableName =>
    obtain ⟨c, rest, hc, -, hw⟩ := mem_oneOf_mul.mp h
    exact ⟨c, rest, hw, Head.of_capital hc⟩
  | identifier =>
    obtain ⟨c, rest, hc, -, hw⟩ := mem_oneOf_mul.mp h
    exact ⟨c, rest, hw, Head.of_small hc⟩

/-- Kinds with matches in one text begin alike. -/
theorem head_eq_of_prefix {k k' : Kind} {w w' text : List Char} (h : w ∈ k.pattern)
    (h' : w' ∈ k'.pattern) (hw : w <+: text) (hw' : w' <+: text) : k.head = k'.head := by
  obtain ⟨c, rest, rfl, hc⟩ := head_of_mem h
  obtain ⟨c', rest', rfl, hc'⟩ := head_of_mem h'
  obtain ⟨tail, rfl⟩ := hw
  obtain ⟨rfl, -⟩ := List.cons_prefix_cons.mp hw'
  rw [← hc, hc']

/-! ### Texts of two kinds -/

/-- Where two kinds fit the same text, a keyword is taken before an identifier and a color before the
selector of an id. -/
inductive Over : Kind → Kind → Prop
  | keyword {s : Symbol} : s ∈ Symbol.words → Over (symbol s) identifier
  | color : Over color idSelector

private theorem chars_injective {s t : Symbol} (h : s.chars = t.chars) : s = t := by
  cases s <;> cases t <;> first | rfl | cases h

private theorem head_symbol {s : Symbol} {k : Kind} (hk : ∀ t, k ≠ symbol t)
    (h : (symbol s).head = k.head) : k = identifier ∧ s ∈ Symbol.words := by
  by_cases word : s ∈ Symbol.words
  · have small : (symbol s).head = .small := if_pos word
    rw [small] at h
    cases k with
    | identifier => exact ⟨rfl, word⟩
    | symbol t => exact absurd rfl (hk t)
    | _ => cases h
  · have mark : (symbol s).head = .mark := if_neg word
    rw [mark] at h
    cases k with
    | symbol t => exact absurd rfl (hk t)
    | _ => cases h

private theorem getLast?_of_number {unit w : List Char} {c : Char}
    (h : w ∈ repeated (oneOf isDigit) * exactly unit) (hunit : unit.getLast? = some c) :
    w.getLast? = some c := by
  obtain ⟨digits, -, last, hlast, rfl⟩ := Language.mem_mul.mp h
  rw [mem_exactly] at hlast
  subst hlast
  rw [List.getLast?_append, hunit]
  rfl

private theorem getLast?_of_scalar {w : List Char} (h : w ∈ repeated (oneOf isDigit)) :
    ∀ c ∈ w.getLast?, isDigit c = true := by
  intro c hc
  exact (mem_repeated_oneOf.mp h).2 c (List.mem_of_getLast? hc)

private theorem not_comments {w : List Char} (hline : w ∈ lineComment.pattern) :
    w ∉ blockComment.pattern := by
  intro hblock
  obtain ⟨a, -, rfl⟩ := mem_exactly_mul.mp hline
  obtain ⟨b, -, hb⟩ := mem_exactly_mul.mp hblock
  cases hb

private theorem not_pixels_percentage {w : List Char} (hpixels : w ∈ pixels.pattern) :
    w ∉ percentage.pattern := by
  intro hpercentage
  have last := getLast?_of_number hpixels rfl
  rw [getLast?_of_number hpercentage rfl] at last
  cases last

private theorem not_scalar {unit w : List Char} {c : Char}
    (h : w ∈ repeated (oneOf isDigit) * exactly unit) (hunit : unit.getLast? = some c)
    (hc : isDigit c = false) : w ∉ scalar.pattern := by
  intro hscalar
  have digit := getLast?_of_scalar hscalar c (getLast?_of_number h hunit)
  rw [hc] at digit
  cases digit

private theorem eq_or_over_of_marked {k k' : Kind} {w : List Char} (h : w ∈ k.pattern)
    (h' : w ∈ k'.pattern) (heads : k.head = k'.head) (hk : ∀ s, k ≠ symbol s)
    (hk' : ∀ s, k' ≠ symbol s) : k' = k ∨ k.Over k' ∨ k'.Over k := by
  -- Of kinds with one head only colors and selectors share a text.
  cases k with
  | symbol s => exact absurd rfl (hk s)
  | blank | classSelector | variableName | identifier =>
    cases k' <;> first | exact .inl rfl | cases heads | exact absurd rfl (hk' _)
  | lineComment =>
    cases k' with
    | lineComment => exact .inl rfl
    | blockComment => exact absurd h' (not_comments h)
    | symbol t => exact absurd rfl (hk' t)
    | _ => cases heads
  | blockComment =>
    cases k' with
    | blockComment => exact .inl rfl
    | lineComment => exact absurd h (not_comments h')
    | symbol t => exact absurd rfl (hk' t)
    | _ => cases heads
  | color =>
    cases k' with
    | color => exact .inl rfl
    | idSelector => exact .inr (.inl .color)
    | symbol t => exact absurd rfl (hk' t)
    | _ => cases heads
  | idSelector =>
    cases k' with
    | idSelector => exact .inl rfl
    | color => exact .inr (.inr .color)
    | symbol t => exact absurd rfl (hk' t)
    | _ => cases heads
  | pixels =>
    cases k' with
    | pixels => exact .inl rfl
    | percentage => exact absurd h' (not_pixels_percentage h)
    | scalar => exact absurd h' (not_scalar h rfl (by decide))
    | symbol t => exact absurd rfl (hk' t)
    | _ => cases heads
  | percentage =>
    cases k' with
    | percentage => exact .inl rfl
    | pixels => exact absurd h (not_pixels_percentage h')
    | scalar => exact absurd h' (not_scalar h rfl (by decide))
    | symbol t => exact absurd rfl (hk' t)
    | _ => cases heads
  | scalar =>
    cases k' with
    | scalar => exact .inl rfl
    | pixels => exact absurd h (not_scalar h' rfl (by decide))
    | percentage => exact absurd h (not_scalar h' rfl (by decide))
    | symbol t => exact absurd rfl (hk' t)
    | _ => cases heads

/-- Two kinds have a text in common only if one of them comes before the other. -/
theorem eq_or_over {k k' : Kind} {w : List Char} (h : w ∈ k.pattern) (h' : w ∈ k'.pattern) :
    k' = k ∨ k.Over k' ∨ k'.Over k := by
  have heads := head_eq_of_prefix h h' List.prefix_rfl List.prefix_rfl
  by_cases hs : ∃ s, k = symbol s
  · obtain ⟨s, rfl⟩ := hs
    by_cases hs' : ∃ t, k' = symbol t
    · obtain ⟨t, rfl⟩ := hs'
      rw [mem_exactly.mp h] at h'
      rw [chars_injective (mem_exactly.mp h')]
      exact .inl rfl
    · obtain ⟨rfl, word⟩ := head_symbol (not_exists.mp hs') heads
      exact .inr (.inl (.keyword word))
  · by_cases hs' : ∃ t, k' = symbol t
    · obtain ⟨t, rfl⟩ := hs'
      obtain ⟨rfl, word⟩ := head_symbol (not_exists.mp hs) heads.symm
      exact .inr (.inr (.keyword word))
    · exact eq_or_over_of_marked h h' heads (not_exists.mp hs) (not_exists.mp hs')

/-- Of two kinds only one comes before the other. -/
theorem Over.asymm {k k' : Kind} (h : k.Over k') : ¬ k'.Over k := by
  intro h'
  cases h <;> cases h'

/-- All kinds are looked for. -/
theorem mem_byPrecedence (k : Kind) : k ∈ byPrecedence := by
  cases k with
  | symbol s => cases s <;> decide
  | _ => decide

/-- A kind that comes before another is looked for before it. -/
theorem Over.idxOf_lt {k k' : Kind} (h : k.Over k') :
    byPrecedence.idxOf k < byPrecedence.idxOf k' := by
  cases h with
  | @keyword s word =>
    revert word
    cases s <;> decide
  | color => decide

end Kind

/-! ### The longest match -/

/-- A text in front of another is its longest match of any kind. Of two kinds that fit it, it is of
the one that comes before the other. -/
structure LongestMatch (k : Kind) (w text : List Char) : Prop where
  inFront : w <+: text
  fits : w ∈ k.pattern
  longest : ∀ (other : Kind) (w' : List Char), w' ∈ other.pattern → w' <+: text → w'.length ≤ w.length
  first : ∀ other : Kind, w ∈ other.pattern → other = k ∨ k.Over other

/-- No text of any kind is in front of a text. -/
def NoMatch (text : List Char) : Prop := ∀ k w, w ∈ Kind.pattern k → ¬ w <+: text

/-- A text has one longest match at most. -/
theorem LongestMatch.unique {k k' : Kind} {w w' text : List Char} (h : LongestMatch k w text)
    (h' : LongestMatch k' w' text) : k = k' ∧ w = w' := by
  have lengths : w.length = w'.length := by
    apply Nat.le_antisymm
    · exact h'.longest k w h.fits h.inFront
    · exact h.longest k' w' h'.fits h'.inFront
  have texts : w = w' :=
    (List.prefix_of_prefix_length_le h.inFront h'.inFront lengths.le).eq_of_length lengths
  subst texts
  refine ⟨?_, rfl⟩
  obtain same | prior := h.first k' h'.fits
  · exact same.symm
  · obtain same | prior' := h'.first k h.fits
    · exact same
    · exact absurd prior' prior.asymm

/-- Nothing is longest only where no kind has a match. -/
theorem longestOf_eq_none {text : List Char} {kinds : List Kind} (h : longestOf text kinds = none) :
    ∀ k ∈ kinds, k.longest? text = none := by
  induction kinds with
  | nil => nofun
  | cons k kinds ih =>
    unfold longestOf at h
    split at h
    · next hk => exact List.forall_mem_cons.mpr ⟨hk, ih h⟩
    · cases h
    · split at h <;> cases h

/-- What is longest is as long as any other match, and stands before those of its length. -/
theorem longestOf_eq_some {text : List Char} {kinds : List Kind} {k : Kind} {n : Nat}
    (h : longestOf text kinds = some (k, n)) :
    ∀ other ∈ kinds, ∀ m, other.longest? text = some m →
      m ≤ n ∧ (m = n → kinds.idxOf k ≤ kinds.idxOf other) := by
  induction kinds generalizing k n with
  | nil => cases h
  | cons first kinds ih =>
    intro other hother m hm
    rcases longestOf_cons_cases h with ⟨rfl, measured, bound⟩ | ⟨later, bound⟩
    · -- The first kind stands before all others, so only the lengths matter.
      rw [List.idxOf_cons_self]
      refine ⟨?_, fun _ ↦ Nat.zero_le _⟩
      obtain rfl | among := List.mem_cons.mp hother
      · rw [measured] at hm
        cases hm
        exact Nat.le_refl _
      · cases hrest : longestOf text kinds with
        | none =>
          rw [longestOf_eq_none hrest other among] at hm
          cases hm
        | some found => exact (ih hrest other among m hm).1.trans (bound _ _ hrest)
    · -- A kind with a text as long as the longest is not the first.
      have notFirst {k' : Kind} (hk' : k'.longest? text = some n) : first ≠ k' := by
        rintro rfl
        exact Nat.lt_irrefl n (bound n hk')
      obtain rfl | among := List.mem_cons.mp hother
      · have less := bound m hm
        exact ⟨less.le, fun same ↦ absurd same less.ne⟩
      · obtain ⟨upper, order⟩ := ih later other among m hm
        refine ⟨upper, ?_⟩
        rintro rfl
        rw [List.idxOf_cons_ne _ (notFirst (longest?_of_longestOf later).2),
          List.idxOf_cons_ne _ (notFirst hm)]
        exact Nat.succ_le_succ (order rfl)

/-- What is cut off is the longest match. -/
theorem longestMatch_of_munch? {text : List Char} {k : Kind} {n : Nat}
    (h : munch? text = some (k, n)) : LongestMatch k (text.take n) text := by
  have inside := (munch?_bounds h).2
  have found := (longest?_of_longestOf h).2
  have others := longestOf_eq_some h
  have length : (text.take n).length = n := List.length_take_of_le inside
  have fits : text.take n ∈ k.pattern := by
    obtain ⟨w, hw, hprefix, rfl⟩ := (k.measures text).sound n found
    rwa [← List.prefix_iff_eq_take.mp hprefix]
  refine ⟨List.take_prefix n text, fits, ?_, ?_⟩
  · intro other w hw hprefix
    obtain ⟨m, hm, bound⟩ := (other.measures text).greatest w hw hprefix
    have shorter := (others other other.mem_byPrecedence m hm).1
    omega
  · intro other hw
    obtain ⟨m, hm, bound⟩ := (other.measures text).greatest _ hw (List.take_prefix n text)
    obtain ⟨shorter, order⟩ := others other other.mem_byPrecedence m hm
    have before := order (by omega)
    obtain same | prior | prior := Kind.eq_or_over fits hw
    · exact .inl same
    · exact .inr prior
    · have after := prior.idxOf_lt
      omega

/-- Nothing is cut off exactly where no kind has a match. -/
theorem munch?_eq_none_iff {text : List Char} : munch? text = none ↔ NoMatch text := by
  constructor
  · intro h k w hw hprefix
    obtain ⟨n, hn, -⟩ := (k.measures text).greatest w hw hprefix
    rw [longestOf_eq_none h k k.mem_byPrecedence] at hn
    cases hn
  · intro h
    cases hm : munch? text with
    | none => rfl
    | some found =>
      have found := longestMatch_of_munch? hm
      exact absurd found.inFront (h _ _ found.fits)

/-- The longest match is cut off. -/
theorem LongestMatch.munch?_eq {k : Kind} {w text : List Char} (h : LongestMatch k w text) :
    munch? text = some (k, w.length) := by
  cases hm : munch? text with
  | none => exact absurd h.inFront (munch?_eq_none_iff.mp hm k w h.fits)
  | some found =>
    obtain ⟨k', n⟩ := found
    obtain ⟨rfl, rfl⟩ := h.unique (longestMatch_of_munch? hm)
    rw [List.length_take_of_le (munch?_bounds hm).2]

end FlatSheet
