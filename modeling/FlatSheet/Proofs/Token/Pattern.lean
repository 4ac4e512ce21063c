import Mathlib.Computability.Language
import Mathlib.Data.List.TakeWhile
import FlatSheet.Token.Kind

/-!
# Patterns of text

Each kind of text has a pattern, a regular language: a comment is anything up to its first closing
mark, a number is a run of digits with a unit after them, and so on. `Kind.longest?` measures the
longest text of the pattern at the start of its input: what it finds is a match, and no match is
longer.
-/

open Computability

namespace FlatSheet

/-! ### Languages -/

namespace Pattern

/-- One character of a class. -/
def oneOf (p : Char → Bool) : Language Char := {w | ∃ c, p c = true ∧ w = [c]}

/-- One text and no other. -/
def exactly (text : List Char) : Language Char := {text}

/-- One text of a language or several, one after the other. -/
def repeated (L : Language Char) : Language Char := L * L∗

theorem mem_exactly {text w : List Char} : w ∈ exactly text ↔ w = text := Iff.rfl

/-- Texts that begin with a fixed one. -/
theorem mem_exactly_mul {text w : List Char} {L : Language Char} :
    w ∈ exactly text * L ↔ ∃ rest ∈ L, text ++ rest = w := by
  rw [Language.mem_mul]
  constructor
  · rintro ⟨a, ha, rest, hrest, rfl⟩
    rw [mem_exactly.mp ha]
    exact ⟨rest, hrest, rfl⟩
  · rintro ⟨rest, hrest, rfl⟩
    exact ⟨text, rfl, rest, hrest, rfl⟩

/-- Texts that begin with a character of a class. -/
theorem mem_oneOf_mul {p : Char → Bool} {w : List Char} {L : Language Char} :
    w ∈ oneOf p * L ↔ ∃ c rest, p c = true ∧ rest ∈ L ∧ w = c :: rest := by
  rw [Language.mem_mul]
  constructor
  · rintro ⟨a, ⟨c, hc, rfl⟩, rest, hrest, rfl⟩
    exact ⟨c, rest, hc, hrest, rfl⟩
  · rintro ⟨c, rest, hc, hrest, rfl⟩
    exact ⟨[c], ⟨c, hc, rfl⟩, rest, hrest, rfl⟩

/-- Texts all of whose characters are in a class. -/
theorem mem_kstar_oneOf {p : Char → Bool} {w : List Char} :
    w ∈ (oneOf p)∗ ↔ ∀ c ∈ w, p c = true := by
  rw [Language.mem_kstar]
  constructor
  · rintro ⟨parts, rfl, hparts⟩ c hc
    obtain ⟨part, hpart, hc⟩ := List.mem_flatten.mp hc
    obtain ⟨d, hd, rfl⟩ := hparts part hpart
    rw [List.mem_singleton.mp hc]
    exact hd
  · intro hw
    refine ⟨w.map fun c ↦ [c], ?_, ?_⟩
    · induction w with
      | nil => rfl
      | cons c w ih =>
        rw [List.map_cons, List.flatten_cons, ← ih fun d hd ↦ hw d (List.mem_cons_of_mem _ hd)]
        rfl
    · intro part hpart
      obtain ⟨c, hc, rfl⟩ := List.mem_map.mp hpart
      exact ⟨c, hw c hc, rfl⟩

/-- Texts of at least one character, all of them in a class. -/
theorem mem_repeated_oneOf {p : Char → Bool} {w : List Char} :
    w ∈ repeated (oneOf p) ↔ w ≠ [] ∧ ∀ c ∈ w, p c = true := by
  rw [repeated, mem_oneOf_mul]
  constructor
  · rintro ⟨c, rest, hc, hrest, rfl⟩
    exact ⟨List.cons_ne_nil _ _, List.forall_mem_cons.mpr ⟨hc, mem_kstar_oneOf.mp hrest⟩⟩
  · rintro ⟨hw, hp⟩
    obtain ⟨c, rest, rfl⟩ := List.exists_cons_of_ne_nil hw
    obtain ⟨hc, hrest⟩ := List.forall_mem_cons.mp hp
    exact ⟨c, rest, hc, mem_kstar_oneOf.mpr hrest, rfl⟩

/-- Texts of a fixed number of characters, all of them in a class. -/
theorem mem_oneOf_pow {p : Char → Bool} {n : Nat} {w : List Char} :
    w ∈ oneOf p ^ n ↔ w.length = n ∧ ∀ c ∈ w, p c = true := by
  induction n generalizing w with
  | zero =>
    rw [pow_zero, Language.mem_one, List.length_eq_zero_iff]
    constructor
    · rintro rfl
      exact ⟨rfl, nofun⟩
    · exact And.left
  | succ n ih =>
    rw [pow_succ', mem_oneOf_mul]
    constructor
    · rintro ⟨c, rest, hc, hrest, rfl⟩
      obtain ⟨hlength, hp⟩ := ih.mp hrest
      exact ⟨by rw [List.length_cons, hlength], List.forall_mem_cons.mpr ⟨hc, hp⟩⟩
    · rintro ⟨hlength, hp⟩
      obtain ⟨c, rest, rfl⟩ := List.exists_cons_of_length_eq_add_one hlength
      obtain ⟨hc, hrest⟩ := List.forall_mem_cons.mp hp
      exact ⟨c, rest, hc, ih.mpr ⟨Nat.succ.inj hlength, hrest⟩, rfl⟩

/-! ### Measuring the longest match -/

/-- What is found at the start of a text is the length of its longest match with a language, and
nothing is found where there is no match. -/
structure Measures (L : Language Char) (text : List Char) (found : Option Nat) : Prop where
  sound : ∀ n, found = some n → ∃ w ∈ L, w <+: text ∧ w.length = n
  greatest : ∀ w ∈ L, w <+: text → ∃ n, found = some n ∧ w.length ≤ n

theorem length_le_takeWhile {p : Char → Bool} {w text : List Char} (h : w <+: text)
    (hp : ∀ c ∈ w, p c = true) : w.length ≤ (text.takeWhile p).length := by
  obtain ⟨rest, rfl⟩ := h
  rw [List.takeWhile_append_of_pos hp, List.length_append]
  omega

theorem all_takeWhile (p : Char → Bool) (text : List Char) :
    ∀ c ∈ text.takeWhile p, p c = true := by
  intro c hc
  exact List.mem_takeWhile_imp hc

/-- The characters of a class at the start of a text end where another one comes next. -/
theorem takeWhile_of_stop {p : Char → Bool} {w rest : List Char} (hw : ∀ c ∈ w, p c = true)
    (stop : ∀ c ∈ rest.head?, p c = false) : (w ++ rest).takeWhile p = w := by
  rw [List.takeWhile_append_of_pos hw]
  cases rest with
  | nil => rw [List.takeWhile_nil, List.append_nil]
  | cons c rest =>
    have hc : p c = false := stop c rfl
    rw [List.takeWhile_cons_of_neg (by simp [hc]), List.append_nil]

theorem run?_of_stop {p : Char → Bool} {w rest : List Char} (hne : w ≠ [])
    (hw : ∀ c ∈ w, p c = true) (stop : ∀ c ∈ rest.head?, p c = false) :
    run? p (w ++ rest) = some w.length := by
  have pos := List.length_pos_iff.mpr hne
  unfold run?
  rw [takeWhile_of_stop hw stop]
  split
  · next h => omega
  · next m h => rw [h]

/-- A class is measured by the characters in it at the start of a text. -/
theorem measures_run? (p : Char → Bool) (text : List Char) :
    Measures (repeated (oneOf p)) text (run? p text) := by
  constructor
  · intro n h
    unfold run? at h
    split at h
    · cases h
    · next m hm =>
      cases h
      refine ⟨text.takeWhile p, ?_, List.takeWhile_prefix p, hm⟩
      rw [mem_repeated_oneOf]
      refine ⟨?_, all_takeWhile p text⟩
      rw [← List.length_pos_iff, hm]
      exact Nat.succ_pos m
  · intro w hw hprefix
    rw [mem_repeated_oneOf] at hw
    have bound := length_le_takeWhile hprefix hw.2
    have pos := List.length_pos_iff.mpr hw.1
    refine ⟨(text.takeWhile p).length, ?_, bound⟩
    unfold run?
    split
    · next h => omega
    · next m h => rw [h]

/-- A fixed text in front is measured apart. -/
theorem Measures.after {L : Language Char} {text : List Char} {found : Option Nat}
    (h : Measures L text found) (first : List Char) :
    Measures (exactly first * L) (first ++ text) (found.map (first.length + ·)) := by
  constructor
  · intro n hn
    obtain ⟨m, hm, rfl⟩ := Option.map_eq_some_iff.mp hn
    obtain ⟨w, hw, hprefix, rfl⟩ := h.sound m hm
    refine ⟨first ++ w, mem_exactly_mul.mpr ⟨w, hw, rfl⟩, ?_, List.length_append⟩
    exact (List.prefix_append_right_inj first).mpr hprefix
  · intro w hw hprefix
    obtain ⟨rest, hrest, rfl⟩ := mem_exactly_mul.mp hw
    obtain ⟨n, hn, bound⟩ :=
      h.greatest rest hrest ((List.prefix_append_right_inj first).mp hprefix)
    refine ⟨first.length + n, by rw [hn]; rfl, ?_⟩
    rw [List.length_append]
    omega

/-- Nothing is found where the fixed text in front is not there. -/
theorem measures_none {L : Language Char} {first text : List Char} (h : ¬ first <+: text) :
    Measures (exactly first * L) text none := by
  constructor
  · nofun
  · intro w hw hprefix
    obtain ⟨rest, -, rfl⟩ := mem_exactly_mul.mp hw
    exact absurd ((List.prefix_append first rest).trans hprefix) h

/-- All characters of a class, be it none, are measured by those at the start of a text. -/
theorem measures_kstar (p : Char → Bool) (text : List Char) :
    Measures (oneOf p)∗ text (some (text.takeWhile p).length) := by
  constructor
  · intro n h
    cases h
    exact ⟨text.takeWhile p, mem_kstar_oneOf.mpr (all_takeWhile p text),
      List.takeWhile_prefix p, rfl⟩
  · intro w hw hprefix
    exact ⟨_, rfl, length_le_takeWhile hprefix (mem_kstar_oneOf.mp hw)⟩

end Pattern

end FlatSheet
