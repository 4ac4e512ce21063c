import Mathlib.Data.String.Basic

/-!
# The order of texts by their bytes

Texts are ordered by their characters, one after the other. In UTF-8 a character is a byte that marks how
many more there are and then so many digits to base 64, so a greater character has greater bytes, whatever
follows. The order of texts is therefore that of their bytes.
-/

namespace FlatSheet

/-- The bytes of a text in UTF-8. -/
def bytesOf (text : String) : List UInt8 := text.toUTF8.data.toList

namespace Utf8

/-- The number of bytes after the first one of a character. -/
def more (n : Nat) : Nat := if n < 128 then 0 else if n < 2048 then 1 else if n < 65536 then 2 else 3

/-- What marks the first byte of a character that has so many bytes after it. -/
def mark : Nat → Nat
  | 0 => 0
  | 1 => 192
  | 2 => 224
  | _ => 240

/-- So many last digits of a number to base 64, each in a byte. -/
def digits : Nat → Nat → List UInt8
  | 0, _ => []
  | count + 1, n => digits count (n / 64) ++ [UInt8.ofNat (n % 64 + 128)]

/-- The code of a character is bounded. -/
theorem toNat_lt (c : Char) : c.toNat < 1114112 := by
  have valid : c.toNat.isValidChar := c.valid
  rcases valid with h | h
  · omega
  · exact h.2

/-- The ranges of codes by the number of bytes. -/
theorem more_cases {n : Nat} (bound : n < 1114112) :
    (more n = 0 ∧ n < 128) ∨ (more n = 1 ∧ 128 ≤ n ∧ n < 2048) ∨
      (more n = 2 ∧ 2048 ≤ n ∧ n < 65536) ∨ (more n = 3 ∧ 65536 ≤ n ∧ n < 1114112) := by
  unfold more
  split
  · omega
  · split
    · omega
    · split
      · omega
      · omega

/-- The bytes of a character are a marked first one and digits to base 64. -/
theorem encodeChar_eq (c : Char) :
    String.utf8EncodeChar c = UInt8.ofNat (c.toNat / 64 ^ more c.toNat + mark (more c.toNat)) ::
      digits (more c.toNat) c.toNat := by
  have code : c.val.toNat = c.toNat := rfl
  unfold String.utf8EncodeChar
  rw [code]
  rcases more_cases (toNat_lt c) with ⟨h, hi⟩ | ⟨h, lo, hi⟩ | ⟨h, lo, hi⟩ | ⟨h, lo, hi⟩
  · rw [h, if_pos (by omega)]
    simp [mark, digits]
  · rw [h, if_neg (by omega), if_pos (by omega), Nat.mod_eq_of_lt (by omega)]
    simp [mark, digits]
  · rw [h, if_neg (by omega), if_neg (by omega), if_pos (by omega),
      Nat.mod_eq_of_lt (b := 16) (by omega)]
    simp [mark, digits]
  · rw [h, if_neg (by omega), if_neg (by omega), if_neg (by omega),
      Nat.mod_eq_of_lt (b := 8) (by omega)]
    simp [mark, digits, Nat.div_div_eq_div_mul]

/-- Bytes are ordered as the numbers that they stand for. -/
theorem ofNat_lt_ofNat {m n : Nat} (h : m < n) (bound : n < 256) : UInt8.ofNat m < UInt8.ofNat n := by
  rw [UInt8.lt_iff_toNat_lt, UInt8.toNat_ofNat', UInt8.toNat_ofNat', Nat.mod_eq_of_lt bound,
    Nat.mod_eq_of_lt (h.trans bound)]
  exact h

/-- The first byte of a character fits. -/
theorem first_lt {n : Nat} (bound : n < 1114112) : n / 64 ^ more n + mark (more n) < 256 := by
  rcases more_cases bound with ⟨h, hi⟩ | ⟨h, lo, hi⟩ | ⟨h, lo, hi⟩ | ⟨h, lo, hi⟩
  all_goals
    rw [h]
    simp only [mark]
    omega

/-- The bytes of a character after its first one are above those of ASCII. -/
theorem digits_ge (count n : Nat) : ∀ b ∈ digits count n, 128 ≤ b.toNat := by
  induction count generalizing n with
  | zero => exact List.forall_mem_nil _
  | succ count ih =>
    intro b hb
    obtain higher | last := List.mem_append.mp hb
    · exact ih (n / 64) b higher
    · rw [List.mem_singleton.mp last, UInt8.toNat_ofNat', Nat.mod_eq_of_lt (by omega)]
      omega

/-- The first byte of a character is its code or above those of ASCII. -/
theorem first_eq_or_ge {n : Nat} (bound : n < 1114112) :
    n / 64 ^ more n + mark (more n) = n ∨ 128 ≤ n / 64 ^ more n + mark (more n) := by
  rcases more_cases bound with ⟨h, -⟩ | ⟨h, -⟩ | ⟨h, -⟩ | ⟨h, -⟩
  · left
    rw [h, Nat.pow_zero, Nat.div_one]
    rfl
  all_goals
    right
    rw [h]
    simp only [mark]
    omega

/-- A character with more bytes has a greater first byte. -/
theorem first_lt_first {m n : Nat} (h : m < n) (bound : n < 1114112) (longer : more m ≠ more n) :
    m / 64 ^ more m + mark (more m) < n / 64 ^ more n + mark (more n) := by
  rcases more_cases (h.trans bound) with ⟨hm, him⟩ | ⟨hm, lom, him⟩ | ⟨hm, lom, him⟩ | ⟨hm, lom, him⟩
  all_goals
    rcases more_cases bound with ⟨hn, hin⟩ | ⟨hn, lon, hin⟩ | ⟨hn, lon, hin⟩ | ⟨hn, lon, hin⟩
    all_goals
      rw [hm, hn] at longer ⊢
      simp only [mark]
      omega

/-- Of two numbers that are written with as many digits the greater has the greater bytes. -/
theorem digits_lt {base count m n : Nat} (h : m < n) (bound : n / 64 ^ count + base < 256)
    (x y : List UInt8) :
    UInt8.ofNat (m / 64 ^ count + base) :: (digits count m ++ x) <
      UInt8.ofNat (n / 64 ^ count + base) :: (digits count n ++ y) := by
  induction count generalizing m n x y with
  | zero =>
    rw [Nat.pow_zero, Nat.div_one] at bound
    simp only [Nat.pow_zero, Nat.div_one]
    exact List.cons_lt_cons_iff.mpr (.inl (ofNat_lt_ofNat (by omega) bound))
  | succ count ih =>
    rw [Nat.pow_succ', ← Nat.div_div_eq_div_mul] at bound ⊢
    rw [← Nat.div_div_eq_div_mul, digits, digits, List.append_assoc, List.append_assoc]
    by_cases high : m / 64 < n / 64
    · exact ih high bound _ _
    · -- The digits before the last are the same.
      have same : m / 64 = n / 64 := by omega
      have last : UInt8.ofNat (m % 64 + 128) < UInt8.ofNat (n % 64 + 128) :=
        ofNat_lt_ofNat (by omega) (by omega)
      rw [same]
      apply List.cons_lt_cons_iff.mpr
      refine .inr ⟨rfl, List.append_left_lt ?_⟩
      exact List.cons_lt_cons_iff.mpr (.inl last)

/-- A greater character has greater bytes, whatever follows. -/
theorem encodeChar_append_lt {c d : Char} (h : c < d) (x y : List UInt8) :
    String.utf8EncodeChar c ++ x < String.utf8EncodeChar d ++ y := by
  have lt : c.toNat < d.toNat := h
  have fits := first_lt (toNat_lt d)
  rw [encodeChar_eq, encodeChar_eq, List.cons_append, List.cons_append]
  by_cases same : more c.toNat = more d.toNat
  · rw [same]
    exact digits_lt lt fits x y
  · have first := first_lt_first lt (toNat_lt d) same
    exact List.cons_lt_cons_iff.mpr (.inl (ofNat_lt_ofNat first fits))

/-- Characters that come later in the order have bytes that do. -/
theorem flatMap_encodeChar_lt {a b : List Char} (h : a < b) :
    a.flatMap String.utf8EncodeChar < b.flatMap String.utf8EncodeChar := by
  induction b generalizing a with
  | nil => exact absurd h (List.not_lt_nil a)
  | cons d b ih =>
    cases a with
    | nil =>
      rw [List.flatMap_nil, List.flatMap_cons, encodeChar_eq, List.cons_append]
      exact List.nil_lt_cons _ _
    | cons c a =>
      rw [List.flatMap_cons, List.flatMap_cons]
      rcases List.cons_lt_cons_iff.mp h with first | ⟨rfl, rest⟩
      · exact encodeChar_append_lt first _ _
      · exact List.append_left_lt (ih rest)

end Utf8

/-- The bytes of a text are those of its characters. -/
theorem bytesOf_eq (text : String) : bytesOf text = text.toList.flatMap String.utf8EncodeChar := by
  rw [bytesOf, String.toUTF8_eq_toByteArray, ← String.utf8Encode_toList, List.utf8Encode,
    List.data_toByteArray]

/-- Texts are ordered by their bytes. -/
theorem bytesOf_lt_iff {a b : String} : bytesOf a < bytesOf b ↔ a < b := by
  have later {a b : String} (h : a < b) : bytesOf a < bytesOf b := by
    rw [bytesOf_eq, bytesOf_eq]
    exact Utf8.flatMap_encodeChar_lt (String.lt_iff.mp h)
  refine ⟨fun h ↦ ?_, later⟩
  rcases lt_trichotomy a b with lt | rfl | gt
  · exact lt
  · exact absurd h (List.lt_irrefl _)
  · exact absurd h (List.lt_asymm (later gt))

end FlatSheet
