/-!
# Amounts

An amount is a whole number that a signed word of sixty-four bits can hold. Arithmetic on amounts is
that of the integers; a result outside the range is no amount.
-/

namespace FlatSheet

/-- A whole number from `-2 ^ 63` up to `2 ^ 63 - 1`. -/
structure Amount where
  value : Int
  least_le : -9223372036854775808 ≤ value
  le_greatest : value ≤ 9223372036854775807
deriving DecidableEq

namespace Amount

/-- Amounts are equal whenever their values agree. -/
theorem ext {a b : Amount} (h : a.value = b.value) : a = b := by
  cases a
  cases b
  cases h
  rfl

/-- The amount of an integer, if it is in the range. -/
def ofInt? (n : Int) : Option Amount :=
  if h : -9223372036854775808 ≤ n ∧ n ≤ 9223372036854775807 then some ⟨n, h.1, h.2⟩ else none

/-- The sum, if it is in the range. -/
def add? (a b : Amount) : Option Amount := ofInt? (a.value + b.value)

/-- The difference, if it is in the range. -/
def sub? (a b : Amount) : Option Amount := ofInt? (a.value - b.value)

/-- The product, if it is in the range. -/
def mul? (a b : Amount) : Option Amount := ofInt? (a.value * b.value)

/-- The decimal digits of an amount, after a minus sign if it is negative. -/
def text (a : Amount) : String :=
  if a.value < 0 then "-" ++ a.value.natAbs.repr else a.value.natAbs.repr

/-- An integer has an amount exactly when it is in the range, and it is the value of that amount. -/
theorem ofInt?_eq_some_iff {n : Int} {a : Amount} : ofInt? n = some a ↔ a.value = n := by
  constructor
  · intro h
    unfold ofInt? at h
    split at h
    · cases h
      rfl
    · cases h
  · rintro rfl
    exact dif_pos ⟨a.least_le, a.le_greatest⟩

/-- An integer has no amount exactly when it is out of the range. -/
theorem ofInt?_eq_none_iff {n : Int} :
    ofInt? n = none ↔ n < -9223372036854775808 ∨ 9223372036854775807 < n := by
  unfold ofInt?
  split <;> simp <;> omega

end Amount

end FlatSheet
