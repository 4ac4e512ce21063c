import FlatSheet.Proofs.Source.Positions

/-!
# The order of positions

Positions are ordered by line and then by column. The position after a text comes before that after a
longer one, so a position says where in a source it is.
-/

namespace FlatSheet

namespace Position

/-- A position is on an earlier line than another, or on the same line in an earlier column. -/
def Before (p q : Position) : Prop := p.line < q.line ∨ p.line = q.line ∧ p.column < q.column

instance (p q : Position) : Decidable (p.Before q) :=
  inferInstanceAs (Decidable (p.line < q.line ∨ p.line = q.line ∧ p.column < q.column))

/-- No position is before itself. -/
theorem not_before (p : Position) : ¬ p.Before p := by
  unfold Before
  omega

theorem Before.trans {p q r : Position} (h : p.Before q) (h' : q.Before r) : p.Before r := by
  unfold Before at *
  omega

/-- The position after a text is before that after a longer one. -/
theorem after_before_append (text : List Char) {more : List Char} (hne : more ≠ []) :
    (after text).Before (after (text ++ more)) := by
  by_cases newline : '\n' ∈ more
  · -- The line grows with the newline.
    have counted := List.count_pos_iff.mpr newline
    left
    simp only [after, List.count_append]
    omega
  · -- Without one the line stays, and the last line grows by all that is added.
    have noCount : more.count '\n' = 0 := List.count_eq_zero.mpr newline
    have kept : ∀ c ∈ more.reverse, decide (c ≠ '\n') = true := by
      intro c hc
      rw [List.mem_reverse] at hc
      simpa using fun same : c = '\n' ↦ newline (same ▸ hc)
    have lastLine : (text ++ more).rtakeWhile (· ≠ '\n') = text.rtakeWhile (· ≠ '\n') ++ more := by
      rw [List.rtakeWhile, List.reverse_append, List.takeWhile_append_of_pos kept,
        List.reverse_append, List.reverse_reverse, List.rtakeWhile]
    have bytes : 0 < byteCount more := by
      obtain ⟨c, rest, rfl⟩ := List.exists_cons_of_ne_nil hne
      have := c.utf8Size_pos
      rw [byteCount_cons]
      omega
    right
    simp only [after, List.count_append, noCount, lastLine, byteCount_append]
    omega

/-- A position says after how much of a source it is. -/
theorem eq_of_after_eq {a b a' b' : List Char} (same : a ++ a' = b ++ b')
    (position : after a = after b) : a = b := by
  have shorter {a b : List Char} (h : a <+: b) (position : after a = after b) : a = b := by
    obtain ⟨more, rfl⟩ := h
    by_contra longer
    have hne : more ≠ [] := by
      rintro rfl
      exact longer (List.append_nil a).symm
    have before := after_before_append a hne
    rw [← position] at before
    exact not_before _ before
  rcases List.prefix_or_prefix_of_prefix (List.prefix_append a a') (same ▸ List.prefix_append b b')
    with h | h
  · exact shorter h position
  · exact (shorter h position.symm).symm

end Position

end FlatSheet
