import Mathlib.Data.List.DropRight
import FlatSheet.Source.Lines

/-!
# The position after a text

The position after a text is found by counting: its line by the newlines in the text, its column by
the bytes after the last of them. The search among the starts of lines finds the same position for
the offset at which the text ends, and columns further on for the offsets within the next character.
-/

namespace FlatSheet

/-- Where a source goes on after a text: lines count its newlines, columns the bytes after the last
one. -/
def Position.after (text : List Char) : Position :=
  ⟨1 + text.count '\n', 1 + byteCount (text.rtakeWhile (· ≠ '\n'))⟩

/-! ### Starts of lines -/

/-- Newlines after a first text are offset by its bytes. -/
theorem offsetsAfterNewlines_append (offset : Nat) (a b : List Char) :
    offsetsAfterNewlines offset (a ++ b) =
      offsetsAfterNewlines offset a ++ offsetsAfterNewlines (offset + byteCount a) b := by
  induction a generalizing offset with
  | nil => rfl
  | cons c a ih =>
    have next := ih (offset + c.utf8Size)
    rw [Nat.add_assoc, ← byteCount_cons] at next
    by_cases newline : c = '\n'
    · simp only [List.cons_append, offsetsAfterNewlines, if_pos newline, next]
    · simp only [List.cons_append, offsetsAfterNewlines, if_neg newline, next]

/-- There is one offset for each newline. -/
theorem length_offsetsAfterNewlines (offset : Nat) (text : List Char) :
    (offsetsAfterNewlines offset text).length = text.count '\n' := by
  induction text generalizing offset with
  | nil => rfl
  | cons c text ih =>
    by_cases newline : c = '\n'
    · subst newline
      simp only [offsetsAfterNewlines, if_true, List.length_cons, ih, List.count_cons_self]
    · simp only [offsetsAfterNewlines, if_neg newline, ih, List.count_cons_of_ne newline]

/-- After its beginning a text has no line that starts within its first character. -/
theorem le_of_mem_offsetsAfterNewlines (offset : Nat) (c : Char) (text : List Char) :
    ∀ start ∈ offsetsAfterNewlines offset (c :: text), offset + c.utf8Size ≤ start := by
  induction text generalizing offset c with
  | nil =>
    intro start hstart
    by_cases newline : c = '\n'
    · simp only [offsetsAfterNewlines, if_pos newline, List.mem_singleton] at hstart
      omega
    · simp [offsetsAfterNewlines, newline] at hstart
  | cons d text ih =>
    intro start hstart
    have later := ih (offset + c.utf8Size) d start
    rw [offsetsAfterNewlines] at hstart
    split at hstart
    · obtain rfl | hstart := List.mem_cons.mp hstart
      · exact Nat.le_refl _
      · have := later hstart
        omega
    · have := later hstart
      omega

/-- The starts of lines increase, and the last line starts so many bytes before the end of a text as come
after its last newline. -/
theorem exists_lastStart (text : List Char) :
    ∃ before last, 0 :: offsetsAfterNewlines 0 text = before ++ [last] ∧
      (∀ start ∈ before, start < last) ∧
      last + byteCount (text.rtakeWhile (· ≠ '\n')) = byteCount text := by
  induction text using List.reverseRecOn with
  | nil => exact ⟨[], 0, rfl, List.forall_mem_nil _, rfl⟩
  | append_singleton text c ih =>
    obtain ⟨before, last, starts, increasing, column⟩ := ih
    have split := offsetsAfterNewlines_append 0 text [c]
    by_cases newline : c = '\n'
    · -- A line starts after the newline, and what were the starts are before it.
      subst newline
      have added : offsetsAfterNewlines (0 + byteCount text) ['\n'] = [byteCount text + 1] := by
        simp [offsetsAfterNewlines]
        rfl
      rw [added] at split
      refine ⟨before ++ [last], byteCount text + 1, ?_, ?_, ?_⟩
      · rw [split, ← starts, List.cons_append]
      · intro start hstart
        obtain earlier | final := List.mem_append.mp hstart
        · have := increasing start earlier
          omega
        · rw [List.mem_singleton.mp final]
          omega
      · rw [List.rtakeWhile_concat_neg _ _ _ (by simp), byteCount_append]
        rfl
    · have added : offsetsAfterNewlines (0 + byteCount text) [c] = [] := by
        simp [offsetsAfterNewlines, newline]
      rw [added, List.append_nil] at split
      refine ⟨before, last, ?_, increasing, ?_⟩
      · rw [split, starts]
      · rw [List.rtakeWhile_concat_pos _ _ _ (by simp [newline]), byteCount_append,
          byteCount_append, ← Nat.add_assoc, column]

namespace Lines

/-! ### The search -/

/-- The search ends at a start that is at most the offset, and at the last one that is if those
before which it searches are greater. -/
theorem lastUpTo_spec (starts : Array Nat) (offset low high : Nat) (inside : high ≤ starts.size)
    (nonempty : low < high) (before : starts[low] ≤ offset)
    (after : ∀ h : high < starts.size, offset < starts[high]) :
    ∃ h : lastUpTo starts offset low high inside < starts.size,
      starts[lastUpTo starts offset low high inside] ≤ offset ∧
        ∀ h : lastUpTo starts offset low high inside + 1 < starts.size,
          offset < starts[lastUpTo starts offset low high inside + 1] := by
  fun_induction lastUpTo starts offset low high inside with
  | case1 low high inside wide middle found ih => exact ih (by omega) found after
  | case2 low high inside wide middle found ih =>
    exact ih (by omega) before (fun _ ↦ Nat.lt_of_not_le found)
  | case3 low high inside narrow =>
    have last : high = low + 1 := by omega
    subst last
    exact ⟨inside, before, after⟩

/-- The search finds the last of some starts that are at most the offset before others that are
greater. -/
theorem lastUpTo_append {upTo past : List Nat} {offset : Nat} (nonempty : upTo ≠ [])
    (hupTo : ∀ start ∈ upTo, start ≤ offset) (hpast : ∀ start ∈ past, offset < start) :
    lastUpTo (upTo ++ past).toArray offset 0 (upTo ++ past).toArray.size (Nat.le_refl _) + 1 =
      upTo.length := by
  have pos := List.length_pos_iff.mpr nonempty
  have size : (upTo ++ past).toArray.size = upTo.length + past.length := by simp
  have small {i : Nat} (h : i < (upTo ++ past).toArray.size) (hi : i < upTo.length) :
      (upTo ++ past).toArray[i] ≤ offset := by
    rw [List.getElem_toArray, List.getElem_append_left hi]
    exact hupTo _ (List.getElem_mem hi)
  have great {i : Nat} (h : i < (upTo ++ past).toArray.size) (hi : upTo.length ≤ i) :
      offset < (upTo ++ past).toArray[i] := by
    rw [List.getElem_toArray, List.getElem_append_right hi]
    exact hpast _ (List.getElem_mem _)
  obtain ⟨bound, upper, lower⟩ := lastUpTo_spec (upTo ++ past).toArray offset 0
    (upTo ++ past).toArray.size (Nat.le_refl _) (by omega) (small _ pos)
    (fun h ↦ absurd h (Nat.lt_irrefl _))
  generalize lastUpTo (upTo ++ past).toArray offset 0 (upTo ++ past).toArray.size
    (Nat.le_refl _) = i at bound upper lower ⊢
  have notPast : i < upTo.length := by
    by_contra h
    have := great bound (Nat.le_of_not_lt h)
    omega
  have notBefore : ¬ i + 1 < upTo.length := by
    intro h
    have := small (by omega) h
    have := lower (by omega)
    omega
  omega

/-- The position of an offset that is not before the last of some starts, and before others. -/
theorem position_of_starts {lines : Lines} {before past : List Nat} {last offset : Nat}
    (starts : lines.starts = (before ++ last :: past).toArray)
    (increasing : ∀ start ∈ before, start < last) (reached : last ≤ offset)
    (hpast : ∀ start ∈ past, offset < start) :
    lines.position offset = ⟨before.length + 1, offset - last + 1⟩ := by
  obtain ⟨_⟩ := lines
  cases starts
  have upTo : ∀ start ∈ before ++ [last], start ≤ offset := by
    intro start hstart
    obtain earlier | final := List.mem_append.mp hstart
    · have := increasing start earlier
      omega
    · rwa [List.mem_singleton.mp final]
  have line := lastUpTo_append (List.concat_ne_nil last before) upTo hpast
  rw [List.append_assoc, List.singleton_append, List.length_append, List.length_singleton,
    Nat.add_right_cancel_iff] at line
  simp only [position, line]
  rw [Array.getD_eq_getD_getElem?, List.getElem?_toArray,
    List.getElem?_append_right (Nat.le_refl _), Nat.sub_self]
  rfl

/-- The starts of the lines of a source around an offset that is not past the character at which a text
ends, or past the end of the source. -/
theorem starts_ofSource (text rest : List Char) {extra : Nat}
    (short : ∀ c ∈ rest.head?, extra < c.utf8Size) :
    ∃ before last past, (ofSource (text ++ rest)).starts = (before ++ last :: past).toArray ∧
      before.length = text.count '\n' ∧ (∀ start ∈ before, start < last) ∧
      last + byteCount (text.rtakeWhile (· ≠ '\n')) = byteCount text ∧
      ∀ start ∈ past, byteCount text + extra < start := by
  obtain ⟨before, last, starts, increasing, column⟩ := exists_lastStart text
  refine ⟨before, last, offsetsAfterNewlines (byteCount text) rest, ?_, ?_, increasing, column, ?_⟩
  · have all : 0 :: offsetsAfterNewlines 0 (text ++ rest) =
        before ++ last :: offsetsAfterNewlines (byteCount text) rest := by
      rw [offsetsAfterNewlines_append, Nat.zero_add, ← List.cons_append, starts,
        List.append_assoc, List.singleton_append]
    rw [ofSource, all]
  · have count := congrArg List.length starts
    rw [List.length_cons, length_offsetsAfterNewlines, List.length_append,
      List.length_singleton] at count
    omega
  · cases rest with
    | nil => nofun
    | cons c rest =>
      have inside := short c rfl
      intro start hstart
      have := le_of_mem_offsetsAfterNewlines (byteCount text) c rest start hstart
      omega

/-- An offset that is so many bytes after the end of a text, and not past the character there, is so
many columns after the position there. -/
theorem position_ofSource_add (text rest : List Char) {extra : Nat}
    (short : ∀ c ∈ rest.head?, extra < c.utf8Size) :
    (ofSource (text ++ rest)).position (byteCount text + extra) =
      ⟨(Position.after text).line, (Position.after text).column + extra⟩ := by
  obtain ⟨before, last, past, starts, lines, increasing, column, hpast⟩ :=
    starts_ofSource text rest short
  rw [position_of_starts starts increasing (by omega) hpast, lines]
  simp only [Position.after, Position.mk.injEq]
  omega

/-- The position of the offset at which a text ends is the position after it. -/
theorem position_ofSource (text rest : List Char) :
    (ofSource (text ++ rest)).position (byteCount text) = .after text :=
  @position_ofSource_add text rest 0 fun c _ ↦ c.utf8Size_pos

end Lines

end FlatSheet
