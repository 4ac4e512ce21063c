import Mathlib.Data.Nat.PSub
import FlatSheet.Proofs.Source.Bytes
import FlatSheet.Proofs.Source.Order

/-!
# The position of any byte

Not only the ends of texts have positions. An offset may fall within a character or past the end of a
source, and its position is found by counting in the bytes before it: the line by their newlines, the
column by the bytes after the last of these. Nowhere on the way to it is a number subtracted from a
smaller one, and different offsets have different positions, in the same order.
-/

namespace FlatSheet

/-! ### Counting bytes -/

/-- The byte of a newline. -/
def newline : UInt8 := 10

/-- The number of newlines before an offset. -/
def newlinesBefore (bytes : List UInt8) (offset : Nat) : Nat := (bytes.take offset).count newline

/-- Where the last newline before an offset ends, and the beginning of the bytes where there is none. -/
def lineStart (bytes : List UInt8) (offset : Nat) : Nat :=
  ((bytes.take offset).rdropWhile (· ≠ newline)).length

/-- A line starts at an offset or before it. -/
theorem lineStart_le (bytes : List UInt8) (offset : Nat) : lineStart bytes offset ≤ offset := by
  have dropped := (List.rdropWhile_prefix (· ≠ newline) (bytes.take offset)).length_le
  have taken := List.length_take_le offset bytes
  exact dropped.trans taken

/-- There are no more newlines before an offset than bytes. -/
theorem newlinesBefore_le (bytes : List UInt8) (offset : Nat) :
    newlinesBefore bytes offset ≤ offset :=
  List.count_le_length.trans (List.length_take_le offset bytes)

/-- The position that counting gives to an offset. -/
def Position.ofOffset (bytes : List UInt8) (offset : Nat) : Position :=
  ⟨1 + newlinesBefore bytes offset, 1 + (offset - lineStart bytes offset)⟩

/-- Bytes without a newline do not move the start of the last line. -/
theorem rdropWhile_append_of_notMem {bytes more : List UInt8} (h : newline ∉ more) :
    (bytes ++ more).rdropWhile (· ≠ newline) = bytes.rdropWhile (· ≠ newline) := by
  have dropped : ∀ b ∈ more.reverse, decide (b ≠ newline) = true := by
    intro b hb
    rw [List.mem_reverse] at hb
    simpa using fun same : b = newline ↦ h (same ▸ hb)
  rw [List.rdropWhile, List.reverse_append, List.dropWhile_append_of_pos dropped, List.rdropWhile]

/-- A greater offset has a later position. -/
theorem Position.ofOffset_before (bytes : List UInt8) {a b : Nat} (h : a < b) :
    (ofOffset bytes a).Before (ofOffset bytes b) := by
  obtain ⟨more, rfl⟩ := Nat.exists_eq_add_of_lt h
  have split : bytes.take (a + more + 1) = bytes.take a ++ (bytes.drop a).take (more + 1) := by
    rw [Nat.add_assoc, List.take_add]
  by_cases passed : newline ∈ (bytes.drop a).take (more + 1)
  · -- The line grows with the newline.
    have counted := List.count_pos_iff.mpr passed
    left
    simp only [ofOffset, newlinesBefore, split, List.count_append]
    omega
  · -- Without one the line and its start stay.
    have noCount := List.count_eq_zero.mpr passed
    have reached := lineStart_le bytes a
    have same : lineStart bytes (a + more + 1) = lineStart bytes a := by
      rw [lineStart, split, rdropWhile_append_of_notMem passed, lineStart]
    right
    simp only [ofOffset, newlinesBefore, split, List.count_append, noCount, same]
    omega

/-! ### The bytes of characters -/

/-- Of all characters only the newline has its byte. -/
theorem newline_mem_encodeChar {c : Char} : newline ∈ String.utf8EncodeChar c ↔ c = '\n' := by
  constructor
  · intro h
    have byte : newline.toNat = 10 := rfl
    have char : '\n'.toNat = 10 := rfl
    rw [Utf8.encodeChar_eq] at h
    obtain first | digit := List.mem_cons.mp h
    · have code := congrArg UInt8.toNat first
      rw [UInt8.toNat_ofNat', Nat.mod_eq_of_lt (Utf8.first_lt (Utf8.toNat_lt c))] at code
      rcases Utf8.first_eq_or_ge (Utf8.toNat_lt c) with same | above
      · exact Char.toNat_inj.mp (by omega)
      · omega
    · have above := Utf8.digits_ge _ _ _ digit
      omega
  · rintro rfl
    decide

/-- A text has as many bytes as its characters take. -/
theorem length_encode (text : List Char) :
    (text.flatMap String.utf8EncodeChar).length = byteCount text := by
  induction text with
  | nil => rfl
  | cons c text ih =>
    rw [List.flatMap_cons, List.length_append, String.length_utf8EncodeChar, ih, byteCount_cons]

/-- The newlines among the bytes of a text are those among its characters. -/
theorem count_encode (text : List Char) :
    (text.flatMap String.utf8EncodeChar).count newline = text.count '\n' := by
  induction text with
  | nil => rfl
  | cons c text ih =>
    rw [List.flatMap_cons, List.count_append, ih]
    by_cases h : c = '\n'
    · subst h
      rw [List.count_cons_self, Nat.add_comm]
      rfl
    · rw [List.count_cons_of_ne h, List.count_eq_zero.mpr (mt newline_mem_encodeChar.mp h),
        Nat.zero_add]

/-- The last line of the bytes of a text is made of the bytes of its last line. -/
theorem length_rdropWhile_encode (text : List Char) :
    ((text.flatMap String.utf8EncodeChar).rdropWhile (· ≠ newline)).length +
      byteCount (text.rtakeWhile (· ≠ '\n')) = byteCount text := by
  induction text using List.reverseRecOn with
  | nil => rfl
  | append_singleton text c ih =>
    rw [List.flatMap_append, List.flatMap_singleton, byteCount_append]
    by_cases h : c = '\n'
    · subst h
      have kept : (text.flatMap String.utf8EncodeChar ++ String.utf8EncodeChar '\n').rdropWhile
          (· ≠ newline) = text.flatMap String.utf8EncodeChar ++ String.utf8EncodeChar '\n' :=
        List.rdropWhile_concat_neg _ _ newline (by simp)
      rw [kept, List.rtakeWhile_concat_neg _ _ _ (by simp), List.length_append, length_encode]
      rfl
    · rw [rdropWhile_append_of_notMem (mt newline_mem_encodeChar.mp h),
        List.rtakeWhile_concat_pos _ _ _ (by simp [h]), byteCount_append, ← Nat.add_assoc, ih]

/-- An offset is at the end of a text or within the character there, or past the end of a source. -/
theorem exists_text_upTo (source : List Char) (offset : Nat) :
    ∃ text rest extra, source = text ++ rest ∧ offset = byteCount text + extra ∧
      ∀ c ∈ rest.head?, extra < c.utf8Size := by
  induction source generalizing offset with
  | nil => exact ⟨[], [], offset, rfl, (Nat.zero_add offset).symm, nofun⟩
  | cons c source ih =>
    by_cases within : offset < c.utf8Size
    · refine ⟨[], c :: source, offset, rfl, (Nat.zero_add offset).symm, ?_⟩
      intro d hd
      cases hd
      exact within
    · obtain ⟨text, rest, extra, rfl, hoffset, short⟩ := ih (offset - c.utf8Size)
      refine ⟨c :: text, rest, extra, rfl, ?_, short⟩
      rw [byteCount_cons]
      omega

/-- There is no newline between the end of a text and an offset within the character there. -/
theorem newline_notMem_take {rest : List Char} {extra : Nat}
    (short : ∀ c ∈ rest.head?, extra < c.utf8Size) :
    newline ∉ (rest.flatMap String.utf8EncodeChar).take extra := by
  cases rest with
  | nil => simp
  | cons c rest =>
    have inside := short c rfl
    rw [List.flatMap_cons,
      List.take_append_of_le_length (by rw [String.length_utf8EncodeChar]; omega)]
    by_cases h : c = '\n'
    · -- A newline is one byte, and nothing of it is before the offset.
      subst h
      have none : extra = 0 := Nat.lt_one_iff.mp inside
      simp [none]
    · exact fun taken ↦ h (newline_mem_encodeChar.mp (List.mem_of_mem_take taken))

/-- An offset within the character after a text is as many columns after the position there. -/
theorem Position.ofOffset_encode (text rest : List Char) {extra : Nat}
    (short : ∀ c ∈ rest.head?, extra < c.utf8Size) :
    ofOffset ((text ++ rest).flatMap String.utf8EncodeChar) (byteCount text + extra) =
      ⟨(after text).line, (after text).column + extra⟩ := by
  have taken : ((text ++ rest).flatMap String.utf8EncodeChar).take (byteCount text + extra) =
      text.flatMap String.utf8EncodeChar ++ (rest.flatMap String.utf8EncodeChar).take extra := by
    rw [List.flatMap_append, ← length_encode, List.take_length_add_append]
  have noMore := newline_notMem_take short
  have start := length_rdropWhile_encode text
  simp only [ofOffset, newlinesBefore, lineStart, taken, rdropWhile_append_of_notMem noMore,
    List.count_append, count_encode, List.count_eq_zero.mpr noMore, after, Position.mk.injEq]
  omega

namespace Lines

/-! ### Checked arithmetic -/

/-- What a search for a number among increasing ones answers: where it is, or where it would have to be
put in. -/
inductive Found where
  | here (index : Nat)
  | before (index : Nat)
deriving DecidableEq

/-- The answer that a search for a number among increasing ones has to give. -/
def search (starts : List Nat) (offset : Nat) : Found :=
  match starts.idxOf? offset with
  | some index => .here index
  | none => .before (starts.countP (· < offset))

/-- The position of an offset, without a result if a number were subtracted from a smaller one or a
line had no start. -/
def position? (lines : Lines) (offset : Nat) : Option Position := do
  let line ← match search lines.starts.toList offset with
    | .here line => some line
    | .before next => next.psub 1
  let start ← lines.starts[line]?
  let column ← offset.psub start
  return ⟨line + 1, column + 1⟩

/-- The last start that is not after an offset is found itself or is just before where the search ends. -/
theorem search_of_starts {before past : List Nat} {last offset : Nat}
    (increasing : ∀ start ∈ before, start < last) (reached : last ≤ offset)
    (hpast : ∀ start ∈ past, offset < start) :
    search (before ++ last :: past) offset =
      if offset = last then .here before.length else .before (before.length + 1) := by
  have earlier : offset ∉ before := fun h ↦ by
    have := increasing offset h
    omega
  have later : offset ∉ past := fun h ↦ Nat.lt_irrefl offset (hpast offset h)
  by_cases same : offset = last
  · subst same
    have found : (before ++ offset :: past).idxOf? offset = some before.length := by
      rw [List.idxOf?_eq_some_iff]
      refine ⟨by simp, by simp, fun j hj equal ↦ earlier ?_⟩
      rw [← equal, List.getElem_append_left hj]
      exact List.getElem_mem hj
    rw [search, found, if_pos rfl]
  · have absent : (before ++ last :: past).idxOf? offset = none := by
      rw [List.idxOf?_eq_none_iff]
      simp [earlier, later, same]
    have allBefore : before.countP (· < offset) = before.length := by
      rw [List.countP_eq_length]
      intro start hstart
      have := increasing start hstart
      exact decide_eq_true (by omega)
    have noneAfter : past.countP (· < offset) = 0 := by
      rw [List.countP_eq_zero]
      intro start hstart
      simpa using (hpast start hstart).le
    have less : last < offset := by omega
    rw [search, absent, if_neg same, List.countP_append, List.countP_cons, allBefore, noneAfter]
    simp [less]

/-- Every step to the position of an offset has a result. -/
theorem position?_of_starts {lines : Lines} {before past : List Nat} {last offset : Nat}
    (starts : lines.starts = (before ++ last :: past).toArray)
    (increasing : ∀ start ∈ before, start < last) (reached : last ≤ offset)
    (hpast : ∀ start ∈ past, offset < start) :
    lines.position? offset = some ⟨before.length + 1, offset - last + 1⟩ := by
  have answer := search_of_starts increasing reached hpast
  have column : offset.psub last = some (offset - last) :=
    Nat.psub_eq_some.mpr (Nat.sub_add_cancel reached)
  by_cases same : offset = last
  · rw [if_pos same] at answer
    simp [position?, starts, answer, column]
  · rw [if_neg same] at answer
    simp [position?, starts, answer, column]

/-- The position of any offset is found without a subtraction from a smaller number. -/
theorem position?_ofSource (source : List Char) (offset : Nat) :
    (ofSource source).position? offset = some ((ofSource source).position offset) := by
  obtain ⟨text, rest, extra, rfl, rfl, short⟩ := exists_text_upTo source offset
  obtain ⟨before, last, past, starts, -, increasing, column, hpast⟩ :=
    starts_ofSource text rest short
  have reached : last ≤ byteCount text + extra := by omega
  rw [position?_of_starts starts increasing reached hpast,
    position_of_starts starts increasing reached hpast]

/-- The search among the starts of lines and the count of newlines give one position. -/
theorem position_eq_ofOffset (source : String) (offset : Nat) :
    (ofSource source.toList).position offset = .ofOffset (bytesOf source) offset := by
  obtain ⟨text, rest, extra, hsource, rfl, short⟩ := exists_text_upTo source.toList offset
  rw [bytesOf_eq, hsource, Position.ofOffset_encode text rest short,
    position_ofSource_add text rest short]

/-- An offset before the end of a source or past it is on the line after the newlines before it, in the
column after the bytes since the last of them. No step on the way subtracts from a smaller number, and no
number exceeds the offset by more than one. Positions are different for different offsets and in their
order. -/
theorem position_counts_bytes (source : String) :
    (∀ offset,
      (ofSource source.toList).position? offset = some ((ofSource source.toList).position offset) ∧
      lineStart (bytesOf source) offset ≤ offset ∧
      (ofSource source.toList).position offset =
        ⟨1 + newlinesBefore (bytesOf source) offset,
          1 + (offset - lineStart (bytesOf source) offset)⟩ ∧
      ((ofSource source.toList).position offset).line ≤ offset + 1 ∧
      ((ofSource source.toList).position offset).column ≤ offset + 1) ∧
    Function.Injective (ofSource source.toList).position ∧
    ∀ a b, ((ofSource source.toList).position a).Before ((ofSource source.toList).position b) ↔
      a < b := by
  have later {a b : Nat} (h : a < b) :
      ((ofSource source.toList).position a).Before ((ofSource source.toList).position b) := by
    rw [position_eq_ofOffset, position_eq_ofOffset]
    exact Position.ofOffset_before (bytesOf source) h
  refine ⟨fun offset ↦ ?_, fun a b same ↦ ?_, fun a b ↦ ⟨fun h ↦ ?_, later⟩⟩
  · have counted := position_eq_ofOffset source offset
    have lines := newlinesBefore_le (bytesOf source) offset
    refine ⟨position?_ofSource source.toList offset, lineStart_le _ _, counted, ?_, ?_⟩
    · simp only [counted, Position.ofOffset]
      omega
    · simp only [counted, Position.ofOffset]
      omega
  · rcases Nat.lt_trichotomy a b with less | equal | greater
    · exact absurd (same ▸ later less) (Position.not_before _)
    · exact equal
    · exact absurd (same ▸ later greater) (Position.not_before _)
  · rcases Nat.lt_trichotomy a b with less | rfl | greater
    · exact less
    · exact absurd h (Position.not_before _)
    · exact absurd (h.trans (later greater)) (Position.not_before _)

-- The second byte of a character, and an offset past the end.
example : (ofSource "a\né;".toList).position 3 = ⟨2, 2⟩ ∧
    (ofSource "a\n".toList).position 9 = ⟨2, 8⟩ := by decide +kernel

end Lines

end FlatSheet
