import FlatSheet.Proofs.Token.Lossless

/-!
# Where pieces end

Only some characters may stand in a token after its first one, so a token ends in front of any other
character, whatever the text goes on with. Blanks end where something else begins, a line comment ends
at the newline, and a comment between marks at its first closing mark.
-/

namespace FlatSheet

open Pattern

/-! ### Inside a token -/

/-- A character that a token may have after its first. -/
def isInner (c : Char) : Bool := isVariableChar c || c = '-' || c = '=' || c = '%'

private theorem isVariableChar_of_isHexDigit {c : Char} (h : isHexDigit c = true) :
    isVariableChar c = true := by
  simp only [isHexDigit, Bool.or_eq_true, Bool.and_eq_true, decide_eq_true_eq] at h
  simp only [isVariableChar, isSmall, isCapital, Bool.or_eq_true, Bool.and_eq_true,
    decide_eq_true_eq]
  rcases h with (digit | small) | capital
  · exact .inl (.inr digit)
  · exact .inl (.inl (.inl ⟨small.1, Char.le_trans small.2 (by decide)⟩))
  · exact .inl (.inl (.inr ⟨capital.1, Char.le_trans capital.2 (by decide)⟩))

private theorem isInner_of_isVariableChar {c : Char} (h : isVariableChar c = true) :
    isInner c = true := by
  simp [isInner, h]

private theorem isInner_of_isNameChar {c : Char} (h : isNameChar c = true) : isInner c = true := by
  simp only [isNameChar, Bool.or_eq_true, decide_eq_true_eq] at h
  rcases h with (small | digit) | rfl
  · simp [isInner, isVariableChar, small]
  · simp [isInner, isVariableChar, digit]
  · rfl

namespace Kind

/-- Dropped texts are those that begin with a blank or a slash. -/
theorem isDropped_iff {k : Kind} : k.IsDropped ↔ k.head = .blank ∨ k.head = .slash := by
  cases k with
  | symbol s => cases s <;> simp [IsDropped, head, Symbol.words]
  | _ => simp [IsDropped, head]

/-- What writes a token is not dropped. -/
theorem Writes.not_isDropped {k : Kind} {w : List Char} {t : Token} (h : k.Writes w t) :
    ¬ k.IsDropped := by
  cases h <;> simp [IsDropped]

/-- After its first character a number has inner characters only, if its unit has. -/
private theorem isInner_of_mem_tail_number {k : Kind} {unit w : List Char}
    (hunit : k.unit? = some unit) (inner : ∀ c ∈ unit, isInner c = true) (h : w ∈ k.pattern) :
    ∀ c ∈ w.tail, isInner c = true := by
  intro c hc
  have written := exists_writesNumber hunit h
  generalize number w = n at written
  cases written with
  | @digits digits unit' hunit' hdigits =>
    cases hunit.symm.trans hunit'
    rcases List.mem_append.mp (List.mem_of_mem_tail hc) with inDigits | inUnit
    · simp [isInner, isVariableChar, hdigits c inDigits]
    · exact inner c inUnit

/-- After its first character a token has inner characters only. -/
theorem isInner_of_mem_tail {k : Kind} (hk : ¬ k.IsDropped) {w : List Char} (h : w ∈ k.pattern) :
    ∀ c ∈ w.tail, isInner c = true := by
  cases k with
  | blank => exact absurd (by simp [IsDropped]) hk
  | lineComment => exact absurd (by simp [IsDropped]) hk
  | blockComment => exact absurd (by simp [IsDropped]) hk
  | symbol s =>
    rw [mem_exactly.mp h]
    cases s <;> simp [Symbol.chars, isInner, isVariableChar, isSmall]
  | color =>
    obtain ⟨rest, hrest, rfl⟩ := mem_exactly_mul.mp h
    intro c hc
    exact isInner_of_isVariableChar
      (isVariableChar_of_isHexDigit ((mem_oneOf_pow.mp hrest).2 c hc))
  | idSelector | classSelector =>
    obtain ⟨rest, hrest, rfl⟩ := mem_exactly_mul.mp h
    intro c hc
    exact isInner_of_isNameChar ((mem_repeated_oneOf.mp hrest).2 c hc)
  | pixels => exact isInner_of_mem_tail_number rfl (by simp [isInner, isVariableChar, isSmall]) h
  | percentage => exact isInner_of_mem_tail_number rfl (List.forall_mem_singleton.mpr rfl) h
  | scalar => exact isInner_of_mem_tail_number rfl (List.forall_mem_nil _) h
  | variableName =>
    obtain ⟨first, rest, -, hrest, rfl⟩ := mem_oneOf_mul.mp h
    intro c hc
    exact isInner_of_isVariableChar (mem_kstar_oneOf.mp hrest c hc)
  | identifier =>
    obtain ⟨first, rest, -, hrest, rfl⟩ := mem_oneOf_mul.mp h
    intro c hc
    exact isInner_of_isNameChar (mem_kstar_oneOf.mp hrest c hc)

end Kind

/-! ### The ends of pieces -/

/-- A token is the longest match also where the text after it is replaced, from some point on, by one
that does not begin with an inner character. -/
theorem LongestMatch.before {k : Kind} {w middle rest text : List Char}
    (h : LongestMatch k w (w ++ (middle ++ rest))) (hk : ¬ k.IsDropped)
    (stop : ∀ c ∈ text.head?, isInner c = false) : LongestMatch k w (w ++ (middle ++ text)) := by
  refine ⟨List.prefix_append _ _, h.fits, ?_, h.first⟩
  intro other w' hw' inFront
  rw [← List.append_assoc] at h inFront
  by_cases short : w'.length ≤ (w ++ middle).length
  · -- The other match ends before the text is replaced, so it was there already.
    have kept : w' <+: w ++ middle :=
      List.prefix_of_prefix_length_le inFront (List.prefix_append _ _) short
    exact h.longest other w' hw' (kept.trans (List.prefix_append _ _))
  · -- It would have the first character of the new text in it, and not at its start.
    exfalso
    have heads := Kind.head_eq_of_prefix h.fits hw'
      ((List.prefix_append w middle).trans (List.prefix_append _ text)) inFront
    have kept : ¬ other.IsDropped := by
      rw [Kind.isDropped_iff, ← heads, ← Kind.isDropped_iff]
      exact hk
    obtain ⟨more, rfl⟩ : w ++ middle <+: w' :=
      List.prefix_of_prefix_length_le (List.prefix_append _ _) inFront (Nat.le_of_not_le short)
    have after := (List.prefix_append_right_inj _).mp inFront
    cases more with
    | nil => simp at short
    | cons c more =>
      obtain ⟨rest', rfl⟩ := after
      obtain ⟨a, start, hstart, -⟩ := Kind.head_of_mem h.fits
      have inside : c ∈ (w ++ middle ++ c :: more).tail := by
        simp [hstart]
      have inner := Kind.isInner_of_mem_tail kept hw' c inside
      rw [stop c rfl] at inner
      cases inner

/-- Blanks are the longest match in front of what is not blank. -/
theorem longestMatch_blanks {w rest : List Char} (hne : w ≠ []) (hw : ∀ c ∈ w, isBlank c = true)
    (stop : ∀ c ∈ rest.head?, isBlank c = false) : LongestMatch .blank w (w ++ rest) := by
  have fits : w ∈ Kind.blank.pattern := mem_repeated_oneOf.mpr ⟨hne, hw⟩
  have onlyBlank {other : Kind} {w' : List Char} (hw' : w' ∈ other.pattern)
      (inFront : w' <+: w ++ rest) : other = .blank := by
    have heads := Kind.head_eq_of_prefix fits hw' (List.prefix_append w rest) inFront
    cases other with
    | blank => rfl
    | symbol s => cases s <;> cases heads
    | _ => cases heads
  refine ⟨List.prefix_append w rest, fits, ?_, ?_⟩
  · intro other w' hw' inFront
    cases onlyBlank hw' inFront
    have bound := length_le_takeWhile inFront (mem_repeated_oneOf.mp hw').2
    rwa [takeWhile_of_stop hw stop] at bound
  · intro other hw'
    exact .inl (onlyBlank hw' (List.prefix_append w rest))

/-- Only a comment begins with a slash, and only one of its sort with its opening mark. -/
private theorem eq_of_slash {k : Kind} {w : List Char} {c : Char} {text : List Char}
    (h : w ∈ k.pattern) (inFront : w <+: '/' :: c :: text) :
    k = .lineComment ∧ c = '/' ∨ k = .blockComment ∧ c = '*' := by
  obtain ⟨a, start, rfl, head⟩ := Kind.head_of_mem h
  obtain ⟨rfl, -⟩ := List.cons_prefix_cons.mp inFront
  have slash : Kind.head k = .slash := head.symm
  cases k with
  | lineComment =>
    obtain ⟨rest, -, hrest⟩ := mem_exactly_mul.mp h
    rw [← hrest] at inFront
    simp only [List.cons_append, List.cons_prefix_cons] at inFront
    exact .inl ⟨rfl, inFront.2.1.symm⟩
  | blockComment =>
    obtain ⟨rest, -, hrest⟩ := mem_exactly_mul.mp h
    rw [← hrest] at inFront
    simp only [List.cons_append, List.cons_prefix_cons] at inFront
    exact .inr ⟨rfl, inFront.2.1.symm⟩
  | symbol s => cases s <;> cases slash
  | _ => cases slash

/-- A line comment is the longest match in front of a newline, or at the end. -/
theorem longestMatch_lineComment {body rest : List Char} (hbody : ∀ c ∈ body, c ≠ '\n')
    (stop : ∀ c ∈ rest.head?, c = '\n') :
    LongestMatch .lineComment ('/' :: '/' :: body) (('/' :: '/' :: body) ++ rest) := by
  have only {other : Kind} {w' : List Char} (hw' : w' ∈ other.pattern)
      (inFront : w' <+: ('/' :: '/' :: body) ++ rest) : other = .lineComment := by
    rcases eq_of_slash hw' inFront with ⟨rfl, -⟩ | ⟨-, mark⟩
    · rfl
    · cases mark
  have inside : ∀ c ∈ body, decide (c ≠ '\n') = true := by simpa using hbody
  have fits : '/' :: '/' :: body ∈ Kind.lineComment.pattern :=
    mem_exactly_mul.mpr ⟨body, mem_kstar_oneOf.mpr inside, rfl⟩
  refine ⟨List.prefix_append _ _, fits, ?_, ?_⟩
  · intro other w' hw' inFront
    cases only hw' inFront
    obtain ⟨body', hbody', rfl⟩ := mem_exactly_mul.mp hw'
    have after : body' <+: body ++ rest := (List.prefix_append_right_inj ['/', '/']).mp inFront
    have bound := length_le_takeWhile after (mem_kstar_oneOf.mp hbody')
    have stopped : ∀ c ∈ rest.head?, decide (c ≠ '\n') = false := by simpa using stop
    rw [takeWhile_of_stop inside stopped] at bound
    simpa using bound
  · intro other hw'
    exact .inl (only hw' (List.prefix_append _ _))

/-- A closed comment is the longest match in front of any text. -/
theorem longestMatch_blockComment {w : List Char} (h : w ∈ Kind.blockComment.pattern)
    (rest : List Char) : LongestMatch .blockComment w (w ++ rest) := by
  obtain ⟨body, hbody, rfl⟩ := mem_exactly_mul.mp h
  have only {other : Kind} {w' : List Char} (hw' : w' ∈ other.pattern)
      (inFront : w' <+: ['/', '*'] ++ body ++ rest) : other = .blockComment := by
    rcases eq_of_slash hw' inFront with ⟨-, mark⟩ | ⟨rfl, -⟩
    · cases mark
    · rfl
  refine ⟨List.prefix_append _ _, h, ?_, ?_⟩
  · intro other w' hw' inFront
    cases only hw' inFront
    obtain ⟨n, found, bound⟩ := (Kind.blockComment.measures _).greatest w' hw' inFront
    have closed : commentEnd? (body ++ rest) = some body.length := commentEnd?_of_mem hbody rest
    have length : Kind.blockComment.longest? (['/', '*'] ++ body ++ rest) =
        some (2 + body.length) := by
      show (commentEnd? (body ++ rest)).map (2 + ·) = _
      rw [closed]
      rfl
    rw [length] at found
    cases found
    simp only [List.length_append, List.length_cons, List.length_nil]
    omega
  · intro other hw'
    exact .inl (only hw' (List.prefix_append _ _))

end FlatSheet
