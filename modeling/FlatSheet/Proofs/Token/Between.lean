import FlatSheet.Proofs.Reading.Contracts
import FlatSheet.Proofs.Token.Boundary

/-!
# What stands between tokens

Blanks and closed comments may be put right before or right after a token and nothing else is read:
they are dropped whole, and no token begins or ends elsewhere than before. A newline keeps apart what is
read before it from what is read after it.
-/

namespace FlatSheet

open Pattern

/-- A text is read into some tokens, wherever they stand. -/
def ReadAs (text : List Char) (tokens : List Token) : Prop :=
  ∃ lexemes, lex text = .ok lexemes ∧ tokensOf lexemes = tokens

/-! ### Pieces and their tokens -/

/-- What pieces write after some text they write after any other, in other places. -/
theorem Written.elsewhere {before : List Char} {pieces : List Piece} {lexemes : List Lexeme}
    (h : Written before pieces lexemes) (other : List Char) :
    ∃ lexemes', Written other pieces lexemes' ∧ tokensOf lexemes' = tokensOf lexemes := by
  induction h generalizing other with
  | nil => exact ⟨[], .nil other, rfl⟩
  | @dropped before p pieces lexemes dropped _ ih =>
    obtain ⟨lexemes', written, same⟩ := ih (other ++ p.text)
    exact ⟨lexemes', .dropped dropped written, same⟩
  | @token before p t pieces lexemes writes _ ih =>
    obtain ⟨lexemes', written, same⟩ := ih (other ++ p.text)
    refine ⟨_, .token writes written, ?_⟩
    rw [tokensOf_cons, tokensOf_cons, same]

/-- Two runs of pieces write their lexemes one after the other. -/
theorem Written.split {before : List Char} {a b : List Piece} {lexemes : List Lexeme}
    (h : Written before (a ++ b) lexemes) :
    ∃ first last, lexemes = first ++ last ∧ Written before a first ∧
      Written (before ++ a.flatMap Piece.text) b last := by
  induction a generalizing before lexemes with
  | nil =>
    refine ⟨[], lexemes, rfl, .nil before, ?_⟩
    rw [List.flatMap_nil, List.append_nil]
    exact h
  | cons p a ih =>
    rw [List.flatMap_cons, ← List.append_assoc]
    cases h with
    | dropped dropped h =>
      obtain ⟨first, last, rfl, left, right⟩ := ih h
      exact ⟨first, last, rfl, .dropped dropped left, right⟩
    | token writes h =>
      obtain ⟨first, last, rfl, left, right⟩ := ih h
      exact ⟨_ :: first, last, rfl, .token writes left, right⟩

/-- The last of some pieces are the longest matches at their places. -/
theorem AllLongest.right {a b : List Piece} {rest : List Char} (h : AllLongest (a ++ b) rest) :
    AllLongest b rest := by
  induction a with
  | nil => exact h
  | cons p a ih => exact ih h.2

/-- A longest match is not one of its kind with the next character added to it. -/
theorem LongestMatch.not_extended {k : Kind} {w rest : List Char} (h : LongestMatch k w (w ++ rest))
    {c : Char} (hc : c ∈ rest.head?) : w ++ [c] ∉ k.pattern := by
  intro longer
  obtain ⟨rest', rfl⟩ : ∃ rest', rest = c :: rest' := by
    cases rest with
    | nil => cases hc
    | cons d rest' =>
      cases hc
      exact ⟨rest', rfl⟩
  have inFront : w ++ [c] <+: w ++ c :: rest' := by simp
  have bound := h.longest k _ longer inFront
  simp at bound

/-- What comes after blanks is not blank. -/
theorem LongestMatch.not_blank_after {w rest : List Char}
    (h : LongestMatch .blank w (w ++ rest)) : ∀ c ∈ rest.head?, isBlank c = false := by
  intro c hc
  by_contra blank
  have last : ∀ d ∈ [c], isBlank d = true := by simpa using blank
  have longer : ∀ d ∈ w ++ [c], isBlank d = true :=
    List.forall_mem_append.mpr ⟨(mem_repeated_oneOf.mp h.fits).2, last⟩
  exact h.not_extended hc (mem_repeated_oneOf.mpr ⟨by simp, longer⟩)

/-- What comes after a line comment is a newline, if anything does. -/
theorem LongestMatch.newline_after {w rest : List Char}
    (h : LongestMatch .lineComment w (w ++ rest)) : ∀ c ∈ rest.head?, c = '\n' := by
  intro c hc
  by_contra other
  obtain ⟨body, hbody, rfl⟩ := mem_exactly_mul.mp h.fits
  have last : ∀ d ∈ [c], decide (d ≠ '\n') = true := by simpa using other
  have longer : ∀ d ∈ body ++ [c], decide (d ≠ '\n') = true :=
    List.forall_mem_append.mpr ⟨mem_kstar_oneOf.mp hbody, last⟩
  exact h.not_extended hc (mem_exactly_mul.mpr ⟨_, mem_kstar_oneOf.mpr longer, by simp⟩)

namespace ReadAs

variable {text : List Char} {tokens : List Token}

/-- A text is read into the tokens that its pieces write. -/
theorem of_pieces {pieces : List Piece} (longest : AllLongest pieces []) {before : List Char}
    {lexemes : List Lexeme} (written : Written before pieces lexemes) :
    ReadAs (pieces.flatMap Piece.text) (tokensOf lexemes) := by
  obtain ⟨lexemes', written', same⟩ := written.elsewhere []
  have decomposed : Decomposes (pieces.flatMap Piece.text) pieces lexemes' [] :=
    ⟨(List.append_nil _).symm, longest, written'⟩
  exact ⟨lexemes', decomposed.lex_eq, same⟩

/-- A text that is read is made of pieces that write its tokens. -/
theorem exists_pieces (h : ReadAs text tokens) :
    ∃ pieces lexemes, text = pieces.flatMap Piece.text ∧ AllLongest pieces [] ∧
      Written [] pieces lexemes ∧ tokensOf lexemes = tokens := by
  obtain ⟨lexemes, hlex, htokens⟩ := h
  obtain ⟨pieces, decomposed⟩ := exists_decomposes hlex
  have lossless := decomposed.lossless
  rw [List.append_nil] at lossless
  exact ⟨pieces, lexemes, lossless, decomposed.longest, decomposed.written, htokens⟩

/-- A text that is dropped changes no token. -/
theorem dropped {k : Kind} {w : List Char} (first : LongestMatch k w (w ++ text)) (hk : k.IsDropped)
    (h : ReadAs text tokens) : ReadAs (w ++ text) tokens := by
  obtain ⟨pieces, lexemes, rfl, longest, written, rfl⟩ := h.exists_pieces
  have longest' : AllLongest (⟨k, w⟩ :: pieces) [] := ⟨by rwa [List.append_nil], longest⟩
  obtain ⟨lexemes', written', same⟩ := written.elsewhere w
  have whole : Written [] (⟨k, w⟩ :: pieces) lexemes' := .dropped hk written'
  rw [← same]
  exact of_pieces longest' whole

/-- A text that writes a token is read into it. -/
theorem token {k : Kind} {w : List Char} {t : Token} (first : LongestMatch k w (w ++ text))
    (writes : k.Writes w t) (h : ReadAs text tokens) : ReadAs (w ++ text) (t :: tokens) := by
  obtain ⟨pieces, lexemes, rfl, longest, written, rfl⟩ := h.exists_pieces
  have longest' : AllLongest (⟨k, w⟩ :: pieces) [] := ⟨by rwa [List.append_nil], longest⟩
  obtain ⟨lexemes', written', same⟩ := written.elsewhere w
  have whole : Written [] (⟨k, w⟩ :: pieces) (⟨t, .after []⟩ :: lexemes') := .token writes written'
  have all := of_pieces longest' whole
  rwa [tokensOf_cons, same] at all

/-! ### Blanks and comments in front -/

/-- Blanks in front are dropped, together with those that follow them. -/
theorem blanks {w : List Char} (hw : ∀ c ∈ w, isBlank c = true) (h : ReadAs text tokens) :
    ReadAs (w ++ text) tokens := by
  by_cases hne : w = []
  · rw [hne]
    exact h
  · obtain ⟨pieces, lexemes, rfl, longest, written, rfl⟩ := h.exists_pieces
    cases pieces with
    | nil => exact dropped (longestMatch_blanks hne hw nofun) (by simp [Kind.IsDropped]) h
    | cons p pieces =>
      obtain ⟨k, v⟩ := p
      obtain ⟨first, others⟩ := longest
      rw [List.append_nil] at first
      by_cases hk : k = .blank
      · -- The blanks in front and the first piece are one run.
        subst hk
        have run : ∀ c ∈ w ++ v, isBlank c = true :=
          List.forall_mem_append.mpr ⟨hw, (mem_repeated_oneOf.mp first.fits).2⟩
        have dropped' : Kind.IsDropped .blank := by simp [Kind.IsDropped]
        cases written with
        | dropped _ rest =>
          have whole := longestMatch_blanks (by simp [hne]) run first.not_blank_after
          have tail := dropped whole dropped' (of_pieces others rest)
          rwa [List.append_assoc] at tail
        | token writes _ => exact absurd dropped' writes.not_isDropped
      · -- No other piece begins with a blank.
        obtain ⟨a, start, rfl, head⟩ := Kind.head_of_mem first.fits
        have stop : ∀ c ∈ ((⟨k, a :: start⟩ :: pieces).flatMap Piece.text).head?,
            isBlank c = false := by
          rintro c ⟨⟩
          by_contra blank
          rw [Head.of_blank (Bool.eq_true_of_not_eq_false blank)] at head
          cases k with
          | blank => exact hk rfl
          | symbol s => cases s <;> cases head
          | _ => cases head
        exact dropped (longestMatch_blanks hne hw stop) (by simp [Kind.IsDropped]) h

/-- A line comment in front of a newline is dropped. -/
theorem lineComment {body : List Char} (hbody : ∀ c ∈ body, c ≠ '\n')
    (stop : ∀ c ∈ text.head?, c = '\n') (h : ReadAs text tokens) :
    ReadAs (('/' :: '/' :: body) ++ text) tokens :=
  dropped (longestMatch_lineComment hbody stop) (by simp [Kind.IsDropped]) h

/-- A closed comment in front of any text is dropped. -/
theorem blockComment {w : List Char} (hw : w ∈ Kind.blockComment.pattern) (h : ReadAs text tokens) :
    ReadAs (w ++ text) tokens :=
  dropped (longestMatch_blockComment hw text) (by simp [Kind.IsDropped]) h

/-! ### Pieces in front of another text -/

/-- Pieces that were read in front of one text are read in front of another that no token reaches
into. Only a line comment at their end needs a newline after it. -/
theorem prepend {before : List Char} {pieces : List Piece} {lexemes : List Lexeme}
    {rest : List Char} (written : Written before pieces lexemes) (longest : AllLongest pieces rest)
    (stop : ∀ c ∈ text.head?, isInner c = false)
    (comment : ∀ p ∈ pieces.getLast?, p.kind = .lineComment → ∀ c ∈ text.head?, c = '\n')
    (h : ReadAs text tokens) :
    ReadAs (pieces.flatMap Piece.text ++ text) (tokensOf lexemes ++ tokens) := by
  induction written with
  | nil => exact h
  | @dropped before p pieces lexemes hp _ ih =>
    have next := ih longest.2 fun q hq ↦ comment q (List.mem_getLast?_cons hq)
    obtain ⟨k, w⟩ := p
    obtain ⟨first, longestOthers⟩ := longest
    have fits : w ∈ k.pattern := first.fits
    rw [List.flatMap_cons, List.append_assoc]
    simp only [Kind.IsDropped, List.mem_cons, List.not_mem_nil, or_false] at hp
    rcases hp with rfl | rfl | rfl
    · exact next.blanks (mem_repeated_oneOf.mp fits).2
    · obtain ⟨body, hbody, rfl⟩ := mem_exactly_mul.mp fits
      have noNewline : ∀ c ∈ body, c ≠ '\n' := by simpa using mem_kstar_oneOf.mp hbody
      apply next.lineComment noNewline
      cases pieces with
      | nil => exact comment _ rfl rfl
      | cons q pieces =>
        -- What comes after the comment begins with the piece that came there before.
        have ended := first.newline_after
        obtain ⟨a, start, hstart, -⟩ := Kind.head_of_mem longestOthers.1.fits
        rw [List.flatMap_cons, hstart] at ended ⊢
        rintro c ⟨⟩
        exact ended _ rfl
    · exact next.blockComment fits
  | @token before p t pieces lexemes writes _ ih =>
    have next := ih longest.2 fun q hq ↦ comment q (List.mem_getLast?_cons hq)
    have first := longest.1.before writes.not_isDropped stop
    rw [List.flatMap_cons, List.append_assoc]
    exact next.token first writes

/-- Texts with a newline between them are read one after the other. -/
theorem append_newline {other : List Char} {otherTokens : List Token} (h : ReadAs text tokens)
    (hother : ReadAs other otherTokens) :
    ReadAs (text ++ '\n' :: other) (tokens ++ otherTokens) := by
  obtain ⟨pieces, lexemes, rfl, longest, written, rfl⟩ := h.exists_pieces
  have blank : ∀ c ∈ ['\n'], isBlank c = true := List.forall_mem_singleton.mpr rfl
  apply prepend written longest _ _ (hother.blanks blank)
  · rintro c ⟨⟩
    rfl
  · rintro p - - c ⟨⟩
    rfl

end ReadAs

/-! ### Fillings -/

/-- Blanks, line comments with the newlines that end them, and closed comments, one after the
other. -/
inductive Filling : List Char → Prop
  | nil : Filling []
  | blank {c : Char} {rest : List Char} : isBlank c = true → Filling rest → Filling (c :: rest)
  | lineComment {body rest : List Char} : (∀ c ∈ body, c ≠ '\n') → Filling rest →
    Filling (('/' :: '/' :: body) ++ '\n' :: rest)
  | blockComment {body rest : List Char} : ¬ ['*', '/'] <:+: body → Filling rest →
    Filling (('/' :: '*' :: (body ++ ['*', '/'])) ++ rest)

private theorem commentEnd?_of_unclosed {body : List Char} (h : ¬ ['*', '/'] <:+: body) :
    commentEnd? (body ++ ['*', '/']) = some (body.length + 2) := by
  induction body with
  | nil => rfl
  | cons c body ih =>
    have inner := ih fun closed ↦ h (closed.trans (List.suffix_cons c body).isInfix)
    rw [List.cons_append, commentEnd?, inner]
    · simp only [Option.map_some, List.length_cons, Option.some.injEq]
      omega
    · -- The closing mark would be in the body, or begin with its last character.
      rintro rest rfl closed
      cases body with
      | nil => cases closed
      | cons d body =>
        obtain ⟨rfl, -⟩ := List.cons.inj closed
        exact h (List.prefix_append ['*', '/'] body).isInfix

private theorem mem_blockComment {body : List Char} (h : ¬ ['*', '/'] <:+: body) :
    '/' :: '*' :: (body ++ ['*', '/']) ∈ Kind.blockComment.pattern := by
  have tail := mem_of_commentEnd? (commentEnd?_of_unclosed h)
  rw [List.take_of_length_le (by simp)] at tail
  exact mem_exactly_mul.mpr ⟨_, tail, rfl⟩

namespace Filling

variable {filling : List Char}

/-- A filling in front of a text is dropped. -/
theorem readAs (h : Filling filling) {text : List Char} {tokens : List Token}
    (htext : ReadAs text tokens) : ReadAs (filling ++ text) tokens := by
  induction h with
  | nil => exact htext
  | @blank c rest hc _ ih =>
    have single : ∀ d ∈ [c], isBlank d = true := by simpa using hc
    have next : ReadAs ([c] ++ (rest ++ text)) tokens := ReadAs.blanks single ih
    exact next
  | @lineComment body rest hbody _ ih =>
    have single : ∀ d ∈ ['\n'], isBlank d = true := List.forall_mem_singleton.mpr rfl
    have ended : ∀ c ∈ ('\n' :: (rest ++ text)).head?, c = '\n' := by
      rintro c ⟨⟩
      rfl
    have next : ReadAs ('\n' :: (rest ++ text)) tokens := ReadAs.blanks single ih
    rw [List.append_assoc]
    exact next.lineComment hbody ended
  | blockComment hbody _ ih =>
    rw [List.append_assoc]
    exact ih.blockComment (mem_blockComment hbody)

/-- No token goes on into a filling. -/
theorem stop (h : Filling filling) (hne : filling ≠ []) (text : List Char) :
    ∀ c ∈ (filling ++ text).head?, isInner c = false := by
  cases h with
  | nil => exact absurd rfl hne
  | @blank c rest hc _ =>
    rintro d ⟨⟩
    simp only [isBlank, Bool.or_eq_true, decide_eq_true_eq] at hc
    rcases hc with (((rfl | rfl) | rfl) | rfl) | rfl <;> rfl
  | lineComment =>
    rintro d ⟨⟩
    rfl
  | blockComment =>
    rintro d ⟨⟩
    rfl

end Filling

/-! ### Edges of tokens -/

/-- A place right before or right after a token: a source is parted between two of its pieces, one of
which writes a token. -/
inductive TokenEdge (source : List Char) : List Char → List Char → Prop
  | before {pieces others : List Piece} {p : Piece} {t : Token} :
    (cut source).1 = pieces ++ p :: others → p.kind.Writes p.text t →
    TokenEdge source (pieces.flatMap Piece.text) (p.text ++ others.flatMap Piece.text)
  | after {pieces others : List Piece} {p : Piece} {t : Token} :
    (cut source).1 = pieces ++ p :: others → p.kind.Writes p.text t →
    TokenEdge source (pieces.flatMap Piece.text ++ p.text) (others.flatMap Piece.text)

/-- A line comment does not end where a token begins. -/
private theorem not_lineComment_before {pieces others : List Piece} {p : Piece} {t : Token}
    {rest : List Char} (longest : AllLongest (pieces ++ p :: others) rest)
    (writes : p.kind.Writes p.text t) : ∀ q ∈ pieces.getLast?, q.kind ≠ .lineComment := by
  intro q hq hk
  obtain ⟨first, rfl⟩ := List.getLast?_eq_some_iff.mp hq
  rw [List.append_assoc, List.singleton_append] at longest
  obtain ⟨last, next, -⟩ := longest.right
  obtain ⟨k, w⟩ := q
  cases hk
  -- What comes after the comment is a newline, so it is blank.
  have ended := last.newline_after
  obtain ⟨a, start, hstart, head⟩ := Kind.head_of_mem next.fits
  rw [List.flatMap_cons, hstart] at ended
  have newline : a = '\n' := ended a rfl
  rw [newline] at head
  exact writes.not_isDropped (Kind.isDropped_iff.mpr (.inl head.symm))

/-- The pieces on both sides of an edge. The one in front of it is no line comment. -/
private theorem TokenEdge.exists_pieces {source before after : List Char}
    (edge : TokenEdge source before after) :
    ∃ first second, (cut source).1 = first ++ second ∧ before = first.flatMap Piece.text ∧
      after = second.flatMap Piece.text ∧ ∀ q ∈ first.getLast?, q.kind ≠ .lineComment := by
  have longest := (allLongest_cut source).1
  cases edge with
  | @before pieces others p t pieces_eq writes =>
    rw [pieces_eq] at longest
    exact ⟨_, _, pieces_eq, rfl, rfl, not_lineComment_before longest writes⟩
  | @after pieces others p t pieces_eq writes =>
    refine ⟨pieces ++ [p], others, ?_, ?_, rfl, ?_⟩
    · rw [pieces_eq, List.append_assoc]
      rfl
    · rw [List.flatMap_append, List.flatMap_singleton]
    · intro q hq hk
      rw [List.getLast?_concat] at hq
      cases hq
      exact writes.not_isDropped (by simp [Kind.IsDropped, hk])

/-- An edge parts a source that is read. -/
theorem TokenEdge.append_eq {source before after : List Char} {lexemes : List Lexeme}
    (edge : TokenEdge source before after) (h : lex source = .ok lexemes) :
    before ++ after = source := by
  obtain ⟨pieces, decomposed⟩ := exists_decomposes h
  obtain ⟨first, second, hpieces, rfl, rfl, -⟩ := edge.exists_pieces
  have lossless := flatMap_text_cut source
  rw [hpieces, decomposed.cut_eq] at lossless
  rwa [List.flatMap_append, List.append_nil] at lossless

/-- A filling at the edge of a token changes no token. -/
theorem ReadAs.fill {source before after filling : List Char} {tokens : List Token}
    (h : ReadAs source tokens) (edge : TokenEdge source before after) (hf : Filling filling) :
    ReadAs (before ++ (filling ++ after)) tokens := by
  obtain ⟨lexemes, hlex, rfl⟩ := h
  obtain ⟨pieces, decomposed⟩ := exists_decomposes hlex
  obtain ⟨first, second, hpieces, rfl, rfl, noComment⟩ := edge.exists_pieces
  have longest := decomposed.longest
  have written := decomposed.written
  rw [decomposed.cut_eq] at hpieces
  rw [show pieces = first ++ second from hpieces] at longest written
  obtain ⟨left, right, rfl, leftWritten, rightWritten⟩ := written.split
  have rest := ReadAs.of_pieces longest.right rightWritten
  rw [tokensOf_append]
  by_cases hne : filling = []
  · subst hne
    have whole := ReadAs.of_pieces longest written
    rwa [List.flatMap_append, tokensOf_append] at whole
  · apply ReadAs.prepend leftWritten longest.of_append (hf.stop hne _) _ (hf.readAs rest)
    intro q hq hk
    exact absurd hk (noComment q hq)

end FlatSheet
