import FlatSheet.Proofs.Reading.Contracts
import FlatSheet.Proofs.Source.Order
import FlatSheet.Proofs.Token.Lossless

/-!
# Where tokens are

The lexemes of a source are in the order of their positions, and at the position of each the source has
its token.
-/

namespace FlatSheet

/-- A source has a token at a position: read from there it begins with a text that writes it. -/
def TokenAt (source : List Char) (position : Position) (t : Token) : Prop :=
  ∃ before rest, source = before ++ rest ∧ position = .after before ∧
    ∃ k w, LongestMatch k w rest ∧ k.Writes w t

/-- A source has one token at a position at most. -/
theorem TokenAt.unique {source : List Char} {position : Position} {t t' : Token}
    (h : TokenAt source position t) (h' : TokenAt source position t') : t = t' := by
  obtain ⟨before, rest, hsource, hposition, k, w, first, writes⟩ := h
  obtain ⟨before', rest', hsource', hposition', k', w', first', writes'⟩ := h'
  have split := hsource.symm.trans hsource'
  have same := Position.eq_of_after_eq split (hposition.symm.trans hposition')
  subst same
  rw [List.append_cancel_left split] at first
  obtain ⟨rfl, rfl⟩ := first.unique first'
  have meanings := writes.meaning_eq.symm.trans writes'.meaning_eq
  cases meanings
  rfl

/-- Lexemes are in the order of their positions. -/
def Ordered (lexemes : List Lexeme) : Prop :=
  lexemes.Pairwise fun l r ↦ l.position.Before r.position

/-- What pieces write after a text is not before its end, and in order. -/
private theorem Written.ordered {before : List Char} {pieces : List Piece} {lexemes : List Lexeme}
    (h : Written before pieces lexemes) (nonempty : ∀ p ∈ pieces, p.text ≠ []) :
    Ordered lexemes ∧
      ∀ l ∈ lexemes, l.position = .after before ∨ (Position.after before).Before l.position := by
  induction h with
  | nil => exact ⟨.nil, List.forall_mem_nil _⟩
  | @dropped before p pieces lexemes _ _ ih =>
    obtain ⟨first, others⟩ := List.forall_mem_cons.mp nonempty
    obtain ⟨ordered, bound⟩ := ih others
    have next := Position.after_before_append before first
    refine ⟨ordered, fun l hl ↦ .inr ?_⟩
    rcases bound l hl with atEnd | behind
    · rwa [atEnd]
    · exact next.trans behind
  | @token before p t pieces lexemes _ _ ih =>
    obtain ⟨first, others⟩ := List.forall_mem_cons.mp nonempty
    obtain ⟨ordered, bound⟩ := ih others
    have next := Position.after_before_append before first
    have behind : ∀ l ∈ lexemes, (Position.after before).Before l.position := by
      intro l hl
      rcases bound l hl with atEnd | behind
      · rwa [atEnd]
      · exact next.trans behind
    refine ⟨List.pairwise_cons.mpr ⟨behind, ordered⟩, ?_⟩
    intro l hl
    rcases List.mem_cons.mp hl with rfl | hl
    · exact .inl rfl
    · exact .inr (behind l hl)

/-- Longest matches are not empty. -/
private theorem AllLongest.nonempty {pieces : List Piece} {rest : List Char}
    (h : AllLongest pieces rest) : ∀ p ∈ pieces, p.text ≠ [] := by
  induction pieces with
  | nil => exact List.forall_mem_nil _
  | cons p pieces ih =>
    obtain ⟨a, start, hstart, -⟩ := Kind.head_of_mem h.1.fits
    refine List.forall_mem_cons.mpr ⟨?_, ih h.2⟩
    rw [hstart]
    exact List.cons_ne_nil a start

/-- The lexemes of a source are in the order of their positions. -/
theorem ordered_of_lex {source : List Char} {lexemes : List Lexeme}
    (h : lex source = .ok lexemes) : Ordered lexemes := by
  obtain ⟨pieces, decomposed⟩ := exists_decomposes h
  exact (decomposed.written.ordered decomposed.longest.nonempty).1

/-- What pieces write is found in the source where they stand in it. -/
private theorem Written.tokenAt {before : List Char} {pieces : List Piece} {lexemes : List Lexeme}
    {rest : List Char} (h : Written before pieces lexemes) (longest : AllLongest pieces rest) :
    ∀ l ∈ lexemes, TokenAt (before ++ (pieces.flatMap Piece.text ++ rest)) l.position l.token := by
  induction h with
  | nil => exact List.forall_mem_nil _
  | @dropped before p pieces lexemes _ _ ih =>
    have others := ih longest.2
    simpa only [List.flatMap_cons, List.append_assoc] using others
  | @token before p t pieces lexemes writes _ ih =>
    have others := ih longest.2
    refine List.forall_mem_cons.mpr ⟨?_, ?_⟩
    · rw [List.flatMap_cons, List.append_assoc]
      exact ⟨before, _, rfl, rfl, p.kind, p.text, longest.1, writes⟩
    · simpa only [List.flatMap_cons, List.append_assoc] using others

/-- A source has the token of each of its lexemes at the position of the lexeme. -/
theorem tokenAt_of_lex {source : List Char} {lexemes : List Lexeme}
    (h : lex source = .ok lexemes) : ∀ l ∈ lexemes, TokenAt source l.position l.token := by
  obtain ⟨pieces, decomposed⟩ := exists_decomposes h
  have all := decomposed.written.tokenAt decomposed.longest
  rwa [List.nil_append, ← decomposed.lossless] at all

end FlatSheet
