import FlatSheet.Proofs.Grammar.Trees
import FlatSheet.Proofs.Reading.Sheets

/-!
# The reader and the grammar agree

The grammar derives the tokens of canonical sheets, and the reader reads these and nothing else. As
reading gives one result at most, the tokens of a sheet have only one canonical sheet, up to its
marks.
-/

namespace FlatSheet

private theorem Selector.exists_write (selectors : List Selector) :
    ∃ ts, Selector.Write selectors ts := by
  induction selectors with
  | nil => exact ⟨[], .nil⟩
  | cons s selectors ih =>
    rcases ih with ⟨ts, hts⟩
    cases s with
    | tag text => exact ⟨_, .cons List.mem_cons_self hts⟩
    | cls text => exact ⟨_, .cons List.mem_cons_self hts⟩
    | id text => exact ⟨_, .cons List.mem_cons_self hts⟩

private theorem Member.exists_write (members : List Member) : ∃ ts, Member.Write members ts := by
  induction members with
  | nil => exact ⟨[], .nil⟩
  | cons m members ih =>
    rcases ih with ⟨ts, hts⟩
    cases m with
    | rule r =>
      rcases Selector.exists_write r.selectors with ⟨head, hhead⟩
      exact ⟨_, .cons ⟨head, hhead, rfl⟩ hts⟩
    | assignment a => exact ⟨_, .cons rfl hts⟩

namespace Sheet

/-- Every sheet can be written. -/
theorem exists_writes (s : Sheet) : ∃ ts, s.Writes ts := Member.exists_write s.members

/-- Tokens write at most one canonical sheet, up to marks. -/
theorem bare_eq_of_writes {s t : Sheet} (hs : s.Canonical) (ht : t.Canonical)
    {lexemes : List Lexeme} (hsw : s.Writes (tokensOf lexemes))
    (htw : t.Writes (tokensOf lexemes)) :
    s.bare = t.bare := by
  rcases ofLexemes_complete hs hsw with ⟨r, hr, hrs⟩
  rcases ofLexemes_complete ht htw with ⟨r', hr', hrt⟩
  rw [hr] at hr'
  cases hr'
  rw [← hrs, hrt]

/-- A sheet is read from exactly the tokens that the grammar derives. What is read is, up to marks,
the only canonical sheet that they write, and every canonical sheet is read from all lexemes that
write it. -/
theorem ofLexemes_exact :
    (∀ lexemes, (∃ s, ofLexemes lexemes = .ok s) ↔ Grammar.Derives .sheet (tokensOf lexemes)) ∧
    (∀ lexemes s, ofLexemes lexemes = .ok s →
      s.diagnostics = [] ∧ s.Canonical ∧ s.Writes (tokensOf lexemes) ∧
        ∀ t : Sheet, t.Canonical → t.Writes (tokensOf lexemes) → t.bare = s.bare) ∧
    (∀ t : Sheet, t.Canonical → (∃ ts, t.Writes ts) ∧
      ∀ lexemes, t.Writes (tokensOf lexemes) →
        ∃ s, ofLexemes lexemes = .ok s ∧ s.bare = t.bare) := by
  refine ⟨?_, ?_, ?_⟩
  · intro lexemes
    rw [derives_sheet_iff]
    constructor
    · rintro ⟨s, hs⟩
      exact ⟨s, (ofLexemes_sound hs).2⟩
    · rintro ⟨t, ht, hw⟩
      rcases ofLexemes_complete ht hw with ⟨s, hs, _⟩
      exact ⟨s, hs⟩
  · intro lexemes s hs
    have hsound := ofLexemes_sound hs
    refine ⟨hsound.1, hsound.2.1, hsound.2.2, ?_⟩
    intro t ht hw
    exact bare_eq_of_writes ht hsound.2.1 hw hsound.2.2
  · intro t ht
    refine ⟨t.exists_writes, ?_⟩
    intro lexemes hw
    exact ofLexemes_complete ht hw

end Sheet

end FlatSheet
