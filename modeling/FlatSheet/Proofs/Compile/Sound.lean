import FlatSheet.Proofs.Compile.Stages
import FlatSheet.Proofs.Typing.Taken

/-!
# When compiling is sound

Folding an accepted sheet is to fail only by overflow or for want of a value, and the output is to
be well typed. This holds of a source exactly when typing would accept what the run takes of its
sheet, unless the run stops as it may. It does not hold of every source: typing sees in a second
branch what the first one binds.
-/

namespace FlatSheet

/-- Compiling a source fails in folding only by overflow or for want of a value, and its output is
that of a well typed sheet. -/
def CompilesSoundly (p : Prelude) (source : String) : Prop :=
  (∀ e, compile p source = .error (.unfoldable e) → e.IsOverflow ∨ e.IsUnbound) ∧
    ∀ css, compile p source = .ok css →
      ∃ s flat, check p source = .ok s ∧ (s.flatten (Scopes.ofGlobals p.toList)).1 = .ok flat ∧
        flat.css = css ∧ flat.WellTyped

/-- Compiling is sound exactly when the run of the accepted sheet is. -/
theorem compilesSoundly_iff_outcome {p : Prelude} {source : String} :
    CompilesSoundly p source ↔ ∀ s, check p source = .ok s →
      Outcome Sheet.WellTyped (FoldError.Permitted True)
        (s.flatten (Scopes.ofGlobals p.toList)).1 := by
  constructor
  · rintro ⟨errors, output⟩ s hs
    cases h : (s.flatten (Scopes.ofGlobals p.toList)).1 with
    | error e =>
      have permitted := errors e (compile_eq_unfoldable_iff.mpr ⟨s, hs, h⟩)
      exact permitted.imp_right fun unbound ↦ ⟨trivial, unbound⟩
    | ok flat =>
      rcases output flat.css (compile_eq_ok_iff.mpr ⟨s, flat, hs, h, rfl⟩) with
        ⟨s', flat', hs', h', -, wellTyped⟩
      rw [hs] at hs'
      cases hs'
      rw [h] at h'
      cases h'
      exact wellTyped
  · intro outcome
    constructor
    · intro e he
      rcases compile_eq_unfoldable_iff.mp he with ⟨s, hs, h⟩
      exact ((outcome s hs).of_error h).imp_right And.right
    · intro css hcss
      rcases compile_eq_ok_iff.mp hcss with ⟨s, flat, hs, h, rfl⟩
      exact ⟨s, flat, hs, h, rfl, (outcome s hs).of_ok h⟩

/-- Compiling is sound for a source whose sheet reads alike. -/
theorem compilesSoundly_of_readsAlike {p : Prelude} {source : String}
    (alike : ∀ s, Sheet.ofSource source = .ok s → s.ReadsAlike True (.ofGlobals p.toList)) :
    CompilesSoundly p source := by
  rw [compilesSoundly_iff_outcome]
  intro s hs
  have accepted := check_eq_ok_iff.mp hs
  exact Sheet.outcome_flatten accepted.2 (alike s accepted.1) (.ofGlobals p.toList)

/-- Compiling is sound exactly when the run stops by overflow or for want of a value, or typing
accepts what the run takes of the sheet. -/
theorem compilesSoundly_iff (p : Prelude) (source : String) :
    CompilesSoundly p source ↔ ∀ s, check p source = .ok s →
      (∃ e, (s.flatten (Scopes.ofGlobals p.toList)).1 = .error e ∧ (e.IsOverflow ∨ e.IsUnbound)) ∨
        ((s.taken (Scopes.ofGlobals p.toList)).check (.ofGlobals p.toList)).1.diagnostics = [] := by
  have permitted (e : FoldError) : e.Permitted True ↔ e.IsOverflow ∨ e.IsUnbound := by
    simp [FoldError.Permitted]
  rw [compilesSoundly_iff_outcome]
  apply forall₂_congr
  intro s hs
  have accepted := (check_eq_ok_iff.mp hs).2
  have clean : s.diagnostics = [] := by
    rwa [Sheet.check_fst_of_diagnostics accepted] at accepted
  simp only [Sheet.outcome_flatten_iff clean (.ofGlobals p.toList), permitted]

/-- Compiling an accepted sheet may add a length to a color: the sum is typed with the length that
the first branch binds, and folded with the color outside. -/
theorem compile_rebound_operand :
    let source := "H:=#000000;a\x7bif[false]\x7bH:=1px;\x7delse\x7bwidth:H+1px;\x7d\x7d"
    compile .empty source = .error (.unfoldable (.invalidOperands .add (.color "#000000")
        (.pixels ⟨1, by decide, by decide⟩))) ∧
      ¬ CompilesSoundly .empty source := by
  intro source
  have failed : compile .empty source = .error (.unfoldable (.invalidOperands .add
      (.color "#000000") (.pixels ⟨1, by decide, by decide⟩))) := by
    subst source
    with_unfolding_all rfl
  refine ⟨failed, ?_⟩
  intro sound
  rcases sound.1 _ failed with ⟨_, _, _, h⟩ | ⟨_, h⟩ <;> cases h

end FlatSheet
