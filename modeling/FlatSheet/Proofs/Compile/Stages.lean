import FlatSheet.Compile
import FlatSheet.Proofs.Typing.Accepted

/-!
# The stages of compiling

What each result of compiling says of the stages before it: a source is compiled when it is read,
nothing is found wrong with the sheet, and the sheet is flattened. The sheet that is flattened is
the one that was read, since typing leaves it as it was.
-/

namespace FlatSheet

/-- A sheet passes the check exactly when it is read from the source and nothing is wrong with
it. -/
theorem check_eq_ok_iff {p : Prelude} {source : String} {s : Sheet} :
    check p source = .ok s ↔
      Sheet.ofSource source = .ok s ∧ (s.check (.ofGlobals p.toList)).1.diagnostics = [] := by
  unfold check
  constructor
  · intro h
    split at h
    · cases h
    · next sheet hread =>
      dsimp only at h
      split at h
      · next accepted =>
        rw [Sheet.check_fst_of_diagnostics accepted] at h
        cases h
        exact ⟨hread, accepted⟩
      · cases h
  · rintro ⟨hread, accepted⟩
    have same := Sheet.check_fst_of_diagnostics accepted
    rw [same] at accepted
    simp only [hread, same, accepted]

/-- The output is that of the flat sheet. -/
theorem compile_eq_ok_iff {p : Prelude} {source css : String} :
    compile p source = .ok css ↔
      ∃ s flat, check p source = .ok s ∧ (s.flatten (Scopes.ofGlobals p.toList)).1 = .ok flat ∧
        flat.css = css := by
  unfold compile
  cases hc : check p source with
  | error e => simp
  | ok s => cases hf : (s.flatten (Scopes.ofGlobals p.toList)).1 <;> simp [hf]

/-- An error of folding is that of the sheet that passed the check. -/
theorem compile_eq_unfoldable_iff {p : Prelude} {source : String} {e : FoldError} :
    compile p source = .error (.unfoldable e) ↔
      ∃ s, check p source = .ok s ∧ (s.flatten (Scopes.ofGlobals p.toList)).1 = .error e := by
  unfold compile
  cases hc : check p source with
  | error other =>
    -- The check itself fails for a source that is not read or has problems, never in folding.
    have notFold : other ≠ .unfoldable e := by
      rintro rfl
      unfold check at hc
      split at hc
      · cases hc
      · dsimp only at hc
        split at hc <;> cases hc
    simp [notFold]
  | ok s => cases hf : (s.flatten (Scopes.ofGlobals p.toList)).1 <;> simp [hf]

/-- A sheet that is read and found wrong is not compiled. -/
theorem compile_of_problems {p : Prelude} {source : String} {s : Sheet}
    (read : Sheet.ofSource source = .ok s)
    (wrong : (s.check (.ofGlobals p.toList)).1.diagnostics ≠ []) :
    compile p source = .error (.problems (s.check (.ofGlobals p.toList)).1.diagnostics) := by
  unfold compile check
  rw [read]
  dsimp only
  cases h : (s.check (.ofGlobals p.toList)).1.diagnostics with
  | nil => exact absurd h wrong
  | cons d diagnostics => rfl

/-- A sheet that is read and found right is compiled as it is flattened. -/
theorem compile_of_accepted {p : Prelude} {source : String} {s : Sheet}
    (read : Sheet.ofSource source = .ok s)
    (right : (s.check (.ofGlobals p.toList)).1.diagnostics = []) :
    compile p source =
      ((s.flatten (Scopes.ofGlobals p.toList)).1.map Sheet.css).mapError .unfoldable := by
  rw [compile, check_eq_ok_iff.mpr ⟨read, right⟩]
  dsimp only
  cases (s.flatten (Scopes.ofGlobals p.toList)).1 <;> rfl

/-- A source that passes the check and is not compiled cannot be folded. -/
theorem exists_unfoldable_of_check {p : Prelude} {source : String} {s : Sheet} {e : CompileError}
    (checked : check p source = .ok s) (failed : compile p source = .error e) :
    ∃ error, e = .unfoldable error := by
  unfold compile at failed
  rw [checked] at failed
  dsimp only at failed
  split at failed
  · next error _ =>
    cases failed
    exact ⟨error, rfl⟩
  · cases failed

/-- A source is compiled to the output of the sheet that it is read into, when that is found right. -/
theorem compile_eq_ok_css_iff {p : Prelude} {source css : String} :
    compile p source = .ok css ↔
      ∃ s, Sheet.ofSource source = .ok s ∧ (s.check (.ofGlobals p.toList)).1.diagnostics = [] ∧
        (s.flatten (Scopes.ofGlobals p.toList)).1.map Sheet.css = .ok css := by
  rw [compile_eq_ok_iff]
  constructor
  · rintro ⟨s, flat, hs, hflat, hcss⟩
    obtain ⟨read, right⟩ := check_eq_ok_iff.mp hs
    refine ⟨s, read, right, ?_⟩
    rw [hflat, ← hcss]
    rfl
  · rintro ⟨s, read, right, written⟩
    cases hflat : (s.flatten (Scopes.ofGlobals p.toList)).1 with
    | error e =>
      rw [hflat] at written
      cases written
    | ok flat =>
      rw [hflat] at written
      cases written
      exact ⟨s, flat, check_eq_ok_iff.mpr ⟨read, right⟩, hflat, rfl⟩

end FlatSheet
