import FlatSheet.Proofs.Compile.Concatenation

/-!
# Larger preludes

A prelude may be extended by further variables without a change to what is compiled with it. All that
an accepted sheet refers to is bound in the smaller prelude or in the sheet itself, and so is all that
is looked up where the sheet is flattened; neither looks at a variable that only the larger prelude
defines, nor does a binding of the sheet give way to it.
-/

namespace FlatSheet

open Environment (Within)

/-! ### Typing -/

/-- A sheet with nothing wrong has nothing wrong in a larger environment. -/
theorem Sheet.Judged.weaken {env other : TypeEnvironment} {s : Sheet} {vs : Verdicts}
    (h : s.Judged env vs) (clear : Verdicts.IsClear vs) (within : Within env other) :
    s.Judged other vs := by
  cases h with
  | sheet members =>
    rw [Verdicts.isClear_cons] at clear
    exact .sheet (members.weaken clear.2 within)

/-- A sheet that is accepted is accepted where more variables are in scope. -/
theorem Sheet.accepted_weaken {s : Sheet} (clean : s.diagnostics = []) {scopes other : TypeScopes}
    (within : Within scopes.lookup other.lookup) (right : (s.check scopes).1.diagnostics = []) :
    (s.check other).1.diagnostics = [] := by
  have judged := judged_check clean scopes
  have clear := (diagnostics_check_iff_isClear clean judged).mp right
  exact (diagnostics_check_iff_isClear clean (judged.weaken clear within)).mpr clear

/-! ### Flattening -/

/-- A sheet with an output has the same output where more variables have values. -/
theorem Sheet.css_flatten_weaken {s : Sheet} {scopes other : ValueScopes}
    (within : Within scopes.lookup other.lookup) {css : String}
    (flat : (s.flatten scopes).1.map Sheet.css = .ok css) :
    (s.flatten other).1.map Sheet.css = .ok css := by
  obtain ⟨right, written⟩ := css_flatten_eq_ok_iff.mp flat
  have same : s.resolve other.lookup = s.resolve scopes.lookup := resolveMembers_weaken within right
  refine css_flatten_eq_ok_iff.mpr ⟨?_, ?_⟩
  · rw [same, right]
  · rw [same, written]

/-! ### Preludes -/

namespace Prelude

variable {p other : Prelude}

/-- The values that a larger prelude puts in scope include those of the smaller one. -/
theorem within_values (larger : Within p.get? other.get?) :
    Within (Scopes.ofGlobals p.toList).lookup (Scopes.ofGlobals other.toList).lookup := by
  rw [lookup_values, lookup_values]
  exact larger

/-- The types that a larger prelude puts in scope include those of the smaller one. -/
theorem within_types (larger : Within p.get? other.get?) :
    Within (TypeScopes.ofGlobals p.toList).lookup (TypeScopes.ofGlobals other.toList).lookup := by
  intro name t bound
  rw [lookup_types, Option.map_eq_some_iff] at bound
  obtain ⟨value, hvalue, rfl⟩ := bound
  rw [lookup_types, larger name value hvalue]
  rfl

end Prelude

/-- A source that is compiled with a prelude is compiled to the same output with every prelude that gives
the variables of the first one the same values, whatever else it defines. -/
theorem compile_extended {p other : Prelude} {source css : String}
    (larger : ∀ name value, p.get? name = some value → other.get? name = some value)
    (h : compile p source = .ok css) : compile other source = .ok css := by
  obtain ⟨s, read, right, flat⟩ := compile_eq_ok_css_iff.mp h
  have clean := Sheet.diagnostics_ofSource read
  refine compile_eq_ok_css_iff.mpr ⟨s, read, ?_, ?_⟩
  · exact Sheet.accepted_weaken clean (Prelude.within_types larger) right
  · exact Sheet.css_flatten_weaken (Prelude.within_values larger) flat

/-- The larger prelude defines variables that the source assigns to, one at its top and one in a branch
that it takes, with values of other types. -/
theorem compile_extended_shadowed :
    ∃ p other : Prelude, p.get? "H" = some (.scalar ⟨7, by decide, by decide⟩) ∧
      other.get? "W" = some (.bool true) ∧ other.get? "L" = some (.color "#000000") ∧
      (∀ name value, p.get? name = some value → other.get? name = some value) ∧
      compile p "W:=H;a\x7bif[true]\x7bL:=W*2px;width:L;\x7delse\x7bheight:L;\x7d\x7d" =
        .ok "a\x7b\n  width: 14px;\n\x7d\n" ∧
      compile other "W:=H;a\x7bif[true]\x7bL:=W*2px;width:L;\x7delse\x7bheight:L;\x7d\x7d" =
        .ok "a\x7b\n  width: 14px;\n\x7d\n" := by
  obtain ⟨p, hp⟩ : ∃ p : Prelude, p = ⟨(∅ : Std.ExtTreeMap String Literal).insert "H"
      (.scalar ⟨7, by decide, by decide⟩)⟩ := ⟨_, rfl⟩
  obtain ⟨other, hother⟩ : ∃ other : Prelude, other =
      ⟨(p.bindings.insert "W" (.bool true)).insert "L" (.color "#000000")⟩ := ⟨_, rfl⟩
  have bound (name : String) : p.get? name =
      if "H" = name then some (.scalar ⟨7, by decide, by decide⟩) else none := by
    rw [hp, Prelude.get?, Std.ExtTreeMap.getElem?_insert]
    simp
  have boundOther (name : String) : other.get? name =
      if "L" = name then some (.color "#000000")
      else if "W" = name then some (.bool true) else p.get? name := by
    rw [hother, Prelude.get?, Std.ExtTreeMap.getElem?_insert, Std.ExtTreeMap.getElem?_insert]
    simp [Prelude.get?]
  have larger : ∀ name value, p.get? name = some value → other.get? name = some value := by
    intro name value h
    by_cases same : "H" = name
    · subst same
      rw [boundOther, if_neg (by decide), if_neg (by decide), h]
    · rw [bound, if_neg same] at h
      cases h
  have compiled : compile p "W:=H;a\x7bif[true]\x7bL:=W*2px;width:L;\x7delse\x7bheight:L;\x7d\x7d" =
      .ok "a\x7b\n  width: 14px;\n\x7d\n" := by
    rw [hp]
    with_unfolding_all rfl
  refine ⟨p, other, by simp [bound], by simp [boundOther], by simp [boundOther], larger, compiled, ?_⟩
  exact compile_extended larger compiled

end FlatSheet
