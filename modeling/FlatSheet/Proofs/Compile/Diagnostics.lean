import FlatSheet.Compile
import FlatSheet.Proofs.Token.Places
import FlatSheet.Proofs.Typing.Blame

/-!
# Where diagnostics point

The diagnostics of a source point at tokens in it, each at one that it is about, and come in the order
in which the tokens stand.
-/

namespace FlatSheet

/-- The diagnostics of a source point at lexemes of it that they are about, in their order. -/
theorem blamed_of_check {p : Prelude} {source : String} {diagnostics : List Diagnostic}
    (h : check p source = .error (.problems diagnostics)) :
    ∃ lexemes, tokenize source = .ok lexemes ∧ Blamed diagnostics lexemes := by
  unfold check at h
  cases read : Sheet.ofSource source with
  | error e =>
    rw [read] at h
    cases h
  | ok s =>
    obtain ⟨lexemes, hlexemes, hs⟩ := Sheet.ofSource_eq_ok_iff.mp read
    refine ⟨lexemes, hlexemes, ?_⟩
    have blamed := Sheet.blamed_check hs (.ofGlobals p.toList)
    rw [read] at h
    dsimp only at h
    split at h
    · cases h
    · next d others found =>
      cases h
      rwa [found] at blamed

/-- Each diagnostic of a source is at a position before those of the diagnostics after it. -/
theorem diagnostics_ordered {p : Prelude} {source : String} {diagnostics : List Diagnostic}
    (h : check p source = .error (.problems diagnostics)) :
    diagnostics.Pairwise fun d e ↦ d.position.Before e.position := by
  obtain ⟨lexemes, read, blamed⟩ := blamed_of_check h
  have ordered : (lexemes.map Lexeme.position).Pairwise Position.Before :=
    List.pairwise_map.mpr (ordered_of_lex read)
  exact List.pairwise_map.mp (ordered.sublist blamed.positions)

/-- A product and a condition that are found wrong at their roots, on two lines with a comment between
that has fewer characters than bytes. -/
theorem diagnostics_ordered_over_lines :
    check .empty "a\x7bx:1px*2px;\n/*é*/if[7]\x7bcolor:A;\x7d\x7d" = .error (.problems [
      ⟨⟨1, 3⟩, .unknownProperty "x"⟩, ⟨⟨1, 8⟩, .multiplyWithoutScalar⟩,
      ⟨⟨2, 10⟩, .conditionNotBoolean⟩, ⟨⟨2, 19⟩, .undefinedVariable "A"⟩]) ∧
    List.Pairwise (fun d e ↦ d.position.Before e.position) [
      (⟨⟨1, 3⟩, .unknownProperty "x"⟩ : Diagnostic), ⟨⟨1, 8⟩, .multiplyWithoutScalar⟩,
      ⟨⟨2, 10⟩, .conditionNotBoolean⟩, ⟨⟨2, 19⟩, .undefinedVariable "A"⟩] := by
  have found : check .empty "a\x7bx:1px*2px;\n/*é*/if[7]\x7bcolor:A;\x7d\x7d" = .error (.problems [
      ⟨⟨1, 3⟩, .unknownProperty "x"⟩, ⟨⟨1, 8⟩, .multiplyWithoutScalar⟩,
      ⟨⟨2, 10⟩, .conditionNotBoolean⟩, ⟨⟨2, 19⟩, .undefinedVariable "A"⟩]) := by
    with_unfolding_all rfl
  exact ⟨found, diagnostics_ordered found⟩

/-- At the position of each diagnostic of a source a token begins that it is about. -/
theorem diagnostics_about {p : Prelude} {source : String} {diagnostics : List Diagnostic}
    (h : check p source = .error (.problems diagnostics)) :
    ∃ lexemes, tokenize source = .ok lexemes ∧ ∀ d ∈ diagnostics,
      ∃ t, TokenAt source.toList d.position t ∧ d.problem.About lexemes ⟨t, d.position⟩ := by
  obtain ⟨lexemes, read, blamed⟩ := blamed_of_check h
  refine ⟨lexemes, read, ?_⟩
  intro d hd
  obtain ⟨l, hl, position, about⟩ := blamed.exists_lexeme hd
  refine ⟨l.token, ?_, ?_⟩
  · rw [position]
    exact tokenAt_of_lex read l hl
  · rw [position]
    exact about

/-- A color in a product that is an operand itself, and a difference in a condition. -/
theorem diagnostics_about_operands :
    check .empty "//é\na\x7bwidth:1+#0F0f00*A;if[2px-1]\x7b\x7d\x7d" = .error (.problems [
      ⟨⟨2, 11⟩, .colorOperand⟩, ⟨⟨2, 27⟩, .operandMismatch⟩]) ∧
    ∃ lexemes, tokenize "//é\na\x7bwidth:1+#0F0f00*A;if[2px-1]\x7b\x7d\x7d" = .ok lexemes ∧
      ∀ d ∈ [(⟨⟨2, 11⟩, .colorOperand⟩ : Diagnostic), ⟨⟨2, 27⟩, .operandMismatch⟩],
        ∃ t, TokenAt "//é\na\x7bwidth:1+#0F0f00*A;if[2px-1]\x7b\x7d\x7d".toList d.position t ∧
          d.problem.About lexemes ⟨t, d.position⟩ := by
  have found : check .empty "//é\na\x7bwidth:1+#0F0f00*A;if[2px-1]\x7b\x7d\x7d" =
      .error (.problems [⟨⟨2, 11⟩, .colorOperand⟩, ⟨⟨2, 27⟩, .operandMismatch⟩]) := by
    with_unfolding_all rfl
  exact ⟨found, diagnostics_about found⟩

end FlatSheet
