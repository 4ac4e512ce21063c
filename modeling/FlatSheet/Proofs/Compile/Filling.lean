import Mathlib.Data.List.Infix
import FlatSheet.Proofs.Compile.Stages
import FlatSheet.Proofs.Compile.Unmarked
import FlatSheet.Proofs.Reading.Alike
import FlatSheet.Proofs.Token.Between

/-!
# Blanks and comments decide nothing

A source is compiled to the same output, or fails for the same reason, whatever blanks and comments
stand between its tokens: what is read of it is its tokens, and where they stand decides only the
positions of what is found wrong.
-/

namespace FlatSheet

/-- An error without the positions in it. -/
def CompileError.unplaced : CompileError → CompileError
  | unreadable e => unreadable ⟨e.fault, .unknown⟩
  | problems diagnostics => problems (diagnostics.map fun d ↦ ⟨.unknown, d.problem⟩)
  | unfoldable e => unfoldable e
  | badPrelude e => badPrelude e

/-- Sources with the same tokens are compiled alike. -/
theorem compile_alike {source other : String} {lexemes lexemes' : List Lexeme}
    (h : tokenize source = .ok lexemes) (h' : tokenize other = .ok lexemes')
    (same : tokensOf lexemes' = tokensOf lexemes) (p : Prelude) :
    (compile p other).mapError CompileError.unplaced =
      (compile p source).mapError CompileError.unplaced := by
  cases read : Sheet.ofLexemes lexemes with
  | error e =>
    obtain ⟨e', read', fault⟩ := Sheet.ofLexemes_error_alike same.symm read
    simp only [compile, check, Sheet.ofSource, h, h', read, read', Except.mapError,
      CompileError.unplaced, fault]
  | ok s =>
    obtain ⟨t, read', bare⟩ := Sheet.ofLexemes_ok_alike same.symm read
    have fromSource := Sheet.ofSource_eq_ok_iff.mpr ⟨lexemes, h, read⟩
    have fromOther := Sheet.ofSource_eq_ok_iff.mpr ⟨lexemes', h', read'⟩
    have problems := Sheet.problems_check_congr (Sheet.diagnostics_ofSource fromOther)
      (Sheet.diagnostics_ofSource fromSource) bare (.ofGlobals p.toList)
    by_cases right : (s.check (.ofGlobals p.toList)).1.diagnostics = []
    · have right' : (t.check (.ofGlobals p.toList)).1.diagnostics = [] := by
        simpa [right] using problems
      rw [compile_of_accepted fromSource right, compile_of_accepted fromOther right',
        Sheet.css_flatten_congr bare]
    · have wrong' : (t.check (.ofGlobals p.toList)).1.diagnostics ≠ [] := by
        intro right'
        apply right
        simpa [right'] using problems.symm
      have unplaced (diagnostics : List Diagnostic) :
          diagnostics.map (fun d ↦ (⟨.unknown, d.problem⟩ : Diagnostic)) =
            (diagnostics.map Diagnostic.problem).map (⟨.unknown, ·⟩) := by
        rw [List.map_map]
        rfl
      rw [compile_of_problems fromSource right, compile_of_problems fromOther wrong']
      simp only [Except.mapError, CompileError.unplaced, unplaced, problems]

/-- Blanks and closed comments that are put right before or right after a token of a source leave its
tokens as they are, and for every prelude the source is compiled to the same output, or fails with the
same fault, the same problems in the same order, or the same error of folding. -/
theorem compile_filled {source : String} {lexemes : List Lexeme}
    (read : tokenize source = .ok lexemes) {before after filling : List Char}
    (edge : TokenEdge source.toList before after) (filled : Filling filling) :
    before ++ after = source.toList ∧
      (∃ lexemes', tokenize (String.ofList (before ++ (filling ++ after))) = .ok lexemes' ∧
        tokensOf lexemes' = tokensOf lexemes) ∧
      ∀ p, (compile p (String.ofList (before ++ (filling ++ after)))).mapError CompileError.unplaced =
        (compile p source).mapError CompileError.unplaced := by
  have whole : ReadAs source.toList (tokensOf lexemes) := ⟨lexemes, read, rfl⟩
  obtain ⟨lexemes', hlex, same⟩ := whole.fill edge filled
  have read' : tokenize (String.ofList (before ++ (filling ++ after))) = .ok lexemes' := by
    rwa [tokenize, String.toList_ofList]
  refine ⟨edge.append_eq read, ⟨lexemes', read', same⟩, ?_⟩
  exact compile_alike read read' same

/-- A blank, a comment with stars and slashes in it and a line comment after a token that the next one
stands close to. -/
theorem compile_filled_inside_declaration :
    ∃ lexemes lexemes', tokenize "a\x7bwidth:2px;\x7d" = .ok lexemes ∧
      tokenize "a\x7bwidth /*/ **///*\n:2px;\x7d" = .ok lexemes' ∧
      tokensOf lexemes' = tokensOf lexemes ∧
      ∀ p, (compile p "a\x7bwidth /*/ **///*\n:2px;\x7d").mapError CompileError.unplaced =
        (compile p "a\x7bwidth:2px;\x7d").mapError CompileError.unplaced := by
  have readable : (tokenize "a\x7bwidth:2px;\x7d").toBool = true := by with_unfolding_all rfl
  have cutting : (cut "a\x7bwidth:2px;\x7d".toList).1 =
      [⟨.identifier, ['a']⟩, ⟨.symbol .openBrace, ['\x7b']⟩] ++
        ⟨.identifier, ['w', 'i', 'd', 't', 'h']⟩ ::
          [⟨.symbol .colon, [':']⟩, ⟨.pixels, ['2', 'p', 'x']⟩, ⟨.symbol .semicolon, [';']⟩,
            ⟨.symbol .closeBrace, ['\x7d']⟩] := by with_unfolding_all rfl
  have edge : TokenEdge "a\x7bwidth:2px;\x7d".toList ['a', '\x7b', 'w', 'i', 'd', 't', 'h']
      [':', '2', 'p', 'x', ';', '\x7d'] := .after cutting (.identifier _)
  have comment : ¬ ['*', '/'] <:+: ['/', ' ', '*'] := by decide
  have line : ∀ c ∈ ['*'], c ≠ '\n' := by simp
  have filled : Filling [' ', '/', '*', '/', ' ', '*', '*', '/', '/', '/', '*', '\n'] :=
    .blank rfl (.blockComment comment (.lineComment line .nil))
  have text : String.ofList (['a', '\x7b', 'w', 'i', 'd', 't', 'h'] ++
      ([' ', '/', '*', '/', ' ', '*', '*', '/', '/', '/', '*', '\n'] ++
        [':', '2', 'p', 'x', ';', '\x7d'])) = "a\x7bwidth /*/ **///*\n:2px;\x7d" := by
    with_unfolding_all rfl
  cases read : tokenize "a\x7bwidth:2px;\x7d" with
  | error e =>
    rw [read] at readable
    cases readable
  | ok lexemes =>
    obtain ⟨-, ⟨lexemes', read', same⟩, compiled⟩ := compile_filled read edge filled
    rw [text] at read'
    simp only [text] at compiled
    exact ⟨lexemes, lexemes', rfl, read', same, compiled⟩

end FlatSheet
