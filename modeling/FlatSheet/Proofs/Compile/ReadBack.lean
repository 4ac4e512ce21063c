import FlatSheet.Compile
import FlatSheet.Proofs.Compile.Stages
import FlatSheet.Proofs.Prelude.Legible
import FlatSheet.Proofs.Sheet.Css

/-!
# The output is read back

What a sheet is compiled to is a sheet in turn. It is read as the flat sheet that it was written from,
and as a flat sheet has nothing to flatten, it is compiled to itself. Two things are lost in writing:
the minus sign of a negative number is read as an operator, and a tag that is not in front is read as
a part of the selector before it.
-/

namespace FlatSheet

/-- What is written for a flat sheet of spelled tokens is read as that sheet. -/
theorem Sheet.ofSource_css {s : Sheet} (plain : s.Plain) (numbers : s.NumbersNonNegative)
    (tags : s.TagsFirst) : ∃ again, ofSource s.css = .ok again ∧ again.bare = s.bare := by
  obtain ⟨ts, writes, spelled⟩ := plain.exists_writes_spelled numbers
  obtain ⟨lexemes, hlex, htokens⟩ := (spells_css writes plain.isFlat tags spelled).lex_eq
  have written : s.Writes (tokensOf lexemes) := by
    rw [tokensOf, htokens]
    exact writes
  obtain ⟨again, hread, hbare⟩ := ofLexemes_complete plain.canonical written
  refine ⟨again, ?_, hbare⟩
  rw [ofSource, tokenize, hlex]
  exact hread

/-- The flat sheet that an accepted source is compiled through is plain. -/
theorem plain_of_check {p : Prelude} {source : String} {s flat : Sheet} (legible : p.Legible)
    (hs : check p source = .ok s)
    (hflat : (s.flatten (Scopes.ofGlobals p.toList)).1 = .ok flat) : flat.Plain := by
  have read := (check_eq_ok_iff.mp hs).1
  unfold Sheet.ofSource at read
  split at read
  · next lexemes hlexemes =>
    have spelled : ∀ t ∈ tokensOf lexemes, t.Spelled := by
      intro t ht
      obtain ⟨l, hl, rfl⟩ := List.mem_map.mp ht
      exact spelled_of_lex hlexemes l hl
    exact Sheet.plain_flatten read spelled legible.scopes hflat
  · cases read

/-- A source that is compiled is checked and flattened to a sheet, of which the output is written. If
that sheet has no negative number, and a tag at most as the first selector of a rule, the output is
read as the same sheet, up to the positions in it, and the sheet that is read is flattened in any
scopes to one with the same output. -/
theorem compile_reads_back {p : Prelude} {source css : String}
    (prelude : p = .empty ∨ ∃ path document, Prelude.ofJson path document = .ok p)
    (h : compile p source = .ok css) :
    ∃ s flat, check p source = .ok s ∧ (s.flatten (Scopes.ofGlobals p.toList)).1 = .ok flat ∧
      flat.css = css ∧ (flat.NumbersNonNegative → flat.TagsFirst →
        ∃ again, Sheet.ofSource css = .ok again ∧ again.bare = flat.bare ∧
          flat.diagnostics = [] ∧ again.diagnostics = [] ∧
          ∀ scopes, ∃ flatAgain, (again.flatten scopes).1 = .ok flatAgain ∧ flatAgain.css = css) := by
  have legible : p.Legible := by
    obtain rfl | ⟨path, document, written⟩ := prelude
    · exact Prelude.legible_empty
    · exact Prelude.legible_ofJson written
  obtain ⟨s, flat, hs, hflat, rfl⟩ := compile_eq_ok_iff.mp h
  have plain := plain_of_check legible hs hflat
  refine ⟨s, flat, hs, hflat, rfl, ?_⟩
  intro numbers tags
  obtain ⟨again, hread, hbare⟩ := Sheet.ofSource_css plain numbers tags
  refine ⟨again, hread, hbare, plain.diagnostics, Sheet.diagnostics_ofSource hread, ?_⟩
  intro scopes
  have isFlat : again.IsFlat := by
    rw [← Sheet.isFlat_bare, hbare, Sheet.isFlat_bare]
    exact plain.isFlat
  obtain ⟨flatAgain, hagain, hbareAgain⟩ := isFlat.flatten scopes
  refine ⟨flatAgain, hagain, ?_⟩
  rw [← Sheet.css_bare, hbareAgain, hbare, Sheet.css_bare]

/-- Ids that look like colors and stand side by side, a tag before a class, two rules, and a color from
a document. -/
theorem compile_reads_back_of_ids :
    ∃ (p : Prelude) (s flat again : Sheet),
      Prelude.ofJson "colors.json"
        "\x7b\"variables\":\x7b\"Main\":\"#0F0f00\"\x7d\x7d" = .ok p ∧
      compile p "#ABCDEF#abc123\x7bwidth:7*2px;\x7dh1.a\x7bcolor:Main;\x7d" = .ok
        "#ABCDEF#abc123\x7b\n  width: 14px;\n\x7d\n\nh1.a\x7b\n  color: #0F0f00;\n\x7d\n" ∧
      check p "#ABCDEF#abc123\x7bwidth:7*2px;\x7dh1.a\x7bcolor:Main;\x7d" = .ok s ∧
      (s.flatten (Scopes.ofGlobals p.toList)).1 = .ok flat ∧
      flat.NumbersNonNegative ∧ flat.TagsFirst ∧
      Sheet.ofSource
        "#ABCDEF#abc123\x7b\n  width: 14px;\n\x7d\n\nh1.a\x7b\n  color: #0F0f00;\n\x7d\n" =
          .ok again ∧
      again.bare = flat.bare := by
  obtain ⟨p, hp⟩ : ∃ p : Prelude,
      p = ⟨(∅ : Std.ExtTreeMap String Literal).insert "Main" (.color "#0F0f00")⟩ := ⟨_, rfl⟩
  have values : Prelude.ofJson "colors.json"
      "\x7b\"variables\":\x7b\"Main\":\"#0F0f00\"\x7d\x7d" = .ok p := by
    rw [hp]
    with_unfolding_all rfl
  have compiled : compile p "#ABCDEF#abc123\x7bwidth:7*2px;\x7dh1.a\x7bcolor:Main;\x7d" = .ok
      "#ABCDEF#abc123\x7b\n  width: 14px;\n\x7d\n\nh1.a\x7b\n  color: #0F0f00;\n\x7d\n" := by
    rw [hp]
    with_unfolding_all rfl
  obtain ⟨s, flat, hs, hflat, -, back⟩ := compile_reads_back (.inr ⟨_, _, values⟩) compiled
  have fits : ((check p "#ABCDEF#abc123\x7bwidth:7*2px;\x7dh1.a\x7bcolor:Main;\x7d").toOption.bind
      fun s ↦ (s.flatten (Scopes.ofGlobals p.toList)).1.toOption).all
        (fun flat ↦ decide (flat.NumbersNonNegative ∧ flat.TagsFirst)) = true := by
    rw [hp]
    with_unfolding_all rfl
  simp only [hs, hflat, Except.toOption, Option.bind_some, Option.all_some, decide_eq_true_eq]
    at fits
  obtain ⟨again, hread, hbare, -⟩ := back fits.1 fits.2
  exact ⟨p, s, flat, again, values, compiled, hs, hflat, fits.1, fits.2, hread, hbare⟩

end FlatSheet
