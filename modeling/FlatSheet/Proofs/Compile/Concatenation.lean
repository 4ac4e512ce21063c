import FlatSheet.Proofs.Compile.Stages
import FlatSheet.Proofs.Compile.Weakening
import FlatSheet.Proofs.Prelude.Bindings
import FlatSheet.Proofs.Reading.Sheets
import FlatSheet.Proofs.Token.Between

/-!
# Sources one after the other

Two sources that are compiled are compiled together, with a newline between them, to their outputs one
after the other. What the first leaves bound at its end is in scope in the second, which asks for
nothing but the variables of the prelude and its own; so the first must not bind the former anew.
-/

namespace FlatSheet

open Environment (Within)

/-! ### Reading -/

/-- Members are written one after the other by their tokens one after the other. -/
theorem Member.Write.append {a b : List Member} {ta tb : List Token} (ha : Member.Write a ta)
    (hb : Member.Write b tb) : Member.Write (a ++ b) (ta ++ tb) := by
  induction ha with
  | nil => exact hb
  | cons first _ ih =>
    rw [List.append_assoc]
    exact .cons first ih

/-- Two sources that are read are read together into the members of both. -/
theorem Sheet.ofSource_append {source other : String} {s t : Sheet}
    (hs : ofSource source = .ok s) (ht : ofSource other = .ok t) :
    ∃ both, ofSource (source ++ "\n" ++ other) = .ok both ∧
      both.bare = (ofMembers (s.members ++ t.members)).bare := by
  obtain ⟨lexemes, hlexemes, hs⟩ := ofSource_eq_ok_iff.mp hs
  obtain ⟨others, hothers, ht⟩ := ofSource_eq_ok_iff.mp ht
  obtain ⟨-, canonical, writes⟩ := ofLexemes_sound hs
  obtain ⟨-, canonicalOther, writesOther⟩ := ofLexemes_sound ht
  have first : ReadAs source.toList (tokensOf lexemes) := ⟨lexemes, hlexemes, rfl⟩
  have second : ReadAs other.toList (tokensOf others) := ⟨others, hothers, rfl⟩
  obtain ⟨together, hlex, htokens⟩ := first.append_newline second
  have read : tokenize (source ++ "\n" ++ other) = .ok together := by
    rw [tokenize, String.toList_append, String.toList_append, List.append_assoc]
    exact hlex
  have allCanonical : (ofMembers (s.members ++ t.members)).Canonical :=
    List.forall_mem_append.mpr ⟨canonical, canonicalOther⟩
  have allWritten : (ofMembers (s.members ++ t.members)).Writes (tokensOf together) := by
    rw [htokens]
    exact writes.append writesOther
  obtain ⟨both, hboth, bare⟩ := ofLexemes_complete allCanonical allWritten
  exact ⟨both, ofSource_eq_ok_iff.mpr ⟨together, read, hboth⟩, bare⟩

/-! ### Typing -/

/-- Members with nothing wrong may follow others that bind nothing that is bound in front of both. -/
theorem Member.Judged.append {base env : TypeEnvironment} {a b : List Member} {va vb : Verdicts}
    (ha : Member.Judged env a va) (hb : Member.Judged base b vb) (clear : Verdicts.IsClear vb)
    (within : Within base env) (apart : ∀ x, Member.assignment x ∈ a → base x.name = none) :
    Member.Judged env (a ++ b) (va ++ vb) := by
  induction ha with
  | nil env => exact hb.weaken clear within
  | rule body _ ih =>
    have others := ih within fun x hx ↦ apart x (.tail _ hx)
    have all := Member.Judged.rule body others
    simpa only [List.cons_append, List.append_assoc] using all
  | @assignment env x members t vs others value _ ih =>
    have larger := within.bind_right (apart x (.head _)) t
    have others := ih larger fun x hx ↦ apart x (.tail _ hx)
    have all := Member.Judged.assignment value others
    rwa [← List.append_assoc] at all

/-- Two sheets that are accepted are accepted as one, if the first binds nothing that is bound in front
of both. -/
theorem Sheet.accepted_append {s t : Sheet} (hs : s.diagnostics = []) (ht : t.diagnostics = [])
    {scopes : TypeScopes} (right : (s.check scopes).1.diagnostics = [])
    (rightOther : (t.check scopes).1.diagnostics = [])
    (apart : ∀ x, Member.assignment x ∈ s.members → scopes.lookup x.name = none) :
    (ofMembers (s.members ++ t.members)).diagnostics = [] ∧
      ((ofMembers (s.members ++ t.members)).check scopes).1.diagnostics = [] := by
  have clean : (ofMembers (s.members ++ t.members)).diagnostics = [] := by
    rw [diagnostics_eq_nil_iff, preorder, unreported_cons] at hs ht ⊢
    rw [ofMembers, List.flatMap_append, unreported_append]
    exact ⟨rfl, hs.2, ht.2⟩
  refine ⟨clean, ?_⟩
  have judged := judged_check hs scopes
  have judgedOther := judged_check ht scopes
  have clear := (diagnostics_check_iff_isClear hs judged).mp right
  have clearOther := (diagnostics_check_iff_isClear ht judgedOther).mp rightOther
  generalize verdictsOf (s.check scopes).1.nodes = vs at judged clear
  generalize verdictsOf (t.check scopes).1.nodes = others at judgedOther clearOther
  cases judged with
  | sheet members =>
    cases judgedOther with
    | sheet membersOther =>
      rw [Verdicts.isClear_cons] at clear clearOther
      have both := members.append membersOther clearOther.2 (.refl _) apart
      have judgedBoth : (ofMembers (s.members ++ t.members)).Judged scopes.lookup _ := .sheet both
      rw [diagnostics_check_iff_isClear clean judgedBoth, Verdicts.isClear_cons,
        Verdicts.isClear_append]
      exact ⟨rfl, clear.2, clearOther.2⟩

/-! ### Flattening -/

/-- What is found in members that follow others, which bind nothing that is bound in front of both. -/
theorem Sheet.resolveMembers_append {base env : Environment Literal} {a b : List Member}
    (right : (resolveMembers b base).errors = []) (within : Within base env)
    (apart : ∀ x, Member.assignment x ∈ a → base x.name = none) :
    (resolveMembers (a ++ b) env).kept =
        (resolveMembers a env).kept ++ (resolveMembers b base).kept ∧
      (resolveMembers (a ++ b) env).errors = (resolveMembers a env).errors := by
  induction a generalizing env with
  | nil =>
    rw [List.nil_append, resolveMembers_weaken within right]
    exact ⟨rfl, right⟩
  | cons m a ih =>
    have others : ∀ x, Member.assignment x ∈ a → base x.name = none :=
      fun x hx ↦ apart x (.tail _ hx)
    cases m with
    | rule r =>
      obtain ⟨kept, errors⟩ := ih within others
      simp only [List.cons_append, resolveMembers, Findings.kept_append, Findings.errors_append,
        kept, errors, List.append_assoc, and_self]
    | assignment x =>
      rw [List.cons_append, resolveMembers, resolveMembers]
      cases hvalue : x.value.valueIn env with
      | error e =>
        obtain ⟨kept, errors⟩ := ih within others
        simp only [Findings.kept_append, Findings.errors_append, kept, errors, List.append_assoc,
          and_self]
      | ok value => exact ih (within.bind_right (apart x (.head _)) value) others

/-! ### The output -/

/-- The output for a rule is not empty. -/
theorem Rule.css_ne_empty (r : Rule) : r.css ≠ "" := by
  intro h
  have length := congrArg String.length h
  simp only [css, String.length_append] at length
  cases length

/-- There is no output only where there are no rules. -/
theorem cssOfRules_eq_empty_iff {rules : List Rule} : cssOfRules rules = "" ↔ rules = [] := by
  constructor
  · intro h
    cases rules with
    | nil => rfl
    | cons r rules =>
      cases rules with
      | nil => exact absurd h r.css_ne_empty
      | cons next rules =>
        simp only [cssOfRules, String.append_eq_empty_iff] at h
        exact absurd h.1.1 r.css_ne_empty
  · rintro rfl
    rfl

/-- The output for rules and then others has a blank line between the two parts, unless one of them is
empty. -/
theorem cssOfRules_append (a b : List Rule) :
    cssOfRules (a ++ b) = cssOfRules a ++
      (if cssOfRules a = "" ∨ cssOfRules b = "" then "" else "\n") ++ cssOfRules b := by
  simp only [cssOfRules_eq_empty_iff]
  by_cases hb : b = []
  · rw [if_pos (.inr hb), hb]
    simp [cssOfRules]
  · obtain ⟨next, others, rfl⟩ := List.exists_cons_of_ne_nil hb
    induction a with
    | nil => simp [cssOfRules]
    | cons r a ih =>
      cases a with
      | nil => simp [cssOfRules]
      | cons second a =>
        have rest := ih
        simp only [List.cons_append, cssOfRules] at rest ⊢
        rw [rest]
        simp [String.append_assoc]

/-- A sheet has an output exactly where no error is found in it, and then it is that for the rules that
are kept. -/
theorem Sheet.css_flatten_eq_ok_iff {s : Sheet} {scopes : ValueScopes} {text : String} :
    (s.flatten scopes).1.map css = .ok text ↔
      (s.resolve scopes.lookup).errors = [] ∧ cssOfRules (s.resolve scopes.lookup).kept = text := by
  rw [flatten_eq_resolve, Findings.outcome]
  cases (s.resolve scopes.lookup).errors with
  | nil => simp [Except.map, css, Sheet.rules]
  | cons e errors => simp [Except.map]

/-- Two sheets with an output have as one the outputs one after the other, if the first binds nothing
that is bound in front of both. -/
theorem Sheet.css_flatten_append {s t : Sheet} {scopes : ValueScopes} {text other : String}
    (flat : (s.flatten scopes).1.map css = .ok text)
    (flatOther : (t.flatten scopes).1.map css = .ok other)
    (apart : ∀ x, Member.assignment x ∈ s.members → scopes.lookup x.name = none) :
    ((ofMembers (s.members ++ t.members)).flatten scopes).1.map css =
      .ok (text ++ (if text = "" ∨ other = "" then "" else "\n") ++ other) := by
  obtain ⟨right, rfl⟩ := css_flatten_eq_ok_iff.mp flat
  obtain ⟨rightOther, rfl⟩ := css_flatten_eq_ok_iff.mp flatOther
  obtain ⟨kept, errors⟩ := resolveMembers_append rightOther (.refl _) apart
  refine css_flatten_eq_ok_iff.mpr ⟨errors.trans right, ?_⟩
  rw [← cssOfRules_append]
  exact congrArg cssOfRules kept

/-! ### Compiling -/

/-- The variable that a member assigns to. -/
def Member.target? : Member → Option String
  | rule _ => none
  | assignment a => some a.name

/-- The variables that a sheet assigns to at its top. -/
def Sheet.targets (s : Sheet) : List String := s.members.filterMap Member.target?

theorem Sheet.name_mem_targets {s : Sheet} {a : Assignment} (h : .assignment a ∈ s.members) :
    a.name ∈ s.targets :=
  List.mem_filterMap.mpr ⟨_, h, rfl⟩

/-- Two sources that are compiled with a prelude, the first of which assigns to no variable of the
prelude at its top, are compiled together to their outputs one after the other, with a newline between
them if neither is empty. -/
theorem compile_append {p : Prelude} {source other css otherCss : String}
    (h : compile p source = .ok css) (hother : compile p other = .ok otherCss)
    (apart : ∀ s, Sheet.ofSource source = .ok s → ∀ name ∈ s.targets, p.get? name = none) :
    compile p (source ++ "\n" ++ other) =
      .ok (css ++ (if css = "" ∨ otherCss = "" then "" else "\n") ++ otherCss) := by
  obtain ⟨s, hs, right, flat⟩ := compile_eq_ok_css_iff.mp h
  obtain ⟨t, ht, rightOther, flatOther⟩ := compile_eq_ok_css_iff.mp hother
  obtain ⟨both, hboth, bare⟩ := Sheet.ofSource_append hs ht
  have freeTypes : ∀ x, Member.assignment x ∈ s.members →
      (TypeScopes.ofGlobals p.toList).lookup x.name = none := by
    intro x hx
    rw [Prelude.lookup_types, apart s hs _ (Sheet.name_mem_targets hx)]
    rfl
  have freeValues : ∀ x, Member.assignment x ∈ s.members →
      (Scopes.ofGlobals p.toList).lookup x.name = none := by
    intro x hx
    rw [Prelude.lookup_values, apart s hs _ (Sheet.name_mem_targets hx)]
  obtain ⟨clean, accepted⟩ := Sheet.accepted_append (Sheet.diagnostics_ofSource hs)
    (Sheet.diagnostics_ofSource ht) right rightOther freeTypes
  -- What is read is the members of both, but for their positions.
  have problems := Sheet.problems_check_congr (Sheet.diagnostics_ofSource hboth) clean bare
    (.ofGlobals p.toList)
  rw [accepted, List.map_nil, List.map_eq_nil_iff] at problems
  refine compile_eq_ok_css_iff.mpr ⟨both, hboth, problems, ?_⟩
  rw [Sheet.css_flatten_congr bare]
  exact Sheet.css_flatten_append flat flatOther freeValues

/-- A line comment at the end of the first source, and a variable that both assign to. -/
theorem compile_append_rebinding :
    ∃ p : Prelude, p.get? "H" = some (.scalar ⟨7, by decide, by decide⟩) ∧
      compile p "W:=H;a\x7bwidth:W*2px;\x7d//" = .ok "a\x7b\n  width: 14px;\n\x7d\n" ∧
      compile p "W:=3px;b\x7bwidth:W*H;\x7d" = .ok "b\x7b\n  width: 21px;\n\x7d\n" ∧
      compile p ("W:=H;a\x7bwidth:W*2px;\x7d//" ++ "\n" ++ "W:=3px;b\x7bwidth:W*H;\x7d") =
        .ok ("a\x7b\n  width: 14px;\n\x7d\n" ++ "\n" ++ "b\x7b\n  width: 21px;\n\x7d\n") := by
  obtain ⟨p, hp⟩ : ∃ p : Prelude, p = ⟨(∅ : Std.ExtTreeMap String Literal).insert "H"
      (.scalar ⟨7, by decide, by decide⟩)⟩ := ⟨_, rfl⟩
  have bound (name : String) : p.get? name =
      if "H" = name then some (.scalar ⟨7, by decide, by decide⟩) else none := by
    rw [hp, Prelude.get?, Std.ExtTreeMap.getElem?_insert]
    simp
  have first : compile p "W:=H;a\x7bwidth:W*2px;\x7d//" =
      .ok "a\x7b\n  width: 14px;\n\x7d\n" := by
    rw [hp]
    with_unfolding_all rfl
  have second : compile p "W:=3px;b\x7bwidth:W*H;\x7d" =
      .ok "b\x7b\n  width: 21px;\n\x7d\n" := by
    rw [hp]
    with_unfolding_all rfl
  have assigned : (Sheet.ofSource "W:=H;a\x7bwidth:W*2px;\x7d//").toOption.map Sheet.targets =
      some ["W"] := by with_unfolding_all rfl
  have apart : ∀ s, Sheet.ofSource "W:=H;a\x7bwidth:W*2px;\x7d//" = .ok s →
      ∀ name ∈ s.targets, p.get? name = none := by
    intro s hs name hname
    rw [hs] at assigned
    rw [Option.some.inj assigned, List.mem_singleton] at hname
    rw [hname, bound]
    simp
  have both := compile_append first second apart
  rw [if_neg (by simp)] at both
  exact ⟨p, by simp [bound], first, second, both⟩

end FlatSheet
