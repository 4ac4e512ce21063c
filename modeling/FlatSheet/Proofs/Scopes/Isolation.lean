import FlatSheet.Proofs.Scopes.Restored

/-!
# Rules are apart from each other

What a rule binds is gone after it, so the rules of a sheet meet only the assignments at the top
that come before them. A rule is typed and flattened as if it stood alone after those assignments,
whatever other rules there are, how deep their branches go and what is wrong in them.
-/

namespace FlatSheet

/-- The assignments among some members. -/
def Sheet.assignmentsOf : List Member → List Assignment
  | [] => []
  | .rule _ :: members => assignmentsOf members
  | .assignment a :: members => a :: assignmentsOf members

/-- A sheet of one rule and the assignments that are among the members before it. -/
def Sheet.alone (s : Sheet) (before : List Member) (r : Rule) : Sheet :=
  ⟨(assignmentsOf before).map .assignment ++ [.rule r], s.problem⟩

/-- The scopes for typing after some assignments. -/
def TypeScopes.after (scopes : TypeScopes) (assignments : List Assignment) : TypeScopes :=
  assignments.foldl (fun scopes a ↦ scopes.declare a.name (a.check scopes).2) scopes

/-- The scopes for flattening after some assignments, if these have values. -/
def ValueScopes.after (scopes : ValueScopes) : List Assignment → Except FoldError ValueScopes
  | [] => .ok scopes
  | a :: assignments => do
    let value ← a.value.fold scopes
    ValueScopes.after (scopes.declare a.name value) assignments

namespace Sheet

@[simp] theorem assignmentsOf_map (assignments : List Assignment) :
    assignmentsOf (assignments.map Member.assignment) = assignments := by
  induction assignments with
  | nil => rfl
  | cons a assignments ih => rw [List.map_cons, assignmentsOf, ih]

@[simp] theorem rulesOf_map_assignment (assignments : List Assignment) :
    rulesOf (assignments.map Member.assignment) = [] := by
  induction assignments with
  | nil => rfl
  | cons a assignments ih => rw [List.map_cons, rulesOf, ih]

/-! ### Typing -/

/-- Typing leaves as many rules as there were. -/
theorem length_rulesOf_checkMembers (members : List Member) (scopes : TypeScopes) :
    (rulesOf (checkMembers members scopes).1).length = (rulesOf members).length := by
  induction members generalizing scopes with
  | nil => rfl
  | cons m members ih =>
    cases m with
    | rule r => exact congrArg (· + 1) (ih _)
    | assignment a => exact ih _

/-- A rule after some members is typed in the scopes after the assignments among them, and takes the
place of the rule. -/
theorem rulesOf_checkMembers (before after : List Member) (r : Rule) (scopes : TypeScopes) :
    ∃ front back, rulesOf (checkMembers (before ++ .rule r :: after) scopes).1 =
        front ++ (r.check (scopes.after (assignmentsOf before))).1 :: back ∧
      front.length = (rulesOf before).length ∧ back.length = (rulesOf after).length := by
  induction before generalizing scopes with
  | nil => exact ⟨[], _, rfl, rfl, length_rulesOf_checkMembers after _⟩
  | cons m before ih =>
    cases m with
    | rule q =>
      obtain ⟨front, back, rules, lengths⟩ := ih scopes
      refine ⟨(q.check scopes).1 :: front, back, ?_, congrArg (· + 1) lengths.1, lengths.2⟩
      rw [List.cons_append, checkMembers, Rule.check_snd, rulesOf, rules, assignmentsOf,
        List.cons_append]
    | assignment a => exact ih (scopes.declare a.name (a.check scopes).2)

/-! ### Flattening -/

/-- Members that begin with a rule are flattened exactly when the rule and the others are. -/
theorem flattenMembers_rule_eq_ok_iff {r : Rule} {members flat : List Member}
    {scopes : ValueScopes} :
    (flattenMembers (.rule r :: members) scopes).1 = .ok flat ↔
      ∃ kept others, (r.flatten scopes).1 = .ok kept ∧
        (flattenMembers members scopes).1 = .ok others ∧ flat = .rule kept :: others := by
  simp only [flattenMembers, Rule.flatten_snd]
  cases (r.flatten scopes).1 with
  | error e => simp
  | ok kept => cases (flattenMembers members scopes).1 <;> simp [Except.map, eq_comm]

/-- Members that begin with an assignment are flattened exactly when it has a value with which the
others are. -/
theorem flattenMembers_assignment_eq_ok_iff {a : Assignment} {members flat : List Member}
    {scopes : ValueScopes} :
    (flattenMembers (.assignment a :: members) scopes).1 = .ok flat ↔
      ∃ value, a.value.fold scopes = .ok value ∧
        (flattenMembers members (scopes.declare a.name value)).1 = .ok flat := by
  rw [flattenMembers]
  cases a.value.fold scopes <;> simp

/-- A rule after some members that are flattened is flattened in the scopes after the assignments
among them, and takes the place of the rule. -/
theorem flattenMembers_split {before after flat : List Member} {r : Rule} {scopes : ValueScopes}
    (h : (flattenMembers (before ++ .rule r :: after) scopes).1 = .ok flat) :
    ∃ inner kept front back, scopes.after (assignmentsOf before) = .ok inner ∧
      (r.flatten inner).1 = .ok kept ∧ flat = front ++ .rule kept :: back ∧
      (rulesOf front).length = (rulesOf before).length := by
  induction before generalizing scopes flat with
  | nil =>
    obtain ⟨kept, others, hkept, -, rfl⟩ := flattenMembers_rule_eq_ok_iff.mp h
    exact ⟨scopes, kept, [], others, rfl, hkept, rfl, rfl⟩
  | cons m before ih =>
    cases m with
    | rule q =>
      obtain ⟨first, others, -, hothers, rfl⟩ := flattenMembers_rule_eq_ok_iff.mp h
      obtain ⟨inner, kept, front, back, hinner, hkept, rfl, length⟩ := ih hothers
      exact ⟨inner, kept, .rule first :: front, back, hinner, hkept, rfl, congrArg (· + 1) length⟩
    | assignment a =>
      obtain ⟨value, hvalue, hothers⟩ := flattenMembers_assignment_eq_ok_iff.mp h
      obtain ⟨inner, kept, front, back, hinner, rest⟩ := ih hothers
      refine ⟨inner, kept, front, back, ?_, rest⟩
      rw [assignmentsOf, ValueScopes.after, hvalue]
      exact hinner

/-- A rule that is flattened in the scopes after some assignments is flattened with only these in
front of it. -/
theorem flattenMembers_alone {assignments : List Assignment} {r kept : Rule}
    {scopes inner : ValueScopes} (hinner : scopes.after assignments = .ok inner)
    (hkept : (r.flatten inner).1 = .ok kept) :
    (flattenMembers (assignments.map .assignment ++ [.rule r]) scopes).1 = .ok [.rule kept] := by
  induction assignments generalizing scopes with
  | nil =>
    obtain rfl := Except.ok.inj hinner
    exact flattenMembers_rule_eq_ok_iff.mpr ⟨kept, [], hkept, rfl, rfl⟩
  | cons a assignments ih =>
    rw [ValueScopes.after] at hinner
    cases hvalue : a.value.fold scopes with
    | error e =>
      rw [hvalue] at hinner
      cases hinner
    | ok value =>
      rw [hvalue] at hinner
      exact flattenMembers_assignment_eq_ok_iff.mpr ⟨value, hvalue, ih hinner⟩

/-! ### Sheets -/

/-- A rule of a sheet is typed in the scopes after the assignments that come before it. -/
theorem rules_check_of_split {s : Sheet} {before after : List Member} {r : Rule}
    (split : s.members = before ++ .rule r :: after) (scopes : TypeScopes) :
    (s.check scopes).1.rules[(rulesOf before).length]? =
      some (r.check (TypeScopes.after scopes.push (assignmentsOf before))).1 := by
  obtain ⟨front, back, hrules, hfront, -⟩ := rulesOf_checkMembers before after r scopes.push
  rw [rules, check, Scopes.enclosed_fst, split, hrules, ← hfront]
  simp

/-- Alone, a rule is typed in the same scopes. -/
theorem rules_check_alone (s : Sheet) (before : List Member) (r : Rule) (scopes : TypeScopes) :
    ((s.alone before r).check scopes).1.rules =
      [(r.check (TypeScopes.after scopes.push (assignmentsOf before))).1] := by
  obtain ⟨front, back, hrules, hfront, hback⟩ :=
    rulesOf_checkMembers ((assignmentsOf before).map .assignment) [] r scopes.push
  rw [rulesOf_map_assignment] at hfront
  obtain rfl := List.length_eq_zero_iff.mp hfront
  obtain rfl := List.length_eq_zero_iff.mp hback
  rwa [assignmentsOf_map] at hrules

/-- A rule of a sheet that is flattened is flattened in the scopes after the assignments that come
before it. -/
theorem rules_flatten_of_split {s flat : Sheet} {before after : List Member} {r : Rule}
    (split : s.members = before ++ .rule r :: after) {scopes : ValueScopes}
    (h : (s.flatten scopes).1 = .ok flat) :
    ∃ inner kept, ValueScopes.after scopes.push (assignmentsOf before) = .ok inner ∧
      (r.flatten inner).1 = .ok kept ∧ flat.rules[(rulesOf before).length]? = some kept := by
  rw [flatten, Scopes.enclosed_fst, split] at h
  cases hmembers : (flattenMembers (before ++ .rule r :: after) scopes.push).1 with
  | error e =>
    rw [hmembers] at h
    cases h
  | ok members =>
    rw [hmembers] at h
    obtain rfl := Except.ok.inj h
    obtain ⟨inner, kept, front, back, hinner, hkept, rfl, length⟩ := flattenMembers_split hmembers
    refine ⟨inner, kept, hinner, hkept, ?_⟩
    rw [rules, rulesOf_append, rulesOf, ← length]
    simp

/-- Alone, a rule is flattened in the same scopes. -/
theorem flatten_alone (s : Sheet) {before : List Member} {r kept : Rule} {scopes inner : ValueScopes}
    (hinner : ValueScopes.after scopes.push (assignmentsOf before) = .ok inner)
    (hkept : (r.flatten inner).1 = .ok kept) :
    ((s.alone before r).flatten scopes).1 = .ok ⟨[.rule kept], s.problem⟩ := by
  rw [flatten, Scopes.enclosed_fst, alone, flattenMembers_alone hinner hkept]
  rfl

/-- Each rule of a sheet is typed, and flattened if the sheet is, as it is alone after the
assignments that come before it at the top of the sheet. So it is typed and flattened alike in all
sheets in which the same assignments come before it, whatever other rules they have. -/
theorem rules_isolated {s : Sheet} {before after : List Member} {r : Rule}
    (split : s.members = before ++ .rule r :: after) (types : TypeScopes) (values : ValueScopes) :
    (∃ checked, ((s.alone before r).check types).1.rules = [checked] ∧
      (s.check types).1.rules[(rulesOf before).length]? = some checked) ∧
    (∀ flat, (s.flatten values).1 = .ok flat →
      ∃ only kept, ((s.alone before r).flatten values).1 = .ok only ∧ only.rules = [kept] ∧
        flat.rules[(rulesOf before).length]? = some kept) ∧
    ∀ (t : Sheet) (others rest : List Member), t.members = others ++ .rule r :: rest →
      assignmentsOf others = assignmentsOf before →
        (t.check types).1.rules[(rulesOf others).length]? =
          (s.check types).1.rules[(rulesOf before).length]? ∧
        ∀ flat other, (s.flatten values).1 = .ok flat → (t.flatten values).1 = .ok other →
          other.rules[(rulesOf others).length]? = flat.rules[(rulesOf before).length]? := by
  refine ⟨⟨_, rules_check_alone s before r types, rules_check_of_split split types⟩, ?_, ?_⟩
  · intro flat hflat
    obtain ⟨inner, kept, hinner, hkept, place⟩ := rules_flatten_of_split split hflat
    exact ⟨_, kept, flatten_alone s hinner hkept, rfl, place⟩
  · intro t others rest splitOther same
    constructor
    · rw [rules_check_of_split splitOther, rules_check_of_split split, same]
    · intro flat other hflat hother
      obtain ⟨inner, kept, hinner, hkept, place⟩ := rules_flatten_of_split split hflat
      obtain ⟨inner', kept', hinner', hkept', place'⟩ := rules_flatten_of_split splitOther hother
      rw [same, hinner] at hinner'
      obtain rfl := Except.ok.inj hinner'
      rw [hkept] at hkept'
      obtain rfl := Except.ok.inj hkept'
      rw [place, place']

/-- The first rule binds the names again to other types, in two frames, and has problems of its own;
in the other sheet it is left out and the last one is gone, too. -/
theorem rules_isolated_among_others :
    let m := Mark.clean .unknown
    let four : Literal := .pixels ⟨4, by decide, by decide⟩
    let bind (name : String) (value : Expr) : Member := .assignment ⟨name, value, m⟩
    let noisy : Rule := ⟨[.tag "a"], .assignment ⟨"H", .literal (.bool false) m, m⟩
      (.ifElse (.reference "H" m) (.assignment ⟨"G", .reference "N" m, m⟩ .empty) m
        (.assignment ⟨"H", .literal (.color "#000000") m, m⟩ .empty) m .empty), m⟩
    let sized (margin : Expr) (mark : Mark) (width : Expr) : Rule := ⟨[.cls ".b"],
      .declaration ⟨"margin", margin, mark⟩ (.declaration ⟨"width", width, m⟩ .empty), m⟩
    let product : Expr := .operation .multiply (.reference "G" m) (.reference "H" m) m
    let r := sized (.reference "H" m) m product
    let checked := sized (.reference "H" m) ⟨.unknown, some (.unknownProperty "margin")⟩ product
    let kept := sized (.literal four m) m (.literal (.pixels ⟨8, by decide, by decide⟩) m)
    let before := [bind "H" (.literal four m), .rule noisy, bind "G" (.reference "F" m)]
    let s : Sheet := .ofMembers (before ++ [.rule r, .rule ⟨[.id "#c"], .empty, m⟩])
    let t : Sheet := .ofMembers [bind "H" (.literal four m), bind "G" (.reference "F" m), .rule r]
    let globals := [("F", Literal.scalar ⟨2, by decide, by decide⟩)]
    let types := TypeScopes.ofGlobals globals
    let values : ValueScopes := .ofGlobals globals
    (s.check types).1.rules[1]? = some checked ∧ (t.check types).1.rules[0]? = some checked ∧
      ∃ flat other, (s.flatten values).1 = .ok flat ∧ (t.flatten values).1 = .ok other ∧
        flat.rules[1]? = some kept ∧ other.rules[0]? = some kept := by
  intro m four bind noisy sized product r checked kept before s t globals types values
  have split : s.members = before ++ .rule r :: [.rule ⟨[.id "#c"], .empty, m⟩] := rfl
  obtain ⟨-, -, alike⟩ := rules_isolated split types values
  obtain ⟨typed, flattened⟩ :=
    alike t [bind "H" (.literal four m), bind "G" (.reference "F" m)] [] rfl rfl
  have place : (s.check types).1.rules[1]? = some checked := by decide
  refine ⟨place, typed.trans place, _, _, rfl, rfl, rfl, ?_⟩
  exact flattened _ _ rfl rfl

end Sheet

end FlatSheet
