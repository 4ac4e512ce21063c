import FlatSheet.Proofs.Typing.Soundness

/-!
# What a run takes of a sheet

`Sheet.taken` empties the branches that a run does not take. This changes nothing for the run, and
in what is left typing sees the names as the run does. So a run that comes to an end has well typed
declarations exactly when typing accepts what it takes.
-/

namespace FlatSheet

/-! ### Taking branches -/

/-- Whether a condition folds to a truth value. -/
def Expr.foldsTo (values : ValueScopes) (c : Expr) (b : Bool) : Bool :=
  match c.foldCondition values with
  | .ok taken => taken == b
  | .error _ => false

/-- A block without the branches that a run does not take, and without what comes after an
assignment that has no value. -/
def Block.taken : Block → ValueScopes → Block
  | empty, _ => empty
  | declaration d rest, values => declaration d (rest.taken values)
  | assignment a rest, values =>
    match a.value.fold values with
    | .ok value => assignment a (rest.taken (values.declare a.name value))
    | .error _ => assignment a empty
  | ifThen c body m rest, values =>
    ifThen c (if c.foldsTo values true then body.taken values.push else empty) m (rest.taken values)
  | ifElse c body m other om rest, values =>
    ifElse c (if c.foldsTo values true then body.taken values.push else empty) m
      (if c.foldsTo values false then other.taken values.push else empty) om (rest.taken values)

namespace Sheet

/-- Members with only what a run takes of them. -/
def takenMembers : List Member → ValueScopes → List Member
  | [], _ => []
  | .rule r :: members, values =>
    .rule ⟨r.selectors, r.body.taken values.push, r.mark⟩ :: takenMembers members values
  | .assignment a :: members, values =>
    match a.value.fold values with
    | .ok value => .assignment a :: takenMembers members (values.declare a.name value)
    | .error _ => [.assignment a]

/-- A sheet with only what a run takes of it. -/
def taken (s : Sheet) (values : ValueScopes) : Sheet :=
  ⟨takenMembers s.members values.push, s.problem⟩

end Sheet

/-! ### The run takes what it took -/

private theorem Expr.foldsTo_of_ok {values : ValueScopes} {c : Expr} {taken : Bool}
    (h : c.foldCondition values = .ok taken) (b : Bool) : c.foldsTo values b = (taken == b) := by
  rw [foldsTo, h]

/-- A block is flattened to the same as what a run takes of it. -/
theorem Block.flatten_taken (b : Block) (values : ValueScopes) :
    ((b.taken values).flatten values).1 = (b.flatten values).1 := by
  induction b generalizing values with
  | empty => rfl
  | declaration d rest ih => rw [taken, flatten_declaration, flatten_declaration, ih]
  | assignment a rest ih =>
    rw [taken, flatten_assignment]
    cases h : a.value.fold values with
    | error e =>
      rw [flatten_assignment, h]
      rfl
    | ok value =>
      rw [flatten_assignment, h]
      exact ih (values.declare a.name value)
  | ifThen c body m rest ihBody ih =>
    rw [taken, flatten_ifThen, flatten_ifThen, ih]
    cases h : c.foldCondition values with
    | error e => rfl
    | ok live =>
      rw [Expr.foldsTo_of_ok h]
      cases live with
      | true => simp [ihBody]
      | false => rfl
  | ifElse c body m other om rest ihBody ihOther ih =>
    rw [taken, flatten_ifElse, flatten_ifElse, ih]
    cases h : c.foldCondition values with
    | error e => rfl
    | ok live =>
      rw [Expr.foldsTo_of_ok h, Expr.foldsTo_of_ok h]
      cases live with
      | true => simp [bind, Except.bind, ihBody]
      | false => simp [bind, Except.bind, ihOther]

private theorem Sheet.flattenMembers_taken (members : List Member) (values : ValueScopes) :
    (flattenMembers (takenMembers members values) values).1 =
      (flattenMembers members values).1 := by
  induction members generalizing values with
  | nil => rfl
  | cons m members ih =>
    cases m with
    | rule r =>
      rw [takenMembers, flattenMembers_rule, flattenMembers_rule, Block.flatten_taken, ih]
    | assignment a =>
      rw [takenMembers, flattenMembers_assignment]
      cases h : a.value.fold values with
      | error e =>
        rw [flattenMembers_assignment, h]
        rfl
      | ok value =>
        rw [flattenMembers_assignment, h]
        exact ih (values.declare a.name value)

/-- A sheet is flattened to the same as what a run takes of it. -/
theorem Sheet.flatten_taken (s : Sheet) (values : ValueScopes) :
    ((s.taken values).flatten values).1 = (s.flatten values).1 := by
  have members := flattenMembers_taken s.members values.push
  simp only [flatten, taken, Scopes.enclosed_fst, members]

/-- Of two branches one at most is taken, so they are apart. -/
theorem Block.branchesApart_taken (b : Block) (values : ValueScopes) :
    (b.taken values).BranchesApart := by
  induction b generalizing values with
  | empty => trivial
  | declaration d rest ih => exact ih values
  | assignment a rest ih =>
    rw [taken]
    split
    · exact ih _
    · trivial
  | ifThen c body m rest ihBody ih =>
    refine ⟨?_, ih values⟩
    split
    · exact ihBody values.push
    · trivial
  | ifElse c body m other om rest ihBody ihOther ih =>
    refine ⟨?_, ?_, ?_, ih values⟩
    · cases h : c.foldCondition values with
      | error e => simp [Expr.foldsTo, h, assigned]
      | ok live => cases live <;> simp [Expr.foldsTo_of_ok h, assigned, references]
    · split
      · exact ihBody values.push
      · trivial
    · split
      · exact ihOther values.push
      · trivial

private theorem Sheet.branchesApart_takenMembers (members : List Member) (values : ValueScopes) :
    ∀ r ∈ rulesOf (takenMembers members values), r.body.BranchesApart := by
  induction members generalizing values with
  | nil => nofun
  | cons m members ih =>
    cases m with
    | rule r => exact List.forall_mem_cons.mpr ⟨r.body.branchesApart_taken _, ih values⟩
    | assignment a =>
      rw [takenMembers]
      split
      · exact ih _
      · nofun

/-- The branches that a run takes of a sheet are apart. -/
theorem Sheet.branchesApart_taken (s : Sheet) (values : ValueScopes) :
    (s.taken values).BranchesApart :=
  branchesApart_takenMembers s.members values.push

/-! ### What folds is accepted -/

private theorem Expr.unfit?_of_fold {values : ValueScopes} {e : Expr} {v : Literal}
    (h : e.fold values = .ok v) (hv : v.type ≠ .color ∧ v.type ≠ .bool) : e.unfit? = none := by
  cases e with
  | literal value m =>
    cases h
    cases v with
    | color t => exact absurd rfl hv.1
    | bool b => exact absurd rfl hv.2
    | _ => rfl
  | reference name m => rfl
  | operation op lhs rhs m => rfl

/-- An expression with a value is accepted in the scopes that it has the value in. -/
theorem Expr.unreported_check_of_fold {e : Expr} {run : TypeScopes} {values : ValueScopes}
    {v : Literal} (clean : Unreported e.preorder) (types : run.TypesOf values)
    (h : e.fold values = .ok v) :
    Unreported (e.check run).1.preorder ∧ (e.check run).2 = some v.type := by
  induction e generalizing v with
  | literal value m =>
    cases h
    exact ⟨clean, rfl⟩
  | reference name m =>
    unfold fold at h
    split at h
    · next value hlookup =>
      cases h
      have bound := types name
      rw [hlookup] at bound
      simp only [check, bound]
      exact ⟨clean, rfl⟩
    · cases h
  | operation op lhs rhs m ihl ihr =>
    simp only [preorder, unreported_cons, unreported_append] at clean
    unfold fold at h
    split at h
    · cases h
    · next l hl =>
      split at h
      · cases h
      · next r hr =>
        have type := Operator.typeOf_of_apply h
        have fit := Operator.typeOf_eq_ok type
        have left := ihl clean.2.1 hl
        have right := ihr clean.2.2 hr
        have result : op.check (lhs.check run).2 (rhs.check run).2 = (some v.type, none) := by
          rw [left.2, right.2, Operator.check, type]
        have hlhs := unfit?_of_fold hl fit.1
        have hrhs := unfit?_of_fold hr fit.2.1
        rw [unreported_check_operation, check_operation_snd hlhs hrhs, result]
        exact ⟨⟨clean.1, hlhs, hrhs, left.1, right.1, rfl⟩, rfl⟩

/-- A condition with a truth value is accepted in the scopes that it has the value in. -/
theorem Expr.unreported_checkCondition_of_fold {c : Expr} {run : TypeScopes} {values : ValueScopes}
    {taken : Bool} (clean : Unreported c.preorder) (types : run.TypesOf values)
    (h : c.foldCondition values = .ok taken) : Unreported (c.checkCondition run.push).preorder := by
  unfold foldCondition at h
  split at h
  · cases h
  · next b hb =>
    have bound : run.push.TypesOf values := types
    have checked := unreported_check_of_fold clean bound hb
    rw [unreported_checkCondition, checked.2]
    refine ⟨checked.1, ?_⟩
    intro t ht
    cases ht
    rfl
  · cases h

/-- A value that makes a declaration well typed is fit for its property. -/
theorem Declaration.problem?_of_wellTyped {d : Declaration} {value : Literal}
    (h : (d.withValue value).WellTyped) :
    Property.problem? d.property (some value.type) = none := by
  rcases h with ⟨p, hp, other, m, hvalue, ht⟩
  cases hvalue
  have found : Property.find? d.property = some p := hp
  simp only [Property.problem?, found, ht, if_true]

private theorem bind_eq_ok {α β : Type} {x : Except FoldError α} {f : α → Except FoldError β}
    {b : β} (h : x >>= f = .ok b) : ∃ a, x = .ok a ∧ f a = .ok b := by
  cases x with
  | error e => cases h
  | ok a => exact ⟨a, rfl, h⟩

private theorem Block.wellTyped_append {a b : Block} :
    (a ++ b).WellTyped ↔ a.WellTyped ∧ b.WellTyped := by
  simp only [WellTyped, preorder_append, List.mem_append, or_imp, forall_and]

/-- What a run takes of a block is accepted, if the run comes to an end with well typed
declarations. -/
theorem Block.unreported_check_taken {b flat : Block} {run : TypeScopes} {values : ValueScopes}
    (clean : Unreported b.preorder) (types : run.TypesOf values)
    (h : (b.flatten values).1 = .ok flat) (wellTyped : flat.WellTyped) :
    Unreported ((b.taken values).check run).1.preorder := by
  induction b generalizing flat run values with
  | empty => exact unreported_nil
  | declaration d rest ih =>
    rw [flatten_declaration] at h
    rcases bind_eq_ok h with ⟨value, hvalue, h⟩
    rcases bind_eq_ok h with ⟨items, hitems, ⟨⟩⟩
    simp only [preorder, unreported_cons, unreported_append] at clean
    have checked := Expr.unreported_check_of_fold clean.2.1 types hvalue
    have fit : (d.withValue value).WellTyped := wellTyped _ List.mem_cons_self
    rw [taken, unreported_check_declaration, Declaration.unreported_check, checked.2]
    refine ⟨⟨clean.1, checked.1, Declaration.problem?_of_wellTyped fit⟩, ?_⟩
    apply ih clean.2.2 types hitems
    intro other hother
    exact wellTyped other (List.mem_cons_of_mem _ (List.mem_append_right _ hother))
  | assignment a rest ih =>
    rw [flatten_assignment] at h
    rcases bind_eq_ok h with ⟨value, hvalue, h⟩
    simp only [preorder, unreported_cons, unreported_append] at clean
    have checked := Expr.unreported_check_of_fold clean.2.1 types hvalue
    simp only [taken, hvalue]
    rw [unreported_check_assignment, checked.2]
    exact ⟨clean.1, checked.1, ih clean.2.2 (types.declare a.name value) h wellTyped⟩
  | ifThen c body m rest ihBody ih =>
    rw [flatten_ifThen] at h
    rcases bind_eq_ok h with ⟨live, hc, h⟩
    rcases bind_eq_ok h with ⟨branch, hbranch, h⟩
    rcases bind_eq_ok h with ⟨items, hitems, ⟨⟩⟩
    have parts := wellTyped_append.mp wellTyped
    simp only [preorder, unreported_cons, unreported_append] at clean
    have condition := Expr.unreported_checkCondition_of_fold clean.2.1.1 types hc
    rw [taken, unreported_check_ifThen, Expr.foldsTo_of_ok hc]
    refine ⟨clean.1, condition, ?_, ih clean.2.2 types hitems parts.2⟩
    cases live with
    | true => exact ihBody clean.2.1.2 types.push hbranch parts.1
    | false => exact unreported_nil
  | ifElse c body m other om rest ihBody ihOther ih =>
    rw [flatten_ifElse] at h
    rcases bind_eq_ok h with ⟨live, hc, h⟩
    rcases bind_eq_ok h with ⟨branch, hbranch, h⟩
    rcases bind_eq_ok h with ⟨items, hitems, ⟨⟩⟩
    have parts := wellTyped_append.mp wellTyped
    simp only [preorder, unreported_cons, unreported_append] at clean
    rcases clean with ⟨hm, ⟨⟨hcondition, hbody⟩, hom, hother⟩, hrest⟩
    have condition := Expr.unreported_checkCondition_of_fold hcondition types hc
    rw [taken, unreported_check_ifElse, Expr.foldsTo_of_ok hc, Expr.foldsTo_of_ok hc]
    cases live with
    | true =>
      refine ⟨hm, condition, ?_, hom, unreported_nil, ih hrest types hitems parts.2⟩
      exact ihBody hbody types.push hbranch parts.1
    | false =>
      refine ⟨hm, condition, unreported_nil, hom, ?_, ih hrest types hitems parts.2⟩
      -- The first branch is empty now, so the second one is typed in a frame of the same scopes.
      exact ihOther hother types.push.push hbranch parts.1

private theorem Sheet.unreported_check_takenMembers {members flat : List Member} {run : TypeScopes}
    {values : ValueScopes} (clean : Unreported (members.flatMap Member.preorder))
    (types : run.TypesOf values) (h : (flattenMembers members values).1 = .ok flat)
    (wellTyped : ∀ d, Node.declaration d ∈ flat.flatMap Member.preorder → d.WellTyped) :
    Unreported ((checkMembers (takenMembers members values) run).1.flatMap Member.preorder) := by
  induction members generalizing flat run values with
  | nil => exact unreported_nil
  | cons m members ih =>
    rw [List.flatMap_cons, unreported_append] at clean
    cases m with
    | rule r =>
      rw [flattenMembers_rule] at h
      rcases bind_eq_ok h with ⟨body, hbody, h⟩
      rcases bind_eq_ok h with ⟨others, hothers, ⟨⟩⟩
      rw [List.flatMap_cons] at wellTyped
      simp only [Member.preorder, unreported_cons, unreported_append] at clean
      rw [takenMembers, unreported_checkMembers_rule]
      refine ⟨clean.1.1, ?_, ?_⟩
      · apply Block.unreported_check_taken clean.1.2.2 types.push hbody
        intro d hd
        apply wellTyped d
        simp [Member.preorder, hd]
      · apply ih clean.2 types hothers
        intro d hd
        exact wellTyped d (List.mem_append_right _ hd)
    | assignment a =>
      rw [flattenMembers_assignment] at h
      rcases bind_eq_ok h with ⟨value, hvalue, h⟩
      simp only [Member.preorder, unreported_cons] at clean
      have checked := Expr.unreported_check_of_fold clean.1.2 types hvalue
      simp only [takenMembers, hvalue]
      rw [unreported_checkMembers_assignment, checked.2]
      exact ⟨clean.1.1, checked.1, ih clean.2 (types.declare a.name value) h wellTyped⟩

/-- What a run takes of a sheet is accepted, if the run comes to an end with well typed
declarations. -/
theorem Sheet.diagnostics_check_taken {s flat : Sheet} {run : TypeScopes} {values : ValueScopes}
    (clean : s.diagnostics = []) (types : run.TypesOf values)
    (h : (s.flatten values).1 = .ok flat) (wellTyped : flat.WellTyped) :
    ((s.taken values).check run).1.diagnostics = [] := by
  have flatten_eq : (s.flatten values).1 =
      (flattenMembers s.members values.push).1.map fun members ↦ ⟨members, s.problem⟩ := rfl
  rw [flatten_eq] at h
  cases hmembers : (flattenMembers s.members values.push).1 with
  | error e =>
    rw [hmembers] at h
    cases h
  | ok members =>
    rw [hmembers] at h
    cases h
    rw [diagnostics_eq_nil_iff, preorder, unreported_cons] at clean
    rw [diagnostics_check_eq_nil_iff]
    refine ⟨clean.1, unreported_check_takenMembers clean.2 types.push hmembers ?_⟩
    intro d hd
    apply wellTyped d
    rw [nodes_eq_preorder, preorder]
    exact List.mem_cons_of_mem _ hd

/-- A run of a sheet without problems goes as it should exactly when it stops where it may, or what
it takes of the sheet is accepted. -/
theorem Sheet.outcome_flatten_iff {s : Sheet} {run : TypeScopes} {values : ValueScopes}
    (clean : s.diagnostics = []) (types : run.TypesOf values) :
    Outcome WellTyped (FoldError.Permitted True) (s.flatten values).1 ↔
      (∃ e, (s.flatten values).1 = .error e ∧ e.Permitted True) ∨
        ((s.taken values).check run).1.diagnostics = [] := by
  constructor
  · intro outcome
    cases h : (s.flatten values).1 with
    | error e => exact .inl ⟨e, rfl, outcome.of_error h⟩
    | ok flat => exact .inr (diagnostics_check_taken clean types h (outcome.of_ok h))
  · rintro (⟨e, h, permitted⟩ | accepted)
    · rw [h]
      exact permitted
    · rw [← flatten_taken]
      exact outcome_flatten accepted
        (readsAlike_of_branchesApart True (s.branchesApart_taken values)) types

end FlatSheet
