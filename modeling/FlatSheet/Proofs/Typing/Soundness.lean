import FlatSheet.Proofs.Folding.Outcome
import FlatSheet.Proofs.Typing.Accepted
import FlatSheet.Proofs.Typing.Reads

/-!
# Soundness of typing

The scopes of the run have, at each point, the types of the values that are bound. As long as names
are read alike, what typing accepts folds to values of the types that it found, or overflows; where
names may be bound in typing alone, a variable may also be without a value. Nothing else goes wrong,
and what is left are declarations of known properties with values that they take.
-/

namespace FlatSheet

/-- The scopes bind the names that values are bound to, and bind them to the types of those
values. -/
def Scopes.TypesOf (run : TypeScopes) (values : ValueScopes) : Prop :=
  ∀ name, run.lookup name = (values.lookup name).map fun v ↦ some v.type

namespace Scopes.TypesOf

variable {run : TypeScopes} {values : ValueScopes}

theorem push (h : run.TypesOf values) : run.push.TypesOf values.push := h

theorem declare (h : run.TypesOf values) (name : String) (value : Literal) :
    (run.declare name (some value.type)).TypesOf (values.declare name value) := by
  intro other
  rw [lookup_declare, lookup_declare]
  split
  · rfl
  · exact h other

/-- Globals are bound to their types. -/
theorem ofGlobals (globals : List (String × Literal)) :
    (TypeScopes.ofGlobals globals).TypesOf (Scopes.ofGlobals globals) := by
  suffices h : ∀ (run : TypeScopes) (values : ValueScopes), run.TypesOf values →
      Scopes.TypesOf
        ((globals.map fun g ↦ (g.1, some g.2.type)).foldl (fun s g ↦ s.declare g.1 g.2) run)
        (globals.foldl (fun s g ↦ s.declare g.1 g.2) values) from
    h _ _ fun _ ↦ rfl
  induction globals with
  | nil => exact fun _ _ h ↦ h
  | cons g globals ih => exact fun run values h ↦ ih _ _ (h.declare g.1 g.2)

end Scopes.TypesOf

/-- A known property with a literal value of a type that it takes. -/
def Declaration.WellTyped (d : Declaration) : Prop :=
  ∃ p, Property.find? d.property = some p ∧
    ∃ value m, d.value = .literal value m ∧ value.type ∈ p.allowed

/-- Every declaration of a sheet is well typed. -/
def Sheet.WellTyped (s : Sheet) : Prop := ∀ d, Node.declaration d ∈ s.nodes → d.WellTyped

/-- The errors that accepted sheets may have: overflow and, where there is a gap, a variable without
a value. -/
def FoldError.Permitted (gap : Prop) (e : FoldError) : Prop := e.IsOverflow ∨ gap ∧ e.IsUnbound

/-! ### Expressions -/

/-- An accepted expression folds to a value of the type that typing finds. -/
theorem Expr.outcome_fold {gap : Prop} {e : Expr} {typed run : TypeScopes} {values : ValueScopes}
    (accepted : Unreported (e.check typed).1.preorder) (alike : e.ReadsAlike gap typed run)
    (types : run.TypesOf values) :
    Outcome (fun v ↦ (e.check typed).2 = some v.type) (FoldError.Permitted gap)
      (e.fold values) := by
  induction e with
  | literal value m => exact rfl
  | reference name m =>
    obtain ⟨-, t, ht⟩ := unreported_check_reference.mp accepted
    have found := alike name (List.mem_singleton.mpr rfl)
    rw [ht, types name] at found
    unfold Expr.fold
    cases hv : values.lookup name with
    | some v =>
      obtain heq | ⟨-, hnone⟩ := found
      · rw [hv, Option.map_some, Option.some_inj] at heq
        simp only [Expr.check, ht]
        exact heq
      · rw [hv] at hnone
        cases hnone
    | none =>
      obtain heq | ⟨hgap, -⟩ := found
      · rw [hv] at heq
        cases heq
      · exact .inr ⟨hgap, name, rfl⟩
  | operation op lhs rhs m ihl ihr =>
    obtain ⟨-, hl, hr, hlhs, hrhs, hop⟩ := unreported_check_operation.mp accepted
    obtain ⟨alikeLeft, alikeRight⟩ := List.forall_mem_append.mp alike
    have step : (operation op lhs rhs m).fold values = (do
        let l ← lhs.fold values
        let r ← rhs.fold values
        op.apply l r) := by
      rw [Expr.fold]
      cases lhs.fold values with
      | error e => rfl
      | ok l => cases rhs.fold values <;> rfl
    rw [step, check_operation_snd hl hr]
    refine Outcome.bind (ihl hlhs alikeLeft) fun l _ typeLeft ↦ ?_
    refine Outcome.bind (ihr hrhs alikeRight) fun r _ typeRight ↦ ?_
    rw [typeLeft, typeRight] at hop ⊢
    exact (Operator.outcome_apply_of_check hop).mono (fun _ hv ↦ hv) fun _ he ↦ .inl he

/-- An accepted condition folds to a truth value. -/
theorem Expr.outcome_foldCondition {gap : Prop} {e : Expr} {typed run : TypeScopes}
    {values : ValueScopes} (accepted : Unreported (e.checkCondition typed.push).preorder)
    (alike : e.ReadsAlike gap typed run) (types : run.TypesOf values) :
    Outcome (fun _ ↦ True) (FoldError.Permitted gap) (e.foldCondition values) := by
  obtain ⟨he, hbool⟩ := unreported_checkCondition.mp accepted
  have outcome := outcome_fold he alike types
  unfold Expr.foldCondition
  cases hv : e.fold values with
  | error err =>
    rw [hv] at outcome
    exact outcome
  | ok v =>
    rw [hv] at outcome
    have isBool := hbool v.type outcome
    cases v with
    | bool b => trivial
    | _ => cases isBool

/-! ### Blocks -/

/-- Every declaration in a block, at any depth, is well typed. -/
def Block.WellTyped (b : Block) : Prop := ∀ d, Node.declaration d ∈ b.preorder → d.WellTyped

@[simp] theorem Block.preorder_append (a b : Block) :
    (a ++ b).preorder = a.preorder ++ b.preorder := by
  induction a with
  | empty => rfl
  | declaration d rest ih => simp [preorder, ih]
  | assignment a rest ih => simp [preorder, ih]
  | ifThen c body m rest _ ih => simp [preorder, ih]
  | ifElse c body m other om rest _ _ ih => simp [preorder, ih]

theorem Block.WellTyped.append {a b : Block} (ha : a.WellTyped) (hb : b.WellTyped) :
    (a ++ b).WellTyped := by
  intro d hd
  rw [preorder_append] at hd
  exact (List.mem_append.mp hd).elim (ha d) (hb d)

/-- An accepted declaration is well typed with the value that it folds to. -/
theorem Declaration.wellTyped_withValue {d : Declaration} {typed : TypeScopes} {value : Literal}
    (accepted : Property.problem? d.property (d.value.check typed).2 = none)
    (type : (d.value.check typed).2 = some value.type) : (d.withValue value).WellTyped := by
  rw [type] at accepted
  obtain ⟨p, hp, ht⟩ := Property.problem?_eq_none accepted
  exact ⟨p, hp, value, _, rfl, ht⟩

theorem Block.WellTyped.declaration {d : Declaration} {value : Literal} {rest : Block}
    (hd : (d.withValue value).WellTyped) (hrest : rest.WellTyped) :
    (Block.declaration (d.withValue value) rest).WellTyped := by
  intro other h
  simp only [Block.preorder, Declaration.withValue, Expr.preorder, List.mem_cons, List.mem_append,
    Node.declaration.injEq, reduceCtorEq, List.not_mem_nil, false_or, or_false] at h
  obtain rfl | h := h
  · exact hd
  · exact hrest other h

/-- An accepted block flattens to well typed declarations. -/
theorem Block.outcome_flatten {gap : Prop} {b : Block} {typed run : TypeScopes}
    {values : ValueScopes} (accepted : Unreported (b.check typed).1.preorder)
    (alike : b.ReadsAlike gap typed run) (types : run.TypesOf values) :
    Outcome Block.WellTyped (FoldError.Permitted gap) (b.flatten values).1 := by
  induction b generalizing typed run values with
  | empty =>
    intro d hd
    cases hd
  | declaration d rest ih =>
    obtain ⟨hd, hrest⟩ := unreported_check_declaration.mp accepted
    obtain ⟨-, hvalue, hproperty⟩ := Declaration.unreported_check.mp hd
    rw [flatten_declaration]
    refine Outcome.bind (Expr.outcome_fold hvalue alike.1 types) fun value _ type ↦ ?_
    refine Outcome.bind (ih hrest alike.2 types) fun items _ wellTyped ↦ ?_
    exact WellTyped.declaration (Declaration.wellTyped_withValue hproperty type) wellTyped
  | assignment a rest ih =>
    obtain ⟨-, ha, hrest⟩ := unreported_check_assignment.mp accepted
    rw [flatten_assignment]
    refine Outcome.bind (Expr.outcome_fold ha alike.1 types) fun value _ type ↦ ?_
    obtain ⟨-, alikeRest⟩ := alike
    rw [type] at hrest alikeRest
    exact ih hrest alikeRest (types.declare a.name value)
  | ifThen c body m rest ihBody ih =>
    obtain ⟨-, hc, hbody, hrest⟩ := unreported_check_ifThen.mp accepted
    obtain ⟨alikeCondition, alikeBody, alikeRest⟩ := alike
    rw [flatten_ifThen]
    refine Outcome.bind (Expr.outcome_foldCondition hc alikeCondition types) fun taken _ _ ↦ ?_
    have live : Outcome Block.WellTyped (FoldError.Permitted gap)
        (if taken then (body.flatten values.push).1 else .ok empty) := by
      cases taken with
      | true => exact ihBody hbody alikeBody types.push
      | false =>
        intro d hd
        cases hd
    refine Outcome.bind live fun branch _ wellTypedBranch ↦ ?_
    exact Outcome.bind (ih hrest alikeRest types) fun items _ wellTyped ↦
      wellTypedBranch.append wellTyped
  | ifElse c body m other om rest ihBody ihOther ih =>
    obtain ⟨-, hc, hbody, -, hother, hrest⟩ := unreported_check_ifElse.mp accepted
    obtain ⟨alikeCondition, alikeBody, alikeOther, alikeRest⟩ := alike
    rw [flatten_ifElse]
    refine Outcome.bind (Expr.outcome_foldCondition hc alikeCondition types) fun taken _ _ ↦ ?_
    have live : Outcome Block.WellTyped (FoldError.Permitted gap)
        ((if taken then body else other).flatten values.push).1 := by
      cases taken with
      | true => exact ihBody hbody alikeBody types.push
      | false => exact ihOther hother alikeOther types.push
    refine Outcome.bind live fun branch _ wellTypedBranch ↦ ?_
    exact Outcome.bind (ih hrest alikeRest types) fun items _ wellTyped ↦
      wellTypedBranch.append wellTyped

/-! ### Sheets -/

private theorem selector_preorder (selectors : List Selector) (d : Declaration) :
    Node.declaration d ∉ selectors.map Node.selector := by
  intro h
  obtain ⟨s, -, hs⟩ := List.mem_map.mp h
  cases hs

/-- Accepted members flatten to rules of well typed declarations. -/
theorem Sheet.outcome_flattenMembers {gap : Prop} {members : List Member} {typed : TypeScopes}
    {values : ValueScopes}
    (accepted : Unreported ((checkMembers members typed).1.flatMap Member.preorder))
    (alike : MembersReadAlike gap members typed) (types : typed.TypesOf values) :
    Outcome (fun flat ↦ ∀ d, Node.declaration d ∈ flat.flatMap Member.preorder → d.WellTyped)
      (FoldError.Permitted gap) (flattenMembers members values).1 := by
  induction members generalizing typed values with
  | nil =>
    intro d hd
    cases hd
  | cons m members ih =>
    cases m with
    | rule r =>
      obtain ⟨-, hbody, hrest⟩ := unreported_checkMembers_rule.mp accepted
      rw [flattenMembers_rule]
      refine Outcome.bind (Block.outcome_flatten hbody alike.1 types.push) fun body _ wellTyped ↦ ?_
      refine Outcome.bind (ih hrest alike.2 types) fun others _ wellTypedOthers ↦ ?_
      intro d hd
      simp only [List.flatMap_cons, Member.preorder, List.cons_append, List.mem_cons, reduceCtorEq,
        List.mem_append, selector_preorder, false_or] at hd
      exact hd.elim (wellTyped d) (wellTypedOthers d)
    | assignment a =>
      obtain ⟨-, ha, hrest⟩ := unreported_checkMembers_assignment.mp accepted
      rw [flattenMembers_assignment]
      have alikeValue : a.value.ReadsAlike gap typed typed := fun _ _ ↦ .inl rfl
      refine Outcome.bind (Expr.outcome_fold ha alikeValue types) fun value _ type ↦ ?_
      have alikeRest : MembersReadAlike gap members
        (typed.declare a.name (a.value.check typed).2) := alike
      rw [type] at hrest alikeRest
      exact ih hrest alikeRest (types.declare a.name value)

/-- A sheet with which typing finds nothing wrong flattens to well typed declarations, or has a
permitted error. -/
theorem Sheet.outcome_flatten {gap : Prop} {s : Sheet} {typed : TypeScopes} {values : ValueScopes}
    (accepted : (s.check typed).1.diagnostics = []) (alike : s.ReadsAlike gap typed)
    (types : typed.TypesOf values) :
    Outcome Sheet.WellTyped (FoldError.Permitted gap) (s.flatten values).1 := by
  have members :=
    outcome_flattenMembers (diagnostics_check_eq_nil_iff.mp accepted).2 alike types.push
  have flat : (s.flatten values).1 =
      (flattenMembers s.members values.push).1.map fun members ↦ ⟨members, s.problem⟩ := rfl
  rw [flat]
  cases h : (flattenMembers s.members values.push).1 with
  | error e =>
    rw [h] at members
    exact members
  | ok flatMembers =>
    rw [h] at members
    intro d hd
    rw [nodes_eq_preorder, preorder] at hd
    cases hd with
    | tail _ h => exact members d h

/-- Typing is sound. A sheet with which it finds nothing wrong, and in which no second branch reads
what its first branch assigns, is left as it was by typing, and it flattens to well typed
declarations or overflows. -/
theorem Sheet.flatten_sound (s : Sheet) (globals : List (String × Literal))
    (accepted : (s.check (.ofGlobals globals)).1.diagnostics = []) (apart : s.BranchesApart) :
    (s.check (.ofGlobals globals)).1 = s ∧
      Outcome Sheet.WellTyped FoldError.IsOverflow (s.flatten (Scopes.ofGlobals globals)).1 := by
  have alike : s.ReadsAlike False (.ofGlobals globals) := readsAlike_of_branchesApart False apart
  have outcome := outcome_flatten accepted alike (.ofGlobals globals)
  refine ⟨check_fst_of_diagnostics accepted, outcome.mono (fun _ h ↦ h) ?_⟩
  intro e he
  exact he.resolve_right fun h ↦ h.1

/-- A second branch that reads a global and shadows it, after a first branch that rebinds another
name. -/
theorem Sheet.flatten_sound_of_shadowing :
    let m := Mark.clean .unknown
    let name (n : String) : Expr := .reference n m
    let s := Sheet.ofMembers
      [.assignment ⟨"W", .operation .multiply (.literal (.scalar ⟨2, by decide, by decide⟩) m)
          (name "B") m, m⟩,
        .rule ⟨[.tag "p"],
          .ifElse (.literal (.bool false) m)
            (.assignment ⟨"W", .literal (.color "#000000") m, m⟩
              (.declaration ⟨"color", name "W", m⟩ .empty)) m
            (.assignment ⟨"B", .operation .add (name "B") (name "B") m, m⟩
              (.declaration ⟨"height", name "B", m⟩ .empty)) m
            (.declaration ⟨"width", name "W", m⟩ .empty), m⟩]
    let globals := [("B", Literal.pixels ⟨4, by decide, by decide⟩)]
    (s.check (.ofGlobals globals)).1.diagnostics = [] ∧ s.BranchesApart ∧
      (s.check (.ofGlobals globals)).1 = s ∧
        Outcome Sheet.WellTyped FoldError.IsOverflow (s.flatten (Scopes.ofGlobals globals)).1 := by
  intro m name s globals
  have accepted : (s.check (.ofGlobals globals)).1.diagnostics = [] := by
    rw [diagnostics_check_eq_nil_iff, Unreported]
    decide
  have apart : s.BranchesApart := by decide
  exact ⟨accepted, apart, flatten_sound s globals accepted apart⟩

end FlatSheet
