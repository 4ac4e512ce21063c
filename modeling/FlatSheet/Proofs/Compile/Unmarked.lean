import FlatSheet.Proofs.Folding.Flat
import FlatSheet.Proofs.Typing.Exact

/-!
# Marks decide nothing

What is found wrong with a sheet, and what it is flattened to, does not depend on where its parts
stand. Sheets that are alike but for their marks have the same problems in the same order, and are
flattened to the same output or with the same error.
-/

namespace FlatSheet

/-! ### Typing without marks -/

/-- An operand is unfit by what it is. -/
theorem Expr.unfit_bare {e : Expr} {p : Problem} : e.bare.Unfit p ↔ e.Unfit p := by
  constructor
  · intro h
    cases e with
    | literal value m => cases h <;> constructor
    | _ => cases h
  · intro h
    cases h <;> constructor

@[simp] theorem Expr.size_bare (e : Expr) : e.bare.size = e.size := by
  induction e with
  | operation op lhs rhs m ihl ihr => rw [bare, size, size, ihl, ihr]
  | _ => rfl

/-- The rules give an expression without its marks the same type and the same verdicts. -/
theorem Expr.Judged.bare {env : TypeEnvironment} {e : Expr} {t : Option Ty} {vs : Verdicts}
    (h : e.Judged env t vs) : e.bare.Judged env t vs := by
  induction h with
  | literal value m => exact .literal value _
  | bound m hname => exact .bound _ hname
  | unbound m hname => exact .unbound _ hname
  | @unfitLeft lhs p op rhs m unfit =>
    rw [← rhs.size_bare]
    exact .unfitLeft op rhs.bare _ (unfit_bare.mpr unfit)
  | @unfitRight lhs rhs p op m fit unfit =>
    rw [← lhs.size_bare]
    exact .unfitRight op _ (fun q hq ↦ fit q (unfit_bare.mp hq)) (unfit_bare.mpr unfit)
  | operation m fitl fitr _ _ hop ihl ihr =>
    exact .operation _ (fun q hq ↦ fitl q (unfit_bare.mp hq))
      (fun q hq ↦ fitr q (unfit_bare.mp hq)) ihl ihr hop

/-- The rules give a condition without its marks the same verdicts. -/
theorem Expr.JudgedCondition.bare {env : TypeEnvironment} {c : Expr} {vs : Verdicts}
    (h : c.JudgedCondition env vs) : c.bare.JudgedCondition env vs := by
  cases h with
  | truth h => exact .truth h.bare
  | unknown h => exact .unknown h.bare
  | other h ne => exact .other h.bare ne

/-- The rules give a block without its marks the same verdicts. -/
theorem Block.Judged.bare {env after : TypeEnvironment} {b : Block} {vs : Verdicts}
    (h : b.Judged env after vs) : b.bare.Judged env after vs := by
  induction h with
  | empty env => exact .empty env
  | declaration value property _ ih => exact .declaration value.bare property ih
  | assignment value _ ih => exact .assignment value.bare ih
  | ifThen m condition _ _ ihBody ih => exact .ifThen _ condition.bare ihBody ih
  | ifElse m om condition _ _ _ ihBody ihOther ih =>
    exact .ifElse _ _ condition.bare ihBody ihOther ih

/-- The rules give members without their marks the same verdicts. -/
theorem Member.Judged.bare {env : TypeEnvironment} {members : List Member} {vs : Verdicts}
    (h : Member.Judged env members vs) : Member.Judged env (members.map Member.bare) vs := by
  induction h with
  | nil env => exact .nil env
  | rule body _ ih => exact .rule body.bare ih
  | assignment value _ ih => exact .assignment value.bare ih

/-- The rules give a sheet without its marks the same verdicts. -/
theorem Sheet.Judged.bare {env : TypeEnvironment} {s : Sheet} {vs : Verdicts}
    (h : s.Judged env vs) : s.bare.Judged env vs := by
  cases h with
  | sheet members => exact .sheet members.bare

/-- The problems that are attached to some nodes are those among their verdicts. -/
theorem Sheet.map_problem_diagnostics (s : Sheet) :
    s.diagnostics.map Diagnostic.problem = (verdictsOf s.nodes).reduceOption := by
  show _ = (verdictsOf s.nodes).filterMap id
  rw [diagnostics, verdictsOf, List.filterMap_map, List.map_filterMap]
  congr 1
  funext n
  simp [Node.diagnostic?, Function.comp_def]

/-- Sheets without problems that are alike but for their marks are found to have the same problems, in
the same order. -/
theorem Sheet.problems_check_congr {s t : Sheet} (hs : s.diagnostics = []) (ht : t.diagnostics = [])
    (same : s.bare = t.bare) (scopes : TypeScopes) :
    (s.check scopes).1.diagnostics.map Diagnostic.problem =
      (t.check scopes).1.diagnostics.map Diagnostic.problem := by
  have left := (judged_check hs scopes).bare
  have right := (judged_check ht scopes).bare
  rw [← same] at right
  rw [map_problem_diagnostics, map_problem_diagnostics, left.unique right]

/-! ### Flattening without marks -/

@[simp] theorem Expr.fold_bare (e : Expr) (scopes : ValueScopes) :
    e.bare.fold scopes = e.fold scopes := by
  induction e with
  | operation op lhs rhs m ihl ihr => rw [bare, fold, fold, ihl, ihr]
  | _ => rfl

@[simp] theorem Expr.foldCondition_bare (c : Expr) (scopes : ValueScopes) :
    c.bare.foldCondition scopes = c.foldCondition scopes := by
  rw [foldCondition, foldCondition, fold_bare]

@[simp] theorem Block.bare_append (a b : Block) : (a ++ b).bare = a.bare ++ b.bare := by
  induction a <;> simp_all [bare]

private theorem Block.map_bare_declaration (d : Declaration) (items : Except FoldError Block) :
    Except.map bare (do
        let items ← items
        .ok (declaration d items)) = (do
      let items ← items.map bare
      .ok (declaration d.bare items)) := by
  cases items <;> rfl

private theorem Block.map_bare_append (branch items : Except FoldError Block) :
    Except.map bare (do
        let branch ← branch
        let items ← items
        .ok (branch ++ items)) = (do
      let branch ← branch.map bare
      let items ← items.map bare
      .ok (branch ++ items)) := by
  cases branch with
  | error e => rfl
  | ok branch =>
    cases items with
    | error e => rfl
    | ok items => exact congrArg Except.ok (bare_append branch items)

/-- A block without its marks is flattened to the same, up to marks, or with the same error. -/
theorem Block.flatten_bare (b : Block) (scopes : ValueScopes) :
    (b.bare.flatten scopes).1.map bare = (b.flatten scopes).1.map bare := by
  induction b generalizing scopes with
  | empty => rfl
  | declaration d rest ih =>
    rw [bare, flatten_declaration, flatten_declaration, Declaration.bare, Expr.fold_bare]
    cases d.value.fold scopes with
    | error e => rfl
    | ok value =>
      have first := map_bare_declaration (d.bare.withValue value) (rest.bare.flatten scopes).1
      have second := map_bare_declaration (d.withValue value) (rest.flatten scopes).1
      rw [ih scopes] at first
      exact first.trans second.symm
  | assignment a rest ih =>
    rw [bare, flatten_assignment, flatten_assignment, Assignment.bare, Expr.fold_bare]
    cases a.value.fold scopes with
    | error e => rfl
    | ok value => exact ih _
  | ifThen c body m rest ihBody ih =>
    rw [bare, flatten_ifThen, flatten_ifThen, Expr.foldCondition_bare]
    cases c.foldCondition scopes with
    | error e => rfl
    | ok taken =>
      have branch : (if taken then (body.bare.flatten scopes.push).1 else .ok empty).map bare =
          (if taken then (body.flatten scopes.push).1 else .ok empty).map bare := by
        cases taken with
        | false => rfl
        | true => exact ihBody scopes.push
      have first := map_bare_append (if taken then (body.bare.flatten scopes.push).1 else .ok empty)
        (rest.bare.flatten scopes).1
      rw [branch, ih scopes, ← map_bare_append] at first
      exact first
  | ifElse c body m other om rest ihBody ihOther ih =>
    rw [bare, flatten_ifElse, flatten_ifElse, Expr.foldCondition_bare]
    cases c.foldCondition scopes with
    | error e => rfl
    | ok taken =>
      have branch : ((if taken then body.bare else other.bare).flatten scopes.push).1.map bare =
          ((if taken then body else other).flatten scopes.push).1.map bare := by
        cases taken with
        | false => exact ihOther scopes.push
        | true => exact ihBody scopes.push
      have first := map_bare_append ((if taken then body.bare else other.bare).flatten scopes.push).1
        (rest.bare.flatten scopes).1
      rw [branch, ih scopes, ← map_bare_append] at first
      exact first

private theorem Sheet.map_bare_rule (r : Rule) (body : Except FoldError Block)
    (others : Except FoldError (List Member)) :
    Except.map (List.map Member.bare) (do
        let body ← body
        let others ← others
        .ok (.rule ⟨r.selectors, body, .clean r.mark.position⟩ :: others)) = (do
      let body ← body.map Block.bare
      let others ← others.map (List.map Member.bare)
      .ok (.rule ⟨r.selectors, body, .clean .unknown⟩ :: others)) := by
  cases body with
  | error e => rfl
  | ok body => cases others <;> rfl

/-- Members without their marks are flattened to the same, up to marks, or with the same error. -/
theorem Sheet.flattenMembers_bare (members : List Member) (scopes : ValueScopes) :
    (flattenMembers (members.map Member.bare) scopes).1.map (List.map Member.bare) =
      (flattenMembers members scopes).1.map (List.map Member.bare) := by
  induction members generalizing scopes with
  | nil => rfl
  | cons m members ih =>
    cases m with
    | rule r =>
      rw [List.map_cons, Member.bare, flattenMembers_rule, flattenMembers_rule, map_bare_rule r,
        map_bare_rule, Block.flatten_bare, ih]
    | assignment a =>
      rw [List.map_cons, Member.bare, flattenMembers_assignment, flattenMembers_assignment,
        Assignment.bare, Expr.fold_bare]
      cases a.value.fold scopes with
      | error e => rfl
      | ok value => exact ih _

/-- A sheet without its marks is flattened to the same output, or with the same error. -/
theorem Sheet.css_flatten_bare (s : Sheet) (scopes : ValueScopes) :
    (s.bare.flatten scopes).1.map css = (s.flatten scopes).1.map css := by
  have written (t : Sheet) : (t.flatten scopes).1.map css =
      ((flattenMembers t.members scopes.push).1.map (List.map Member.bare)).map
        fun members ↦ (ofMembers members).css := by
    rw [flatten, Scopes.enclosed_fst]
    cases (flattenMembers t.members scopes.push).1 with
    | error e => rfl
    | ok members => exact congrArg Except.ok (css_bare ⟨members, t.problem⟩).symm
  have members := flattenMembers_bare s.members scopes.push
  rw [written, written, bare, ofMembers, members]

/-- Sheets that are alike but for their marks are flattened to the same output, or with the same
error. -/
theorem Sheet.css_flatten_congr {s t : Sheet} (same : s.bare = t.bare) (scopes : ValueScopes) :
    (s.flatten scopes).1.map css = (t.flatten scopes).1.map css := by
  rw [← css_flatten_bare s, same, css_flatten_bare]

end FlatSheet
