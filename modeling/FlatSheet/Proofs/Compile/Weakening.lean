import FlatSheet.Proofs.Compile.Unmarked
import FlatSheet.Proofs.Folding.Resolved

/-!
# More bindings in scope

What is found right with fewer bindings is found right with more, as long as those that are there stay
as they are: all that a sheet without problems refers to is bound already. So is all that is looked up
where a sheet is flattened without an error.
-/

namespace FlatSheet

namespace Environment

variable {V : Type} {env other : Environment V}

/-- What is bound in one environment is bound to the same in the other. -/
def Within (env other : Environment V) : Prop :=
  ∀ name value, env name = some value → other name = some value

/-- Every environment is within itself. -/
theorem Within.refl (env : Environment V) : env.Within env := fun _ _ h ↦ h

/-- The same binding on both sides changes nothing. -/
theorem Within.bind (h : env.Within other) (name : String) (value : V) :
    (env.bind name value).Within (other.bind name value) := by
  intro name' value' bound
  unfold Environment.bind at bound ⊢
  by_cases same : name' = name
  · rw [if_pos same] at bound ⊢
    exact bound
  · rw [if_neg same] at bound ⊢
    exact h name' value' bound

/-- A name that the smaller environment leaves free may be bound in the larger one. -/
theorem Within.bind_right (h : env.Within other) {name : String} (free : env name = none)
    (value : V) : env.Within (other.bind name value) := by
  intro name' value' bound
  unfold Environment.bind
  by_cases same : name' = name
  · rw [same, free] at bound
    cases bound
  · rw [if_neg same]
    exact h name' value' bound

end Environment

open Environment (Within)

/-! ### Typing -/

/-- Nothing is found wrong. -/
def Verdicts.IsClear (vs : Verdicts) : Prop := ∀ v ∈ vs, v = none

@[simp] theorem Verdicts.isClear_cons {v : Option Problem} {vs : Verdicts} :
    IsClear (v :: vs) ↔ v = none ∧ IsClear vs :=
  List.forall_mem_cons

@[simp] theorem Verdicts.isClear_append {vs vs' : Verdicts} :
    IsClear (vs ++ vs') ↔ IsClear vs ∧ IsClear vs' :=
  List.forall_mem_append

/-- Typing a sheet without problems finds none exactly where the rules find nothing wrong. -/
theorem Sheet.diagnostics_check_iff_isClear {s : Sheet} (clean : s.diagnostics = [])
    {scopes : TypeScopes} {vs : Verdicts} (h : s.Judged scopes.lookup vs) :
    (s.check scopes).1.diagnostics = [] ↔ Verdicts.IsClear vs := by
  rw [← List.map_eq_nil_iff, map_problem_diagnostics, (judged_check clean scopes).unique h]
  exact List.filterMap_eq_nil_iff

/-- An expression with nothing wrong keeps its type in a larger environment. -/
theorem Expr.Judged.weaken {env other : TypeEnvironment} {e : Expr} {t : Option Ty} {vs : Verdicts}
    (h : e.Judged env t vs) (clear : Verdicts.IsClear vs) (within : Within env other) :
    e.Judged other t vs := by
  induction h with
  | literal value m => exact .literal value m
  | bound m hname => exact .bound m (within _ _ hname)
  | unbound m hname => cases (Verdicts.isClear_cons.mp clear).1
  | unfitLeft op rhs m unfit =>
    simp only [Verdicts.isClear_cons] at clear
    cases clear.2.1
  | unfitRight op m fit unfit =>
    simp only [Verdicts.isClear_cons, Verdicts.isClear_append] at clear
    cases clear.2.2.1
  | operation m fitl fitr _ _ hop ihl ihr =>
    simp only [Verdicts.isClear_cons, Verdicts.isClear_append] at clear
    exact .operation m fitl fitr (ihl clear.2.1) (ihr clear.2.2) hop

/-- A condition with nothing wrong has nothing wrong in a larger environment. -/
theorem Expr.JudgedCondition.weaken {env other : TypeEnvironment} {c : Expr} {vs : Verdicts}
    (h : c.JudgedCondition env vs) (clear : Verdicts.IsClear vs) (within : Within env other) :
    c.JudgedCondition other vs := by
  cases h with
  | truth h => exact .truth (h.weaken clear within)
  | unknown h => exact .unknown (h.weaken clear within)
  | other h ne => cases (Verdicts.isClear_cons.mp clear).1

/-- A block with nothing wrong has nothing wrong in a larger environment, and leaves a larger one. -/
theorem Block.Judged.weaken {env after other : TypeEnvironment} {b : Block} {vs : Verdicts}
    (h : b.Judged env after vs) (clear : Verdicts.IsClear vs) (within : Within env other) :
    ∃ after', b.Judged other after' vs ∧ Within after after' := by
  induction h generalizing other with
  | empty env => exact ⟨other, .empty other, within⟩
  | declaration value property _ ih =>
    simp only [Verdicts.isClear_cons, Verdicts.isClear_append] at clear
    obtain ⟨after', rest, larger⟩ := ih clear.2.2 within
    exact ⟨after', .declaration (value.weaken clear.2.1 within) property rest, larger⟩
  | assignment value _ ih =>
    simp only [Verdicts.isClear_cons, Verdicts.isClear_append] at clear
    obtain ⟨after', rest, larger⟩ := ih clear.2.2 (within.bind _ _)
    exact ⟨after', .assignment (value.weaken clear.2.1 within) rest, larger⟩
  | ifThen m condition _ _ ihBody ih =>
    simp only [Verdicts.isClear_cons, Verdicts.isClear_append] at clear
    obtain ⟨-, ⟨clearCondition, clearBody⟩, clearRest⟩ := clear
    obtain ⟨inner', body, -⟩ := ihBody clearBody within
    obtain ⟨after', rest, larger⟩ := ih clearRest within
    exact ⟨after', .ifThen m (condition.weaken clearCondition within) body rest, larger⟩
  | ifElse m om condition _ _ _ ihBody ihOther ih =>
    simp only [Verdicts.isClear_cons, Verdicts.isClear_append] at clear
    obtain ⟨-, ⟨⟨clearCondition, clearBody⟩, -, clearOther⟩, clearRest⟩ := clear
    -- The second branch sees what the first one binds, in the larger environment too.
    obtain ⟨inner', body, innerLarger⟩ := ihBody clearBody within
    obtain ⟨last', second, -⟩ := ihOther clearOther innerLarger
    obtain ⟨after', rest, larger⟩ := ih clearRest within
    exact ⟨after', .ifElse m om (condition.weaken clearCondition within) body second rest, larger⟩

/-- Members with nothing wrong have nothing wrong in a larger environment. -/
theorem Member.Judged.weaken {env other : TypeEnvironment} {members : List Member} {vs : Verdicts}
    (h : Member.Judged env members vs) (clear : Verdicts.IsClear vs) (within : Within env other) :
    Member.Judged other members vs := by
  induction h generalizing other with
  | nil env => exact .nil other
  | rule body _ ih =>
    simp only [Verdicts.isClear_cons, Verdicts.isClear_append] at clear
    obtain ⟨after', body', -⟩ := body.weaken clear.2.1.2 within
    exact .rule body' (ih clear.2.2 within)
  | assignment value _ ih =>
    simp only [Verdicts.isClear_cons, Verdicts.isClear_append] at clear
    exact .assignment (value.weaken clear.2.1 within) (ih clear.2.2 (within.bind _ _))

/-! ### Folding -/

/-- An expression that has a value keeps it in a larger environment. -/
theorem Expr.valueIn_weaken {env other : Environment Literal} (within : env.Within other) {e : Expr}
    {value : Literal} (h : e.valueIn env = .ok value) : e.valueIn other = .ok value := by
  induction e generalizing value with
  | literal v m => exact h
  | reference name m =>
    unfold valueIn at h ⊢
    cases hname : env name with
    | none =>
      rw [hname] at h
      cases h
    | some v =>
      rw [hname] at h
      rw [within name v hname]
      exact h
  | operation op lhs rhs m ihl ihr =>
    unfold valueIn at h ⊢
    cases hl : lhs.valueIn env with
    | error e =>
      rw [hl] at h
      cases h
    | ok l =>
      cases hr : rhs.valueIn env with
      | error e =>
        rw [hl, hr] at h
        cases h
      | ok r =>
        rw [hl, hr] at h
        rw [ihl hl, ihr hr]
        exact h

/-- A block in which no error is found keeps its declarations in a larger environment. -/
theorem Block.resolve_weaken {env other : Environment Literal} (within : env.Within other)
    {b : Block} (h : (b.resolve env).errors = []) : b.resolve other = b.resolve env := by
  induction b generalizing env other with
  | empty => rfl
  | declaration d rest ih =>
    rw [resolve, Findings.errors_append, List.append_eq_nil_iff] at h
    obtain ⟨first, others⟩ := h
    rw [resolve, resolve, ih within others]
    unfold Declaration.resolve at first ⊢
    cases hvalue : d.value.valueIn env with
    | error e =>
      rw [hvalue] at first
      cases first
    | ok value => rw [Expr.valueIn_weaken within hvalue]
  | assignment a rest ih =>
    unfold resolve at h ⊢
    cases hvalue : a.value.valueIn env with
    | error e =>
      rw [hvalue] at h
      cases h
    | ok value =>
      rw [hvalue] at h
      rw [Expr.valueIn_weaken within hvalue]
      exact ih (within.bind a.name value) h
  | ifThen c body m rest ihBody ih =>
    rw [resolve, Findings.errors_append, List.append_eq_nil_iff] at h
    obtain ⟨branch, others⟩ := h
    rw [resolve, resolve, ih within others]
    cases hvalue : c.valueIn env with
    | error e =>
      rw [hvalue] at branch
      cases branch
    | ok value =>
      rw [hvalue] at branch
      rw [Expr.valueIn_weaken within hvalue]
      cases value with
      | bool live =>
        cases live with
        | true => rw [ihBody within branch]
        | false => rfl
      | _ => cases branch
  | ifElse c body m otherwise om rest ihBody ihOther ih =>
    rw [resolve, Findings.errors_append, List.append_eq_nil_iff] at h
    obtain ⟨branch, others⟩ := h
    rw [resolve, resolve, ih within others]
    cases hvalue : c.valueIn env with
    | error e =>
      rw [hvalue] at branch
      cases branch
    | ok value =>
      rw [hvalue] at branch
      rw [Expr.valueIn_weaken within hvalue]
      cases value with
      | bool live =>
        cases live with
        | true => rw [ihBody within branch]
        | false => rw [ihOther within branch]
      | _ => cases branch

/-- Members in which no error is found keep their rules in a larger environment. -/
theorem Sheet.resolveMembers_weaken {env other : Environment Literal} (within : env.Within other)
    {members : List Member} (h : (resolveMembers members env).errors = []) :
    resolveMembers members other = resolveMembers members env := by
  induction members generalizing env other with
  | nil => rfl
  | cons m members ih =>
    cases m with
    | rule r =>
      rw [resolveMembers, Findings.errors_append, List.append_eq_nil_iff] at h
      rw [resolveMembers, resolveMembers, ih within h.2, Rule.resolve, Rule.resolve,
        Block.resolve_weaken within h.1]
    | assignment a =>
      unfold resolveMembers at h ⊢
      cases hvalue : a.value.valueIn env with
      | error e =>
        rw [hvalue] at h
        cases h
      | ok value =>
        rw [hvalue] at h
        rw [Expr.valueIn_weaken within hvalue]
        exact ih (within.bind a.name value) h

end FlatSheet
