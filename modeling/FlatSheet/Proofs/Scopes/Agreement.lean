import FlatSheet.Proofs.Scopes.Restored

/-!
# Scopes that agree

Scopes agree when every name is bound alike in both, however their frames are arranged. Typing and
flattening look at scopes through names only, so in scopes that agree they have the same results and
leave scopes that agree.
-/

namespace FlatSheet

namespace Scopes

variable {V : Type} {s t : Scopes V}

/-- Every name is bound alike in both, or in neither. -/
def Agree (s t : Scopes V) : Prop := ∀ name, s.lookup name = t.lookup name

/-- A new frame makes no difference. -/
theorem Agree.push (h : s.Agree t) : s.push.Agree t.push := h

/-- Scopes agree with a new frame on top of them. -/
theorem agree_push (s : Scopes V) : s.push.Agree s := fun _ ↦ rfl

/-- The same binding on top of both makes no difference. -/
theorem Agree.declare (h : s.Agree t) (name : String) (value : V) :
    (s.declare name value).Agree (t.declare name value) := by
  intro other
  rw [lookup_declare, lookup_declare, h other]

end Scopes

open Scopes (Agree)

/-! ### Typing -/

/-- An expression is typed alike in scopes that agree. -/
theorem Expr.check_congr {s t : TypeScopes} (h : s.Agree t) (e : Expr) : e.check s = e.check t := by
  induction e with
  | literal value m => rfl
  | reference name m => simp only [Expr.check, h name]
  | operation op lhs rhs m ihl ihr => simp only [Expr.check, ihl, ihr]

/-- A condition is typed alike in scopes that agree. -/
theorem Expr.checkCondition_congr {s t : TypeScopes} (h : s.Agree t) (e : Expr) :
    e.checkCondition s = e.checkCondition t := by
  rw [Expr.checkCondition, Expr.checkCondition, e.check_congr h]

/-- A declaration is typed alike in scopes that agree. -/
theorem Declaration.check_congr {s t : TypeScopes} (h : s.Agree t) (d : Declaration) :
    d.check s = d.check t := by
  rw [Declaration.check, Declaration.check, d.value.check_congr h]

/-- An assignment is typed alike in scopes that agree. -/
theorem Assignment.check_congr {s t : TypeScopes} (h : s.Agree t) (a : Assignment) :
    a.check s = a.check t := by
  rw [Assignment.check, Assignment.check, a.value.check_congr h]

/-- A block is typed alike in scopes that agree, and leaves scopes that agree. -/
theorem Block.check_congr {s t : TypeScopes} (h : s.Agree t) (b : Block) :
    (b.check s).1 = (b.check t).1 ∧ (b.check s).2.Agree (b.check t).2 := by
  induction b generalizing s t with
  | empty => exact ⟨rfl, h⟩
  | declaration d rest ih =>
    obtain ⟨items, scopes⟩ := ih h
    simp only [Block.check, d.check_congr h, items]
    exact ⟨trivial, scopes⟩
  | assignment a rest ih =>
    simp only [Block.check, a.check_congr h]
    obtain ⟨items, scopes⟩ := ih (h.declare a.name (a.check t).2)
    exact ⟨by rw [items], scopes⟩
  | ifThen c body m rest ihBody ih =>
    obtain ⟨branch, -⟩ := ihBody h.push
    obtain ⟨items, scopes⟩ := ih h
    rw [check_ifThen, check_ifThen, c.checkCondition_congr h.push, branch, items]
    exact ⟨rfl, scopes⟩
  | ifElse c body m other om rest ihBody ihOther ih =>
    obtain ⟨branch, inner⟩ := ihBody h.push
    obtain ⟨second, -⟩ := ihOther inner.push
    obtain ⟨items, scopes⟩ := ih h
    rw [check_ifElse, check_ifElse, c.checkCondition_congr h.push, branch, second, items]
    exact ⟨rfl, scopes⟩

/-- A rule is typed alike in scopes that agree. -/
theorem Rule.check_congr {s t : TypeScopes} (h : s.Agree t) (r : Rule) :
    (r.check s).1 = (r.check t).1 := by
  rw [Rule.check, Rule.check]
  simp only [Scopes.enclosed_fst, (r.body.check_congr h.push).1]

/-- Members are typed alike in scopes that agree. -/
theorem Sheet.checkMembers_congr {s t : TypeScopes} (h : s.Agree t) (members : List Member) :
    (checkMembers members s).1 = (checkMembers members t).1 := by
  induction members generalizing s t with
  | nil => rfl
  | cons m members ih =>
    cases m with
    | rule r =>
      simp only [checkMembers, Rule.check_snd, r.check_congr h, ih h]
    | assignment a =>
      simp only [checkMembers, a.check_congr h, ih (h.declare a.name (a.check t).2)]

/-! ### Flattening -/

/-- An expression is folded alike in scopes that agree. -/
theorem Expr.fold_congr {s t : ValueScopes} (h : s.Agree t) (e : Expr) : e.fold s = e.fold t := by
  induction e with
  | literal value m => rfl
  | reference name m => simp only [Expr.fold, h name]
  | operation op lhs rhs m ihl ihr => simp only [Expr.fold, ihl, ihr]

/-- A condition is folded alike in scopes that agree. -/
theorem Expr.foldCondition_congr {s t : ValueScopes} (h : s.Agree t) (e : Expr) :
    e.foldCondition s = e.foldCondition t := by
  rw [Expr.foldCondition, Expr.foldCondition, e.fold_congr h]

/-- A block is flattened alike in scopes that agree, with the same error if there is one. -/
theorem Block.flatten_congr {s t : ValueScopes} (h : s.Agree t) (b : Block) :
    (b.flatten s).1 = (b.flatten t).1 := by
  induction b generalizing s t with
  | empty => rfl
  | declaration d rest ih =>
    rw [flatten_declaration, flatten_declaration, d.value.fold_congr h, ih h]
  | assignment a rest ih =>
    rw [flatten_assignment, flatten_assignment, a.value.fold_congr h]
    congr 1
    funext value
    exact ih (h.declare a.name value)
  | ifThen c body m rest ihBody ih =>
    rw [flatten_ifThen, flatten_ifThen, c.foldCondition_congr h, ihBody h.push, ih h]
  | ifElse c body m other om rest ihBody ihOther ih =>
    have live (taken : Bool) : ((if taken then body else other).flatten s.push).1 =
        ((if taken then body else other).flatten t.push).1 := by
      cases taken with
      | true => exact ihBody h.push
      | false => exact ihOther h.push
    simp only [flatten_ifElse, c.foldCondition_congr h, live, ih h]

/-- Members are flattened alike in scopes that agree, with the same error if there is one. -/
theorem Sheet.flattenMembers_congr {s t : ValueScopes} (h : s.Agree t) (members : List Member) :
    (flattenMembers members s).1 = (flattenMembers members t).1 := by
  induction members generalizing s t with
  | nil => rfl
  | cons m members ih =>
    cases m with
    | rule r =>
      rw [flattenMembers_rule, flattenMembers_rule, r.body.flatten_congr h.push, ih h]
    | assignment a =>
      rw [flattenMembers_assignment, flattenMembers_assignment, a.value.fold_congr h]
      congr 1
      funext value
      exact ih (h.declare a.name value)

end FlatSheet
