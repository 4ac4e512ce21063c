import FlatSheet.Proofs.Scopes.Restored
import FlatSheet.Proofs.Sheet.Preorder

/-!
# What typing accepts

A part of a sheet is accepted when no node of it has a problem after typing. For each construct this
says which of its parts are accepted and what is known of their types. What is accepted is left as
it was.
-/

namespace FlatSheet

/-! ### Expressions -/

/-- A problem that is attached to an expression is found on its first node. -/
theorem Expr.not_unreported_report (e : Expr) (p : Problem) :
    ¬ Unreported (e.report p).preorder := by
  intro h
  cases e <;> simp [Expr.report, Expr.preorder, Node.problem?, Expr.mark] at h

/-- A mark is as it was if it has no problem after a report. -/
theorem Mark.problem_reportAny {m : Mark} {p : Option Problem} :
    (m.reportAny p).problem = none ↔ m.problem = none ∧ p = none := by
  cases p <;> simp [Mark.reportAny]

/-- A reference is accepted exactly when its name is bound, be it to no type. -/
theorem Expr.unreported_check_reference {name : String} {m : Mark} {scopes : TypeScopes} :
    Unreported ((reference name m).check scopes).1.preorder ↔
      m.problem = none ∧ ∃ t, scopes.lookup name = some t := by
  unfold Expr.check
  split
  · next t h => simp [Expr.preorder, Node.problem?, Expr.mark, h]
  · next h => simp [Expr.preorder, Node.problem?, Expr.mark, h]

/-- An operation is accepted exactly when its operands are fit and accepted and their types go
together. -/
theorem Expr.unreported_check_operation {op : Operator} {lhs rhs : Expr} {m : Mark}
    {scopes : TypeScopes} :
    Unreported ((operation op lhs rhs m).check scopes).1.preorder ↔
      m.problem = none ∧ lhs.unfit? = none ∧ rhs.unfit? = none ∧
        Unreported (lhs.check scopes).1.preorder ∧ Unreported (rhs.check scopes).1.preorder ∧
        (op.check (lhs.check scopes).2 (rhs.check scopes).2).2 = none := by
  cases hl : lhs.unfit? with
  | some p => simp [Expr.check, hl, Expr.preorder, not_unreported_report]
  | none =>
    cases hr : rhs.unfit? with
    | some p => simp [Expr.check, hl, hr, Expr.preorder, not_unreported_report]
    | none =>
      simp only [Expr.check, hl, hr, Expr.preorder, unreported_cons, unreported_append,
        Node.problem?, Expr.mark, Mark.problem_reportAny, true_and]
      constructor
      · rintro ⟨⟨hm, hop⟩, hlhs, hrhs⟩
        exact ⟨hm, hlhs, hrhs, hop⟩
      · rintro ⟨hm, hlhs, hrhs, hop⟩
        exact ⟨⟨hm, hop⟩, hlhs, hrhs⟩

/-- The type of an accepted operation is that of its operands' types. -/
theorem Expr.check_operation_snd {op : Operator} {lhs rhs : Expr} {m : Mark} {scopes : TypeScopes}
    (hl : lhs.unfit? = none) (hr : rhs.unfit? = none) :
    ((operation op lhs rhs m).check scopes).2 =
      (op.check (lhs.check scopes).2 (rhs.check scopes).2).1 := by
  simp [Expr.check, hl, hr]

/-- An accepted expression is left as it was. -/
theorem Expr.check_fst_of_unreported {e : Expr} {scopes : TypeScopes}
    (h : Unreported (e.check scopes).1.preorder) : (e.check scopes).1 = e := by
  induction e with
  | literal value m => rfl
  | reference name m =>
    obtain ⟨-, t, ht⟩ := unreported_check_reference.mp h
    simp [Expr.check, ht]
  | operation op lhs rhs m ihl ihr =>
    obtain ⟨-, hl, hr, hlhs, hrhs, hop⟩ := unreported_check_operation.mp h
    simp [Expr.check, hl, hr, ihl hlhs, ihr hrhs, hop, Mark.reportAny]

/-- A condition is accepted exactly when it is accepted as an expression and is a truth value, or
has no type at all. -/
theorem Expr.unreported_checkCondition {e : Expr} {scopes : TypeScopes} :
    Unreported (e.checkCondition scopes).preorder ↔
      Unreported (e.check scopes).1.preorder ∧
        ∀ t, (e.check scopes).2 = some t → t = .bool := by
  unfold Expr.checkCondition
  split
  · next typed h => simp [h]
  · next typed h => simp [h]
  · next typed t ht h =>
    simp only [h, not_unreported_report, Option.some.injEq, false_iff]
    rintro ⟨-, ht'⟩
    exact ht (ht' t rfl)

/-- An accepted condition is left as it was. -/
theorem Expr.checkCondition_of_unreported {e : Expr} {scopes : TypeScopes}
    (h : Unreported (e.checkCondition scopes).preorder) : e.checkCondition scopes = e := by
  obtain ⟨he, hbool⟩ := unreported_checkCondition.mp h
  have same := check_fst_of_unreported he
  unfold Expr.checkCondition
  split
  · next typed h => simpa [h] using same
  · next typed h => simpa [h] using same
  · next typed t ht h => exact absurd (hbool t (by rw [h])) ht

/-! ### Declarations and assignments -/

/-- A declaration is accepted exactly when its value is, and is fit for the property. -/
theorem Declaration.unreported_check {d : Declaration} {scopes : TypeScopes} :
    (d.check scopes).mark.problem = none ∧ Unreported (d.check scopes).value.preorder ↔
      d.mark.problem = none ∧ Unreported (d.value.check scopes).1.preorder ∧
        Property.problem? d.property (d.value.check scopes).2 = none := by
  simp only [Declaration.check, Mark.problem_reportAny]
  grind

/-- An accepted declaration is left as it was. -/
theorem Declaration.check_of_unreported {d : Declaration} {scopes : TypeScopes}
    (hm : (d.check scopes).mark.problem = none)
    (hv : Unreported (d.check scopes).value.preorder) : d.check scopes = d := by
  obtain ⟨-, hvalue, hproperty⟩ := unreported_check.mp ⟨hm, hv⟩
  simp [Declaration.check, Expr.check_fst_of_unreported hvalue, hproperty, Mark.reportAny]

/-- A value that is fit for a property has one of the types that the property takes, if it has
one. -/
theorem Property.problem?_eq_none {property : String} {t : Ty}
    (h : problem? property (some t) = none) : ∃ p, find? property = some p ∧ t ∈ p.allowed := by
  unfold problem? at h
  split at h
  · cases h
  · next heq => cases heq
  · next p t' hp ht =>
    cases ht
    split at h
    · next mem => exact ⟨p, hp, mem⟩
    · cases h

/-! ### Blocks and sheets -/

/-- A declaration and the items after it are accepted apart. -/
theorem Block.unreported_check_declaration {d : Declaration} {rest : Block} {scopes : TypeScopes} :
    Unreported ((declaration d rest).check scopes).1.preorder ↔
      ((d.check scopes).mark.problem = none ∧ Unreported (d.check scopes).value.preorder) ∧
        Unreported (rest.check scopes).1.preorder := by
  simp [Block.check, Block.preorder, Node.problem?, and_assoc]

/-- An assignment is accepted when its value is, and the items after it with the type of its
variable. -/
theorem Block.unreported_check_assignment {a : Assignment} {rest : Block} {scopes : TypeScopes} :
    Unreported ((assignment a rest).check scopes).1.preorder ↔
      a.mark.problem = none ∧ Unreported (a.value.check scopes).1.preorder ∧
        Unreported (rest.check (scopes.declare a.name (a.value.check scopes).2)).1.preorder := by
  simp [Block.check, Block.preorder, Node.problem?, Assignment.check]

/-- A conditional block is accepted when its condition and its branch are, in a frame of their
own. -/
theorem Block.unreported_check_ifThen {c : Expr} {body : Block} {m : Mark} {rest : Block}
    {scopes : TypeScopes} :
    Unreported ((ifThen c body m rest).check scopes).1.preorder ↔
      m.problem = none ∧ Unreported (c.checkCondition scopes.push).preorder ∧
        Unreported (body.check scopes.push).1.preorder ∧
          Unreported (rest.check scopes).1.preorder := by
  simp [Block.check_ifThen, Block.preorder, Node.problem?]

/-- The second branch is accepted after the first, whose bindings it sees. -/
theorem Block.unreported_check_ifElse {c : Expr} {body : Block} {m : Mark} {other : Block}
    {om : Mark} {rest : Block} {scopes : TypeScopes} :
    Unreported ((ifElse c body m other om rest).check scopes).1.preorder ↔
      m.problem = none ∧ Unreported (c.checkCondition scopes.push).preorder ∧
        Unreported (body.check scopes.push).1.preorder ∧ om.problem = none ∧
        Unreported (other.check (body.check scopes.push).2.push).1.preorder ∧
        Unreported (rest.check scopes).1.preorder := by
  simp [Block.check_ifElse, Block.preorder, Node.problem?]

/-- An accepted block is left as it was. -/
theorem Block.check_fst_of_unreported {b : Block} {scopes : TypeScopes}
    (h : Unreported (b.check scopes).1.preorder) : (b.check scopes).1 = b := by
  induction b generalizing scopes with
  | empty => rfl
  | declaration d rest ih =>
    obtain ⟨⟨hm, hv⟩, hrest⟩ := unreported_check_declaration.mp h
    simp [Block.check, Declaration.check_of_unreported hm hv, ih hrest]
  | assignment a rest ih =>
    obtain ⟨-, ha, hrest⟩ := unreported_check_assignment.mp h
    simp [Block.check, Assignment.check, Expr.check_fst_of_unreported ha, ih hrest]
  | ifThen c body m rest ihBody ih =>
    obtain ⟨-, hc, hbody, hrest⟩ := unreported_check_ifThen.mp h
    simp [check_ifThen, Expr.checkCondition_of_unreported hc, ihBody hbody, ih hrest]
  | ifElse c body m other om rest ihBody ihOther ih =>
    obtain ⟨-, hc, hbody, -, hother, hrest⟩ := unreported_check_ifElse.mp h
    simp [check_ifElse, Expr.checkCondition_of_unreported hc, ihBody hbody, ihOther hother,
      ih hrest]

/-- A rule is accepted when its block is, in a frame of its own. -/
theorem Rule.unreported_check {r : Rule} {scopes : TypeScopes} :
    Unreported (Member.rule (r.check scopes).1).preorder ↔
      r.mark.problem = none ∧ Unreported (r.body.check scopes.push).1.preorder := by
  simp [Rule.check, Member.preorder, Node.problem?]

namespace Sheet

/-- A rule is accepted apart from the members after it. -/
theorem unreported_checkMembers_rule {r : Rule} {members : List Member} {scopes : TypeScopes} :
    Unreported ((checkMembers (.rule r :: members) scopes).1.flatMap Member.preorder) ↔
      r.mark.problem = none ∧ Unreported (r.body.check scopes.push).1.preorder ∧
        Unreported ((checkMembers members scopes).1.flatMap Member.preorder) := by
  simp [checkMembers, Rule.unreported_check, and_assoc]

/-- An assignment is accepted when its value is, and the members after it with the type of its
variable. -/
theorem unreported_checkMembers_assignment {a : Assignment} {members : List Member}
    {scopes : TypeScopes} :
    Unreported ((checkMembers (.assignment a :: members) scopes).1.flatMap Member.preorder) ↔
      a.mark.problem = none ∧ Unreported (a.value.check scopes).1.preorder ∧
        Unreported ((checkMembers members
          (scopes.declare a.name (a.value.check scopes).2)).1.flatMap Member.preorder) := by
  simp [checkMembers, Assignment.check, Member.preorder, Node.problem?]

/-- Accepted members are left as they were. -/
theorem checkMembers_fst_of_unreported {members : List Member} {scopes : TypeScopes}
    (h : Unreported ((checkMembers members scopes).1.flatMap Member.preorder)) :
    (checkMembers members scopes).1 = members := by
  induction members generalizing scopes with
  | nil => rfl
  | cons m members ih =>
    cases m with
    | rule r =>
      obtain ⟨-, hbody, hrest⟩ := unreported_checkMembers_rule.mp h
      simp [checkMembers, Rule.check, Block.check_fst_of_unreported hbody, ih hrest]
    | assignment a =>
      obtain ⟨-, ha, hrest⟩ := unreported_checkMembers_assignment.mp h
      simp [checkMembers, Assignment.check, Expr.check_fst_of_unreported ha, ih hrest]

/-- Typing finds nothing wrong with a sheet exactly when it has no problem of its own and its
members are accepted. -/
theorem diagnostics_check_eq_nil_iff {s : Sheet} {scopes : TypeScopes} :
    (s.check scopes).1.diagnostics = [] ↔ s.problem = none ∧
      Unreported ((checkMembers s.members scopes.push).1.flatMap Member.preorder) := by
  rw [diagnostics_eq_nil_iff, preorder, unreported_cons]
  rfl

/-- A sheet with which typing finds nothing wrong is left as it was. -/
theorem check_fst_of_diagnostics {s : Sheet} {scopes : TypeScopes}
    (h : (s.check scopes).1.diagnostics = []) : (s.check scopes).1 = s := by
  have members := checkMembers_fst_of_unreported (diagnostics_check_eq_nil_iff.mp h).2
  simp [check, members]

end Sheet

end FlatSheet
