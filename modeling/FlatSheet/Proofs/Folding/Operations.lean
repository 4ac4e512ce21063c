import FlatSheet.Proofs.Folding.Outcome

/-!
# The operations of an expression

Folding comes to the operations of an expression in post-order, those of the left operand first, then
those of the right one, then the operation itself. An expression that has a value has values at all of
them.
-/

namespace FlatSheet

namespace Expr

/-- The operations in an expression, in post-order. -/
def operations : Expr → List Expr
  | literal _ _ => []
  | reference _ _ => []
  | operation op lhs rhs m => lhs.operations ++ rhs.operations ++ [operation op lhs rhs m]

variable {op : Operator} {lhs rhs : Expr} {m : Mark} {values : ValueScopes}

/-- What holds of all operations holds of those in the operands and of the operation itself. -/
theorem forall_operations {p : Expr → Prop} :
    (∀ node ∈ (operation op lhs rhs m).operations, p node) ↔
      (∀ node ∈ lhs.operations, p node) ∧ (∀ node ∈ rhs.operations, p node) ∧
        p (operation op lhs rhs m) := by
  rw [operations, List.forall_mem_append, List.forall_mem_append, List.forall_mem_singleton, and_assoc]

/-- An operation has a value when its operands have values to which it applies. -/
theorem fold_operation_eq_ok_iff {v : Literal} :
    (operation op lhs rhs m).fold values = .ok v ↔
      ∃ l r, lhs.fold values = .ok l ∧ rhs.fold values = .ok r ∧ op.apply l r = .ok v := by
  rw [fold]
  cases lhs.fold values with
  | error e => simp
  | ok l => cases rhs.fold values <;> simp

/-- An operation fails where its left operand does, or else its right one, or else the operation on
their values. -/
theorem fold_operation_eq_error_iff {error : FoldError} :
    (operation op lhs rhs m).fold values = .error error ↔
      lhs.fold values = .error error ∨
        ∃ l, lhs.fold values = .ok l ∧ (rhs.fold values = .error error ∨
          ∃ r, rhs.fold values = .ok r ∧ op.apply l r = .error error) := by
  rw [fold]
  cases lhs.fold values with
  | error e => simp
  | ok l => cases rhs.fold values <;> simp

/-- All operations in an expression that has a value have values. -/
theorem exists_fold_of_mem_operations {e : Expr} {v : Literal} (h : e.fold values = .ok v) :
    ∀ node ∈ e.operations, ∃ w, node.fold values = .ok w := by
  induction e generalizing v with
  | literal value m => nofun
  | reference name m => nofun
  | operation op lhs rhs m ihl ihr =>
    obtain ⟨l, r, hl, hr, -⟩ := fold_operation_eq_ok_iff.mp h
    rw [forall_operations]
    exact ⟨ihl hl, ihr hr, v, h⟩

end Expr

end FlatSheet
