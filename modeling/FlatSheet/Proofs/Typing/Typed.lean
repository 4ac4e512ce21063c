import FlatSheet.Proofs.Typing.Accepted
import FlatSheet.Proofs.Typing.Reads

/-!
# When an expression has a type

An expression lacks a type for one of two reasons: something is found wrong in it, or it reads a name
that is bound to no type.
-/

namespace FlatSheet

namespace Operator

variable {op : Operator} {l r : Option Ty}

/-- An operation has a type when the types of its operands are known and go together. -/
theorem check_fst_eq_some_iff {t : Ty} :
    (op.check l r).1 = some t ↔ ∃ lhs rhs, l = some lhs ∧ r = some rhs ∧ op.typeOf lhs rhs = .ok t := by
  cases l with
  | none => simp [check]
  | some lhs =>
    cases r with
    | none => simp [check]
    | some rhs => cases h : op.typeOf lhs rhs <;> simp [check, h]

/-- An operation lacks a type when an operand does, or when something is wrong with it. -/
theorem check_fst_ne_none_iff :
    (op.check l r).1 ≠ none ↔ l ≠ none ∧ r ≠ none ∧ (op.check l r).2 = none := by
  cases l with
  | none => simp [check]
  | some lhs =>
    cases r with
    | none => simp [check]
    | some rhs => cases h : op.typeOf lhs rhs <;> simp [check, h]

/-- Something is found wrong with an operation only where both its operands have types. -/
theorem typed_of_check {p : Problem} (h : (op.check l r).2 = some p) : l ≠ none ∧ r ≠ none := by
  cases l with
  | none => simp [check] at h
  | some lhs =>
    cases r with
    | none => simp [check] at h
    | some rhs => exact ⟨nofun, nofun⟩

end Operator

namespace Expr

/-- An operation has a type when both its operands are fit and it has one for their types. -/
theorem check_operation_snd_eq_some_iff {op : Operator} {lhs rhs : Expr} {m : Mark}
    {scopes : TypeScopes} {t : Ty} :
    ((operation op lhs rhs m).check scopes).2 = some t ↔
      lhs.unfit? = none ∧ rhs.unfit? = none ∧
        (op.check (lhs.check scopes).2 (rhs.check scopes).2).1 = some t := by
  cases hl : lhs.unfit? with
  | some p => simp [check, hl]
  | none => cases hr : rhs.unfit? <;> simp [check, hl, hr]

/-- An expression without problems has a type exactly when nothing is found wrong in it and every name
that it reads is bound to a type, if it is bound. -/
theorem typed_iff {e : Expr} (clean : Unreported e.preorder) {scopes : TypeScopes} :
    (e.check scopes).2 ≠ none ↔
      Unreported (e.check scopes).1.preorder ∧ ∀ name ∈ e.references, scopes.lookup name ≠ some none := by
  induction e with
  | literal value m => simpa [check, references] using clean
  | reference name m =>
    have own : m.problem = none := clean _ (List.mem_singleton_self _)
    rw [unreported_check_reference]
    unfold check
    cases h : scopes.lookup name with
    | none => simp
    | some t => simp [references, own, h]
  | operation op lhs rhs m ihl ihr =>
    simp only [preorder, unreported_cons, unreported_append] at clean
    obtain ⟨own, cleanl, cleanr⟩ := clean
    have own : m.problem = none := own
    rw [Option.ne_none_iff_exists']
    simp only [check_operation_snd_eq_some_iff, exists_and_left, ← Option.ne_none_iff_exists',
      Operator.check_fst_ne_none_iff, ihl cleanl, ihr cleanr, unreported_check_operation, references,
      List.forall_mem_append]
    constructor
    · rintro ⟨hl, hr, ⟨lhsRight, lhsNames⟩, ⟨rhsRight, rhsNames⟩, hop⟩
      exact ⟨⟨own, hl, hr, lhsRight, rhsRight, hop⟩, lhsNames, rhsNames⟩
    · rintro ⟨⟨-, hl, hr, lhsRight, rhsRight, hop⟩, lhsNames, rhsNames⟩
      exact ⟨hl, hr, ⟨lhsRight, lhsNames⟩, ⟨rhsRight, rhsNames⟩, hop⟩

/-- An expression that has a type has nothing wrong in it. -/
theorem unreported_of_typed {e : Expr} (clean : Unreported e.preorder) {scopes : TypeScopes}
    (typed : (e.check scopes).2 ≠ none) : Unreported (e.check scopes).1.preorder :=
  ((typed_iff clean).mp typed).1

end Expr

end FlatSheet
