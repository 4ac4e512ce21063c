import FlatSheet.Proofs.Folding.Operations

/-!
# Which operation a failure of folding names

An operation is stuck when its operands have values to which it does not apply. A failure that tells of
an operation tells of the first one that is stuck, in post-order. It names the values of the operands in
source order, with one exception: a product puts a scalar on its left behind its other factor, and names
the two in this order.
-/

namespace FlatSheet

/-- The operation that an error tells of: its operator, and the written forms of the two values that the
error names. -/
def FoldError.operands? : FoldError → Option (Operator × String × String)
  | unboundVariable _ => none
  | invalidOperands op lhs rhs => some (op, lhs.text, rhs.text)
  | conditionNotBoolean _ => none
  | overflow op lhs rhs => some (op, lhs.text, rhs.text)

/-- The operator puts its right operand first: a product of a scalar and something else does. -/
def Operator.Exchanges (op : Operator) (l r : Literal) : Prop :=
  op = .multiply ∧ l.type = .scalar ∧ r.type ≠ .scalar

instance (op : Operator) (l r : Literal) : Decidable (op.Exchanges l r) :=
  inferInstanceAs (Decidable (_ ∧ _ ∧ _))

/-! ### Errors of operations -/

namespace Literal

variable {lhs rhs : Literal} {error : FoldError}

private theorem eq_of_ofAmount?_eq_error {unit : Amount → Literal} {overflow : FoldError}
    {n : Option Amount} (h : ofAmount? unit overflow n = .error error) : error = overflow := by
  cases n with
  | some n => cases h
  | none =>
    cases h
    rfl

/-- Joining amounts names both in order. -/
theorem operands?_of_joinAmounts {op : Operator} {join : Amount → Amount → Option Amount}
    (h : joinAmounts op join lhs rhs = .error error) :
    error.operands? = some (op, lhs.text, rhs.text) := by
  unfold joinAmounts at h
  split at h
  · rw [eq_of_ofAmount?_eq_error h]
    rfl
  · rw [eq_of_ofAmount?_eq_error h]
    rfl
  · rw [eq_of_ofAmount?_eq_error h]
    rfl
  · cases h
    rfl

/-- Scaling names the value and then the factor. -/
theorem operands?_of_scale {value : Literal} {factor : Amount}
    (h : scale value factor = .error error) :
    error.operands? = some (.multiply, value.text, (scalar factor).text) := by
  cases value with
  | bool b =>
    cases h
    rfl
  | color t =>
    cases h
    rfl
  | pixels n =>
    rw [eq_of_ofAmount?_eq_error h]
    rfl
  | percentage n =>
    rw [eq_of_ofAmount?_eq_error h]
    rfl
  | scalar n =>
    rw [eq_of_ofAmount?_eq_error h]
    rfl

/-- A product of a scalar and something else names the scalar second. -/
theorem operands?_of_multiply_of_exchanges (exchanges : Operator.multiply.Exchanges lhs rhs)
    (h : multiply lhs rhs = .error error) :
    error.operands? = some (.multiply, rhs.text, lhs.text) := by
  obtain ⟨-, left, right⟩ := exchanges
  cases lhs with
  | scalar factor =>
    cases rhs with
    | scalar n => exact absurd rfl right
    | _ => exact operands?_of_scale h
  | _ => cases left

/-- Every other product names its factors in order. -/
theorem operands?_of_multiply_of_not_exchanges (inOrder : ¬ Operator.multiply.Exchanges lhs rhs)
    (h : multiply lhs rhs = .error error) :
    error.operands? = some (.multiply, lhs.text, rhs.text) := by
  cases rhs with
  | scalar factor => cases lhs <;> exact operands?_of_scale h
  | _ =>
    cases lhs with
    | scalar n => exact absurd ⟨rfl, rfl, nofun⟩ inOrder
    | _ =>
      cases h
      rfl

end Literal

namespace Operator

variable {op : Operator} {l r : Literal} {error : FoldError}

/-- An operation that exchanges its operands names them in this order. -/
theorem operands?_of_exchanges (exchanges : op.Exchanges l r) (h : op.apply l r = .error error) :
    error.operands? = some (op, r.text, l.text) := by
  obtain rfl := exchanges.1
  exact Literal.operands?_of_multiply_of_exchanges exchanges h

/-- Every other operation names its operands in order. -/
theorem operands?_of_not_exchanges (inOrder : ¬ op.Exchanges l r) (h : op.apply l r = .error error) :
    error.operands? = some (op, l.text, r.text) := by
  cases op with
  | add => exact Literal.operands?_of_joinAmounts h
  | subtract => exact Literal.operands?_of_joinAmounts h
  | multiply => exact Literal.operands?_of_multiply_of_not_exchanges inOrder h

end Operator

/-! ### Expressions -/

namespace Expr

variable {values : ValueScopes}

/-- The operator and the values of the operands, if the expression is a stuck operation. -/
def stuck? (values : ValueScopes) : Expr → Option (Operator × Literal × Literal)
  | literal _ _ => none
  | reference _ _ => none
  | operation op lhs rhs _ =>
    match lhs.fold values, rhs.fold values with
    | .ok l, .ok r =>
      match op.apply l r with
      | .ok _ => none
      | .error _ => some (op, l, r)
    | _, _ => none

/-- The first operation in post-order that is stuck. -/
def firstStuck? (values : ValueScopes) (e : Expr) : Option (Operator × Literal × Literal) :=
  e.operations.findSome? (stuck? values)

theorem stuck?_of_apply_eq_error {op : Operator} {lhs rhs : Expr} {m : Mark} {l r : Literal}
    {error : FoldError} (hl : lhs.fold values = .ok l) (hr : rhs.fold values = .ok r)
    (h : op.apply l r = .error error) : (operation op lhs rhs m).stuck? values = some (op, l, r) := by
  rw [stuck?, hl, hr]
  simp only [h]

/-- What has a value is not stuck. -/
theorem stuck?_of_fold {e : Expr} {v : Literal} (h : e.fold values = .ok v) :
    e.stuck? values = none := by
  cases e with
  | literal value m => rfl
  | reference name m => rfl
  | operation op lhs rhs m =>
    obtain ⟨l, r, hl, hr, applies⟩ := fold_operation_eq_ok_iff.mp h
    rw [stuck?, hl, hr]
    simp only [applies]

/-- Nothing in an expression that has a value is stuck. -/
theorem firstStuck?_of_fold {e : Expr} {v : Literal} (h : e.fold values = .ok v) :
    e.firstStuck? values = none := by
  rw [firstStuck?, List.findSome?_eq_none_iff]
  intro node member
  obtain ⟨w, hw⟩ := exists_fold_of_mem_operations h node member
  exact stuck?_of_fold hw

/-- The left operand is searched first, then the right one, then the operation itself. -/
theorem firstStuck?_operation (op : Operator) (lhs rhs : Expr) (m : Mark) :
    (operation op lhs rhs m).firstStuck? values =
      ((lhs.firstStuck? values).or (rhs.firstStuck? values)).or
        ((operation op lhs rhs m).stuck? values) := by
  unfold firstStuck?
  rw [operations, List.findSome?_append, List.findSome?_append, List.findSome?_singleton]

/-- A failure that tells of an operation is that of the first one that is stuck. -/
theorem exists_firstStuck? {e : Expr} {error : FoldError} (failed : e.fold values = .error error)
    (kind : error.operands? ≠ none) :
    ∃ op l r, e.firstStuck? values = some (op, l, r) ∧ op.apply l r = .error error := by
  induction e with
  | literal value m => cases failed
  | reference name m =>
    -- A name without a value is no operation.
    unfold fold at failed
    split at failed
    · cases failed
    · cases failed
      exact absurd rfl kind
  | operation op lhs rhs m ihl ihr =>
    rw [firstStuck?_operation]
    obtain left | ⟨l, hl, right | ⟨r, hr, applied⟩⟩ := fold_operation_eq_error_iff.mp failed
    · obtain ⟨op', l, r, found, applied⟩ := ihl left
      exact ⟨op', l, r, by rw [found, Option.some_or, Option.some_or], applied⟩
    · obtain ⟨op', l', r, found, applied⟩ := ihr right
      rw [firstStuck?_of_fold hl, Option.none_or, found, Option.some_or]
      exact ⟨op', l', r, rfl, applied⟩
    · rw [firstStuck?_of_fold hl, firstStuck?_of_fold hr, stuck?_of_apply_eq_error hl hr applied]
      exact ⟨op, l, r, rfl, applied⟩

/-- A failure that tells of an operation has the operator of the first one that is stuck, and names the
values of its operands: in source order, unless this operation exchanges them. -/
theorem fold_blames_first_stuck {e : Expr} {error : FoldError} (failed : e.fold values = .error error)
    (kind : error.operands? ≠ none) :
    ∃ op l r, e.firstStuck? values = some (op, l, r) ∧
      (¬ op.Exchanges l r → error.operands? = some (op, l.text, r.text)) ∧
      (op.Exchanges l r → error.operands? = some (op, r.text, l.text)) := by
  obtain ⟨op, l, r, found, applied⟩ := exists_firstStuck? failed kind
  exact ⟨op, l, r, found, fun inOrder ↦ Operator.operands?_of_not_exchanges inOrder applied,
    fun exchanges ↦ Operator.operands?_of_exchanges exchanges applied⟩

/-- The sum under a product is stuck first. -/
theorem fold_blames_sum_in_product :
    let m := Mark.clean .unknown
    let most : Literal := .pixels ⟨9223372036854775807, by decide, by decide⟩
    let one : Literal := .pixels ⟨1, by decide, by decide⟩
    let two : Literal := .scalar ⟨2, by decide, by decide⟩
    let sum : Expr := .operation .add (.literal most m) (.literal one m) m
    let e : Expr := .operation .multiply (.operation .multiply (.literal two m) sum m) sum m
    ∃ error, e.fold .empty = .error error ∧
      error.operands? = some (.add, most.text, one.text) := by
  intro m most one two sum e
  have failed : e.fold .empty = .error (.overflow .add most one) := rfl
  obtain ⟨op, l, r, found, inOrder, -⟩ := fold_blames_first_stuck failed nofun
  have first : e.firstStuck? .empty = some (.add, most, one) := by decide
  cases first.symm.trans found
  exact ⟨_, failed, inOrder (by decide)⟩

/-- A product with a scalar on its left names the scalar second, in its message as well. -/
theorem fold_names_exchanged_factors :
    let m := Mark.clean .unknown
    let most : Literal := .pixels ⟨9223372036854775807, by decide, by decide⟩
    let two : Literal := .scalar ⟨2, by decide, by decide⟩
    let e : Expr := .operation .multiply (.literal two m) (.literal most m) m
    let error : FoldError := .overflow .multiply most two
    e.firstStuck? .empty = some (.multiply, two, most) ∧ e.fold .empty = .error error ∧
      error.operands? = some (.multiply, most.text, two.text) ∧
      error.operands? ≠ some (.multiply, two.text, most.text) ∧
      error.message = "internal error: arithmetic overflow in 9223372036854775807px * 2" := by
  intro m most two e error
  exact ⟨by decide, rfl, rfl, by decide, rfl⟩

end Expr

end FlatSheet
