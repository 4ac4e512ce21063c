import FlatSheet.Folding.Flatten
import FlatSheet.Typing.Check

/-!
# Outcomes of folding

An outcome is either a value or an error of folding. `Outcome` says what is known of the one and of
the other; it goes through steps that are taken in turn. Arithmetic on literals of fitting types has
a result of the type that typing gives it, or overflows; others are invalid operands.
-/

namespace FlatSheet

/-- Arithmetic whose result is out of the range of amounts. -/
def FoldError.IsOverflow (e : FoldError) : Prop := ∃ op lhs rhs, e = .overflow op lhs rhs

/-- A variable without a value. -/
def FoldError.IsUnbound (e : FoldError) : Prop := ∃ name, e = .unboundVariable name

/-- A value is as stated, and so is an error. -/
def Outcome {α : Type} (value : α → Prop) (error : FoldError → Prop) : Except FoldError α → Prop
  | .ok a => value a
  | .error e => error e

namespace Outcome

variable {α β : Type} {value : β → Prop} {error : FoldError → Prop}

/-- The outcome of a step is the value for the next, unless it is an error. -/
theorem bind {x : Except FoldError α} {f : α → Except FoldError β} {first : α → Prop}
    (hx : Outcome first error x) (hf : ∀ a, x = .ok a → first a → Outcome value error (f a)) :
    Outcome value error (x >>= f) := by
  cases x with
  | error e => exact hx
  | ok a => exact hf a rfl hx

/-- What implies the statements on values and on errors may be stated for them. -/
theorem mono {x : Except FoldError β} {weaker : β → Prop} {more : FoldError → Prop}
    (h : Outcome value error x) (hv : ∀ b, value b → weaker b) (he : ∀ e, error e → more e) :
    Outcome weaker more x := by
  cases x with
  | error e => exact he e h
  | ok b => exact hv b h

/-- The statement on values, for an outcome that is one. -/
theorem of_ok {x : Except FoldError β} {b : β} (h : Outcome value error x) (hx : x = .ok b) :
    value b := by
  subst hx
  exact h

/-- The statement on errors, for an outcome that is one. -/
theorem of_error {x : Except FoldError β} {e : FoldError} (h : Outcome value error x)
    (hx : x = .error e) : error e := by
  subst hx
  exact h

end Outcome

/-! ### Arithmetic -/

namespace Literal

private theorem outcome_ofAmount? (unit : Amount → Literal) {error : FoldError} (n : Option Amount)
    {t : Ty} (ht : ∀ a, (unit a).type = t) (he : error.IsOverflow) :
    Outcome (fun v ↦ v.type = t) FoldError.IsOverflow (ofAmount? unit error n) := by
  cases n with
  | none => exact he
  | some a => exact ht a

/-- An amount times a factor keeps its unit. -/
theorem outcome_scale {value : Literal} (factor : Amount) (hc : value.type ≠ .color)
    (hb : value.type ≠ .bool) :
    Outcome (fun v ↦ v.type = value.type) FoldError.IsOverflow (scale value factor) := by
  cases value with
  | bool b => exact absurd rfl hb
  | color t => exact absurd rfl hc
  | pixels n => exact outcome_ofAmount? pixels _ (fun _ ↦ rfl) ⟨_, _, _, rfl⟩
  | percentage n => exact outcome_ofAmount? percentage _ (fun _ ↦ rfl) ⟨_, _, _, rfl⟩
  | scalar n => exact outcome_ofAmount? scalar _ (fun _ ↦ rfl) ⟨_, _, _, rfl⟩

/-- Amounts of one unit are joined to an amount of that unit. -/
theorem outcome_joinAmounts (op : Operator) (join : Amount → Amount → Option Amount)
    {lhs rhs : Literal} (h : lhs.type = rhs.type) (hc : lhs.type ≠ .color) (hb : lhs.type ≠ .bool) :
    Outcome (fun v ↦ v.type = lhs.type) FoldError.IsOverflow (joinAmounts op join lhs rhs) := by
  cases lhs with
  | bool b => exact absurd rfl hb
  | color t => exact absurd rfl hc
  | pixels a =>
    cases rhs with
    | pixels b => exact outcome_ofAmount? pixels _ (fun _ ↦ rfl) ⟨_, _, _, rfl⟩
    | _ => cases h
  | percentage a =>
    cases rhs with
    | percentage b => exact outcome_ofAmount? percentage _ (fun _ ↦ rfl) ⟨_, _, _, rfl⟩
    | _ => cases h
  | scalar a =>
    cases rhs with
    | scalar b => exact outcome_ofAmount? scalar _ (fun _ ↦ rfl) ⟨_, _, _, rfl⟩
    | _ => cases h

private theorem eq_scalar_of_type {value : Literal} (h : value.type = .scalar) :
    ∃ n, value = scalar n := by
  cases value with
  | scalar n => exact ⟨n, rfl⟩
  | _ => cases h

/-- A scalar times an amount has the unit of the amount. -/
theorem outcome_multiply_left {lhs rhs : Literal} (h : lhs.type = .scalar) (hc : rhs.type ≠ .color)
    (hb : rhs.type ≠ .bool) :
    Outcome (fun v ↦ v.type = rhs.type) FoldError.IsOverflow (multiply lhs rhs) := by
  obtain ⟨n, rfl⟩ := eq_scalar_of_type h
  cases rhs with
  | scalar m => exact @outcome_scale (scalar n) m hc hb
  | bool b => exact outcome_scale n hc hb
  | color t => exact outcome_scale n hc hb
  | pixels m => exact outcome_scale n hc hb
  | percentage m => exact outcome_scale n hc hb

/-- An amount times a scalar has the unit of the amount. -/
theorem outcome_multiply_right {lhs rhs : Literal} (h : rhs.type = .scalar) (hc : lhs.type ≠ .color)
    (hb : lhs.type ≠ .bool) :
    Outcome (fun v ↦ v.type = lhs.type) FoldError.IsOverflow (multiply lhs rhs) := by
  obtain ⟨n, rfl⟩ := eq_scalar_of_type h
  cases lhs <;> exact outcome_scale n hc hb

end Literal

/-- Operands whose types go together are amounts: of one unit for a sum, and for a product one of
them a scalar. -/
theorem Operator.typeOf_eq_ok {op : Operator} {lhs rhs t : Ty} (h : op.typeOf lhs rhs = .ok t) :
    (lhs ≠ .color ∧ lhs ≠ .bool) ∧ (rhs ≠ .color ∧ rhs ≠ .bool) ∧
      if op = .multiply then lhs = .scalar ∧ t = rhs ∨ rhs = .scalar ∧ t = lhs
      else lhs = rhs ∧ t = lhs := by
  unfold Operator.typeOf at h
  split at h
  · cases h
  · next hc =>
    split at h
    · cases h
    · next hb =>
      rw [not_or] at hc hb
      refine ⟨⟨hc.1, hb.1⟩, ⟨hc.2, hb.2⟩, ?_⟩
      cases op <;> grind

/-- The result of an operation has the type that its operands' types give it, or it overflows. -/
theorem Operator.outcome_apply {op : Operator} {lhs rhs : Literal} {t : Ty}
    (h : op.typeOf lhs.type rhs.type = .ok t) :
    Outcome (fun v ↦ v.type = t) FoldError.IsOverflow (op.apply lhs rhs) := by
  have types := typeOf_eq_ok h
  have left := types.1
  have right := types.2.1
  cases op with
  | add =>
    have same := types.2.2
    rw [same.2]
    exact Literal.outcome_joinAmounts .add Amount.add? same.1 left.1 left.2
  | subtract =>
    have same := types.2.2
    rw [same.2]
    exact Literal.outcome_joinAmounts .subtract Amount.sub? same.1 left.1 left.2
  | multiply =>
    rcases types.2.2 with ⟨scalar, ht⟩ | ⟨scalar, ht⟩
    · rw [ht]
      exact Literal.outcome_multiply_left scalar right.1 right.2
    · rw [ht]
      exact Literal.outcome_multiply_right scalar left.1 left.2

/-- The same for operands whose types are both known to typing, where it finds nothing wrong. -/
theorem Operator.outcome_apply_of_check {op : Operator} {lhs rhs : Literal}
    (h : (op.check (some lhs.type) (some rhs.type)).2 = none) :
    Outcome (fun v ↦ (op.check (some lhs.type) (some rhs.type)).1 = some v.type)
      FoldError.IsOverflow (op.apply lhs rhs) := by
  cases ht : op.typeOf lhs.type rhs.type with
  | error p => simp [Operator.check, ht] at h
  | ok t =>
    have known : (op.check (some lhs.type) (some rhs.type)).1 = some t := by
      simp [Operator.check, ht]
    exact (outcome_apply ht).mono (fun v hv ↦ by rw [known, hv]) fun _ he ↦ he

/-- Operands whose types do not go together are invalid. -/
theorem Operator.apply_of_typeOf_error {op : Operator} {lhs rhs : Literal} {p : Problem}
    (h : op.typeOf lhs.type rhs.type = .error p) :
    ∃ l r, op.apply lhs rhs = .error (.invalidOperands op l r) := by
  cases op <;> cases lhs <;> cases rhs <;> first | exact ⟨_, _, rfl⟩ | cases h

/-- The types of operands that have a result go together, and the result has the type they give. -/
theorem Operator.typeOf_of_apply {op : Operator} {lhs rhs v : Literal}
    (h : op.apply lhs rhs = .ok v) : op.typeOf lhs.type rhs.type = .ok v.type := by
  cases ht : op.typeOf lhs.type rhs.type with
  | error p =>
    rcases apply_of_typeOf_error ht with ⟨l, r, herror⟩
    rw [herror] at h
    cases h
  | ok t => rw [(outcome_apply ht).of_ok h]

end FlatSheet
