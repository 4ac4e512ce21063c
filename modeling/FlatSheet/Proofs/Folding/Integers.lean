import FlatSheet.Proofs.Folding.Operations
import FlatSheet.Proofs.Scopes.Environment
import FlatSheet.Proofs.Typing.Judgement
import FlatSheet.Proofs.Typing.Soundness
import FlatSheet.Proofs.Typing.Typed

/-!
# Folding is exact

An expression whose type is a unit of amounts denotes an integer, without any bound. Folding gives that
integer in that unit, as long as the integers that the operations in the expression denote are all in
the range of amounts; if one of them is not, folding overflows.
-/

namespace FlatSheet

/-- An integer from `-2 ^ 63` up to `2 ^ 63 - 1`. -/
def Amount.InRange (n : Int) : Prop := -9223372036854775808 ≤ n ∧ n ≤ 9223372036854775807

/-- An integer in the range is the value of an amount. -/
theorem Amount.InRange.exists_ofInt? {n : Int} (h : InRange n) :
    ∃ a, ofInt? n = some a ∧ a.value = n := by
  obtain ⟨low, high⟩ := h
  have found : ofInt? n = some ⟨n, by omega, by omega⟩ := ofInt?_eq_some_iff.mpr rfl
  exact ⟨_, found, rfl⟩

/-- An integer out of the range is no amount. -/
theorem Amount.ofInt?_of_not_inRange {n : Int} (h : ¬ InRange n) : ofInt? n = none := by
  rw [ofInt?_eq_none_iff]
  unfold InRange at h
  omega

/-- The integer in a value, if there is one. -/
def Literal.integer? : Literal → Option Int
  | bool _ => none
  | color _ => none
  | pixels n => some n.value
  | percentage n => some n.value
  | scalar n => some n.value

/-- A value whose type is a unit of amounts has an integer. -/
theorem Literal.exists_integer? {v : Literal} (h : v.type.IsAmount) : ∃ n, v.integer? = some n := by
  cases v with
  | bool b => exact absurd rfl h.2
  | color t => exact absurd rfl h.1
  | pixels n => exact ⟨n.value, rfl⟩
  | percentage n => exact ⟨n.value, rfl⟩
  | scalar n => exact ⟨n.value, rfl⟩

/-- The operators on integers. -/
def Operator.onIntegers : Operator → Int → Int → Int
  | add, a, b => a + b
  | subtract, a, b => a - b
  | multiply, a, b => a * b

/-- The integer that an expression denotes; units do not matter to it. There is none if a color or a
truth value is in the expression, or a name without a value. -/
def Expr.integer? (env : Environment Literal) : Expr → Option Int
  | literal value _ => value.integer?
  | reference name _ => (env name).bind Literal.integer?
  | operation op lhs rhs _ => do
    let a ← lhs.integer? env
    let b ← rhs.integer? env
    return op.onIntegers a b

/-! ### Arithmetic is exact -/

/-- A result is an integer in the unit of a type, or overflows where the integer is no amount. -/
structure IsExact (t : Ty) (n : Int) (result : Except FoldError Literal) : Prop where
  value : Amount.InRange n → ∃ v, result = .ok v ∧ v.type = t ∧ v.integer? = some n
  overflow : ¬ Amount.InRange n → ∃ error, result = .error error ∧ error.IsOverflow

namespace Literal

private theorem isExact_ofAmount? {unit : Amount → Literal} {t : Ty} {error : FoldError} {n : Int}
    (type : ∀ a, (unit a).type = t) (integer : ∀ a, (unit a).integer? = some a.value)
    (overflow : error.IsOverflow) : IsExact t n (ofAmount? unit error (Amount.ofInt? n)) := by
  constructor
  · intro inRange
    obtain ⟨a, found, rfl⟩ := inRange.exists_ofInt?
    rw [found]
    exact ⟨unit a, rfl, type a, integer a⟩
  · intro outside
    rw [Amount.ofInt?_of_not_inRange outside]
    exact ⟨error, rfl, overflow⟩

/-- Amounts of one unit are joined as their integers are. -/
theorem isExact_joinAmounts (op : Operator) {join : Amount → Amount → Option Amount}
    {f : Int → Int → Int} (exact : ∀ a b, join a b = Amount.ofInt? (f a.value b.value))
    {lhs rhs : Literal} {a b : Int} (same : lhs.type = rhs.type) (hl : lhs.integer? = some a)
    (hr : rhs.integer? = some b) : IsExact lhs.type (f a b) (joinAmounts op join lhs rhs) := by
  cases lhs with
  | bool _ => cases hl
  | color _ => cases hl
  | pixels n =>
    cases rhs with
    | pixels k =>
      cases hl
      cases hr
      rw [joinAmounts, exact]
      exact isExact_ofAmount? (fun _ ↦ rfl) (fun _ ↦ rfl) ⟨_, _, _, rfl⟩
    | _ => cases same
  | percentage n =>
    cases rhs with
    | percentage k =>
      cases hl
      cases hr
      rw [joinAmounts, exact]
      exact isExact_ofAmount? (fun _ ↦ rfl) (fun _ ↦ rfl) ⟨_, _, _, rfl⟩
    | _ => cases same
  | scalar n =>
    cases rhs with
    | scalar k =>
      cases hl
      cases hr
      rw [joinAmounts, exact]
      exact isExact_ofAmount? (fun _ ↦ rfl) (fun _ ↦ rfl) ⟨_, _, _, rfl⟩
    | _ => cases same

/-- A value times a factor is their product. -/
theorem isExact_scale {value : Literal} {a : Int} (h : value.integer? = some a) (factor : Amount) :
    IsExact value.type (a * factor.value) (scale value factor) := by
  cases value with
  | bool _ => cases h
  | color _ => cases h
  | pixels n =>
    cases h
    exact isExact_ofAmount? (fun _ ↦ rfl) (fun _ ↦ rfl) ⟨_, _, _, rfl⟩
  | percentage n =>
    cases h
    exact isExact_ofAmount? (fun _ ↦ rfl) (fun _ ↦ rfl) ⟨_, _, _, rfl⟩
  | scalar n =>
    cases h
    exact isExact_ofAmount? (fun _ ↦ rfl) (fun _ ↦ rfl) ⟨_, _, _, rfl⟩

/-- A scalar times a value is their product, in the unit of the value. -/
theorem isExact_multiply_left (n : Amount) {value : Literal} {b : Int} (h : value.integer? = some b) :
    IsExact value.type (n.value * b) (multiply (scalar n) value) := by
  cases value with
  | bool _ => cases h
  | color _ => cases h
  | pixels k =>
    rw [Int.mul_comm]
    exact isExact_scale h n
  | percentage k =>
    rw [Int.mul_comm]
    exact isExact_scale h n
  | scalar k =>
    cases h
    exact @isExact_scale (scalar n) _ rfl k

/-- A value times a scalar is their product, in the unit of the value. -/
theorem isExact_multiply_right (n : Amount) {value : Literal} {a : Int}
    (h : value.integer? = some a) :
    IsExact value.type (a * n.value) (multiply value (scalar n)) := by
  cases value <;> exact isExact_scale h n

private theorem eq_scalar {value : Literal} {n : Int} (type : value.type = .scalar)
    (h : value.integer? = some n) : ∃ k : Amount, value = scalar k ∧ k.value = n := by
  cases value with
  | scalar k =>
    cases h
    exact ⟨k, rfl, rfl⟩
  | _ => cases type

end Literal

/-- An operation on values whose types go together is that on their integers. -/
theorem Operator.isExact_apply {op : Operator} {l r : Literal} {t : Ty} {a b : Int}
    (type : op.typeOf l.type r.type = .ok t) (hl : l.integer? = some a) (hr : r.integer? = some b) :
    IsExact t (op.onIntegers a b) (op.apply l r) := by
  have types := (typeOf_eq_ok type).2.2
  cases op with
  | add =>
    obtain ⟨same, rfl⟩ : l.type = r.type ∧ t = l.type := types
    exact Literal.isExact_joinAmounts .add (f := (· + ·)) (fun _ _ ↦ rfl) same hl hr
  | subtract =>
    obtain ⟨same, rfl⟩ : l.type = r.type ∧ t = l.type := types
    exact Literal.isExact_joinAmounts .subtract (f := (· - ·)) (fun _ _ ↦ rfl) same hl hr
  | multiply =>
    obtain ⟨scalar, rfl⟩ | ⟨scalar, rfl⟩ :
      l.type = .scalar ∧ t = r.type ∨ r.type = .scalar ∧ t = l.type := types
    · obtain ⟨n, rfl, rfl⟩ := Literal.eq_scalar scalar hl
      exact Literal.isExact_multiply_left n hr
    · obtain ⟨n, rfl, rfl⟩ := Literal.eq_scalar scalar hr
      exact Literal.isExact_multiply_right n hl

/-! ### Expressions -/

namespace Expr

/-- The integer of an expression is in the range. -/
def Fits (env : Environment Literal) (e : Expr) : Prop :=
  ∃ n, e.integer? env = some n ∧ Amount.InRange n

/-- An expression denotes an integer. It folds to this integer in the unit of a type when all operations in
it fit, and overflows when one does not. -/
structure Denotes (e : Expr) (values : ValueScopes) (t : Ty) (n : Int) : Prop where
  integer : e.integer? values.lookup = some n
  folds : (∀ node ∈ e.operations, node.Fits values.lookup) →
    ∃ v, e.fold values = .ok v ∧ v.type = t ∧ v.integer? = some n
  overflows : (¬ ∀ node ∈ e.operations, node.Fits values.lookup) →
    ∃ error, e.fold values = .error error ∧ error.IsOverflow

/-- An operation denotes what its operator makes of the integers of its operands. -/
theorem Denotes.operation {op : Operator} {lhs rhs : Expr} {m : Mark} {values : ValueScopes}
    {tl tr t : Ty} {a b : Int} (type : op.typeOf tl tr = .ok t) (left : lhs.Denotes values tl a)
    (right : rhs.Denotes values tr b) :
    (operation op lhs rhs m).Denotes values t (op.onIntegers a b) := by
  have integer : (Expr.operation op lhs rhs m).integer? values.lookup =
      some (op.onIntegers a b) := by
    rw [integer?, left.integer, right.integer]
    rfl
  have own : (Expr.operation op lhs rhs m).Fits values.lookup ↔
      Amount.InRange (op.onIntegers a b) := by
    rw [Fits, integer]
    simp
  refine ⟨integer, fun fit ↦ ?_, fun unfit ↦ ?_⟩
  · obtain ⟨fitl, fitr, fit⟩ := forall_operations.mp fit
    obtain ⟨l, hl, rfl, hla⟩ := left.folds fitl
    obtain ⟨r, hr, rfl, hrb⟩ := right.folds fitr
    obtain ⟨v, hv, known⟩ := (Operator.isExact_apply type hla hrb).value (own.mp fit)
    exact ⟨v, fold_operation_eq_ok_iff.mpr ⟨l, r, hl, hr, hv⟩, known⟩
  · -- The first part of the operation that does not fit is where folding stops.
    simp only [fold_operation_eq_error_iff]
    by_cases fitl : ∀ node ∈ lhs.operations, node.Fits values.lookup
    · obtain ⟨l, hl, rfl, hla⟩ := left.folds fitl
      by_cases fitr : ∀ node ∈ rhs.operations, node.Fits values.lookup
      · obtain ⟨r, hr, rfl, hrb⟩ := right.folds fitr
        have outside : ¬ Amount.InRange (op.onIntegers a b) := fun inRange ↦
          unfit (forall_operations.mpr ⟨fitl, fitr, own.mpr inRange⟩)
        obtain ⟨error, herror, overflow⟩ := (Operator.isExact_apply type hla hrb).overflow outside
        exact ⟨error, .inr ⟨l, hl, .inr ⟨r, hr, herror⟩⟩, overflow⟩
      · obtain ⟨error, herror, overflow⟩ := right.overflows fitr
        exact ⟨error, .inr ⟨l, hl, .inl herror⟩, overflow⟩
    · obtain ⟨error, herror, overflow⟩ := left.overflows fitl
      exact ⟨error, .inl herror, overflow⟩

/-- An expression whose type is a unit of amounts denotes an integer in that unit. -/
theorem exists_denotes {e : Expr} {run : TypeScopes} {values : ValueScopes} {t : Ty}
    (types : run.TypesOf values) (typed : (e.check run).2 = some t) (amount : t.IsAmount) :
    ∃ n, e.Denotes values t n := by
  induction e generalizing t with
  | literal value m =>
    cases typed
    obtain ⟨n, hn⟩ := Literal.exists_integer? amount
    exact ⟨n, hn, fun _ ↦ ⟨value, rfl, rfl, hn⟩, fun unfit ↦ absurd nofun unfit⟩
  | reference name m =>
    have bound : run.lookup name = some (some t) := by
      unfold check at typed
      split at typed
      · next found =>
        cases typed
        exact found
      · cases typed
    rw [types name, Option.map_eq_some_iff] at bound
    obtain ⟨v, hv, type⟩ := bound
    obtain rfl := Option.some.inj type
    obtain ⟨n, hn⟩ := Literal.exists_integer? amount
    refine ⟨n, ?_, fun _ ↦ ⟨v, ?_, rfl, hn⟩, fun unfit ↦ absurd nofun unfit⟩
    · rw [integer?, hv, Option.bind_some, hn]
    · rw [fold, hv]
  | operation op lhs rhs m ihl ihr =>
    obtain ⟨-, -, result⟩ := check_operation_snd_eq_some_iff.mp typed
    obtain ⟨tl, tr, typedl, typedr, type⟩ := Operator.check_fst_eq_some_iff.mp result
    obtain ⟨amountl, amountr, -⟩ := Operator.typeOf_eq_ok type
    obtain ⟨a, left⟩ := ihl typedl amountl
    obtain ⟨b, right⟩ := ihr typedr amountr
    exact ⟨op.onIntegers a b, left.operation type right⟩

/-- All operations in an expression that denotes an integer denote integers. -/
theorem exists_integer?_of_mem_operations {env : Environment Literal} {e : Expr} {n : Int}
    (h : e.integer? env = some n) : ∀ node ∈ e.operations, ∃ k, node.integer? env = some k := by
  induction e generalizing n with
  | literal value m => nofun
  | reference name m => nofun
  | operation op lhs rhs m ihl ihr =>
    obtain ⟨a, ha, hb⟩ := Option.bind_eq_some_iff.mp h
    obtain ⟨b, hb, -⟩ := Option.bind_eq_some_iff.mp hb
    rw [forall_operations]
    exact ⟨ihl ha, ihr hb, n, h⟩

/-- Folding is exact. An expression whose type is a unit of amounts denotes an integer, as all
operations in it do. It folds exactly when the integers of all the operations are in the range, then to
the integer of the expression in the unit of its type; otherwise it overflows. -/
theorem fold_exact {e : Expr} {run : TypeScopes} {values : ValueScopes} {t : Ty}
    (types : run.TypesOf values) (typed : (e.check run).2 = some t) (amount : t.IsAmount) :
    ∃ n, e.integer? values.lookup = some n ∧
      (∀ node ∈ e.operations, ∃ k, node.integer? values.lookup = some k) ∧
      ((∃ v, e.fold values = .ok v) ↔
        ∀ node ∈ e.operations, ∃ k, node.integer? values.lookup = some k ∧ Amount.InRange k) ∧
      (∀ v, e.fold values = .ok v → v.type = t ∧ v.integer? = some n) ∧
      ∀ error, e.fold values = .error error → error.IsOverflow := by
  obtain ⟨n, integer, folds, overflows⟩ := exists_denotes types typed amount
  refine ⟨n, integer, exists_integer?_of_mem_operations integer, ?_⟩
  by_cases fit : ∀ node ∈ e.operations, node.Fits values.lookup
  · obtain ⟨v, hv, known⟩ := folds fit
    refine ⟨⟨fun _ ↦ fit, fun _ ↦ ⟨v, hv⟩⟩, fun w hw ↦ ?_, fun error herror ↦ ?_⟩
    · cases hv.symm.trans hw
      exact known
    · cases hv.symm.trans herror
  · obtain ⟨error, herror, overflow⟩ := overflows fit
    refine ⟨⟨fun ⟨v, hv⟩ ↦ ?_, fun fit' ↦ absurd fit' fit⟩, fun v hv ↦ ?_, fun other hother ↦ ?_⟩
    · cases herror.symm.trans hv
    · cases herror.symm.trans hv
    · cases herror.symm.trans hother
      exact overflow

/-- Twice the greatest amount less itself is the greatest amount, and overflows nevertheless: the
product is out of the range. The least amount is in the range. -/
theorem fold_exact_at_limits :
    let m := Mark.clean .unknown
    let globals : List (String × Literal) := [("N", .scalar ⟨2, by decide, by decide⟩),
      ("NEGATIVE", .scalar ⟨-1, by decide, by decide⟩),
      ("W", .pixels ⟨9223372036854775807, by decide, by decide⟩),
      ("ONE", .pixels ⟨1, by decide, by decide⟩)]
    let values : ValueScopes := .ofGlobals globals
    let product (factor : String) : Expr :=
      .operation .multiply (.reference factor m) (.reference "W" m) m
    let most : Expr := .operation .subtract (product "N") (.reference "W" m) m
    let least : Expr := .operation .subtract (product "NEGATIVE") (.reference "ONE" m) m
    most.integer? values.lookup = some 9223372036854775807 ∧
      (∃ error, most.fold values = .error error ∧ error.IsOverflow) ∧
      ∃ v, least.fold values = .ok v ∧ v.type = .pixels ∧ v.integer? = some (-9223372036854775808) := by
  intro m globals values product most least
  have types : (TypeScopes.ofGlobals globals).TypesOf values := Scopes.TypesOf.ofGlobals globals
  have amount : Ty.pixels.IsAmount := ⟨nofun, nofun⟩
  have typedMost : (most.check (.ofGlobals globals)).2 = some .pixels := by decide
  have typedLeast : (least.check (.ofGlobals globals)).2 = some .pixels := by decide
  have operations : most.operations = [product "N", most] := rfl
  have operations' : least.operations = [product "NEGATIVE", least] := rfl
  obtain ⟨-, -, -, folds, -, overflows⟩ := fold_exact types typedMost amount
  obtain ⟨n, integer, -, folds', exact, -⟩ := fold_exact types typedLeast amount
  refine ⟨by decide, ?_, ?_⟩
  · cases h : most.fold values with
    | error error => exact ⟨error, rfl, overflows error h⟩
    | ok v =>
      obtain ⟨k, hk, inRange⟩ := folds.mp ⟨v, h⟩ (product "N") (by simp [operations])
      have double : (product "N").integer? values.lookup = some 18446744073709551614 := by decide
      cases double.symm.trans hk
      exact absurd inRange.2 (by decide)
  · have fit : ∀ node ∈ least.operations,
        ∃ k, node.integer? values.lookup = some k ∧ Amount.InRange k := by
      rw [operations', List.forall_mem_cons, List.forall_mem_singleton]
      exact ⟨⟨-9223372036854775807, by decide, by decide, by decide⟩,
        -9223372036854775808, by decide, by decide, by decide⟩
    obtain ⟨v, hv⟩ := folds'.mpr fit
    have bottom : least.integer? values.lookup = some (-9223372036854775808) := by decide
    cases bottom.symm.trans integer
    exact ⟨v, hv, exact v hv⟩

end Expr

end FlatSheet
