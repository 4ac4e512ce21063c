import FlatSheet.Proofs.Scopes.Environment
import FlatSheet.Typing.Check

/-!
# The rules of typing

The rules by which the parts of a sheet have types and problems, apart from any pass over the sheet.
A judgement lists its verdicts, one for each node in document order: the problem of the node, or none.
Environments are passed on by value. Where no type is known of an operand, a condition or a value,
there is no further verdict for want of it; an unknown property is found wrong all the same.

The rules leave nothing open: a part of a sheet has one list of verdicts at most.
-/

namespace FlatSheet

/-- Environments for typing, in which a name may be bound to no type. -/
abbrev TypeEnvironment := Environment (Option Ty)

/-- What is found wrong with each node, in document order. -/
abbrev Verdicts := List (Option Problem)

/-- Nothing is wrong with any of some nodes. -/
def Verdicts.clear (count : Nat) : Verdicts := List.replicate count none

/-- The type of amounts in some unit. -/
def Ty.IsAmount (t : Ty) : Prop := t ≠ .color ∧ t ≠ .bool

/-! ### The rules -/

/-- An operand that is itself a color or a truth value is unfit for arithmetic. -/
inductive Expr.Unfit : Expr → Problem → Prop
  | color (text : String) (m : Mark) : Unfit (literal (.color text) m) .colorOperand
  | bool (b : Bool) (m : Mark) : Unfit (literal (.bool b) m) .boolOperand

/-- The type of an operation on operands of two types, and what is wrong with the operation. -/
inductive Operator.Judged : Operator → Option Ty → Option Ty → Option Ty → Option Problem → Prop
  -- What is not known is not judged.
  | unknownLeft (op : Operator) (rhs : Option Ty) : Judged op none rhs none none
  | unknownRight (op : Operator) (lhs : Option Ty) : Judged op lhs none none none
  -- Colors and truth values have no arithmetic; a color is found wrong before a truth value.
  | color (op : Operator) {lhs rhs : Ty} : lhs = .color ∨ rhs = .color →
    Judged op (some lhs) (some rhs) none (some .colorOperand)
  | bool (op : Operator) {lhs rhs : Ty} : lhs ≠ .color → rhs ≠ .color → lhs = .bool ∨ rhs = .bool →
    Judged op (some lhs) (some rhs) none (some .boolOperand)
  -- A sum or a difference joins amounts of one unit.
  | sum {op : Operator} {t : Ty} : op ≠ .multiply → t.IsAmount →
    Judged op (some t) (some t) (some t) none
  | mismatch {op : Operator} {lhs rhs : Ty} : op ≠ .multiply → lhs.IsAmount → rhs.IsAmount →
    lhs ≠ rhs → Judged op (some lhs) (some rhs) none (some .operandMismatch)
  -- A product has a scalar on either side, and the unit of the other.
  | scalarLeft {t : Ty} : t.IsAmount → Judged .multiply (some .scalar) (some t) (some t) none
  | scalarRight {t : Ty} : t.IsAmount → Judged .multiply (some t) (some .scalar) (some t) none
  | noScalar {lhs rhs : Ty} : lhs.IsAmount → rhs.IsAmount → lhs ≠ .scalar → rhs ≠ .scalar →
    Judged .multiply (some lhs) (some rhs) none (some .multiplyWithoutScalar)

/-- The type of an expression, or none, and its verdicts. -/
inductive Expr.Judged (env : TypeEnvironment) : Expr → Option Ty → Verdicts → Prop
  | literal (value : Literal) (m : Mark) : Judged env (literal value m) (some value.type) [none]
  | bound {name : String} {t : Option Ty} (m : Mark) : env name = some t →
    Judged env (reference name m) t [none]
  | unbound {name : String} (m : Mark) : env name = none →
    Judged env (reference name m) none [some (.undefinedVariable name)]
  -- The first unfit operand is found wrong, and nothing else in the operation is looked at.
  | unfitLeft {lhs : Expr} {p : Problem} (op : Operator) (rhs : Expr) (m : Mark) : lhs.Unfit p →
    Judged env (operation op lhs rhs m) none (none :: some p :: Verdicts.clear rhs.size)
  | unfitRight {lhs rhs : Expr} {p : Problem} (op : Operator) (m : Mark) :
    (∀ q, ¬ lhs.Unfit q) → rhs.Unfit p →
    Judged env (operation op lhs rhs m) none (none :: (Verdicts.clear lhs.size ++ [some p]))
  | operation {op : Operator} {lhs rhs : Expr} {l r t : Option Ty} {p : Option Problem}
    {vl vr : Verdicts} (m : Mark) : (∀ q, ¬ lhs.Unfit q) → (∀ q, ¬ rhs.Unfit q) →
    lhs.Judged env l vl → rhs.Judged env r vr → op.Judged l r t p →
    Judged env (operation op lhs rhs m) t (p :: (vl ++ vr))

/-- The verdicts of a condition. One that has a type other than that of truth values is wrong. -/
inductive Expr.JudgedCondition (env : TypeEnvironment) : Expr → Verdicts → Prop
  | truth {c : Expr} {vs : Verdicts} : c.Judged env (some .bool) vs → JudgedCondition env c vs
  | unknown {c : Expr} {vs : Verdicts} : c.Judged env none vs → JudgedCondition env c vs
  | other {c : Expr} {t : Ty} {own : Option Problem} {vs : Verdicts} :
    c.Judged env (some t) (own :: vs) → t ≠ .bool →
    JudgedCondition env c (some .conditionNotBoolean :: vs)

/-- What is wrong with a declaration whose value has a type, or none. -/
inductive Property.Judged (property : String) : Option Ty → Option Problem → Prop
  | unknownProperty (t : Option Ty) : (∀ row ∈ table, row.name ≠ property) →
    Judged property t (some (.unknownProperty property))
  | unknownType {row : Property} : row ∈ table → row.name = property → Judged property none none
  | fit {row : Property} {t : Ty} : row ∈ table → row.name = property → t ∈ row.allowed →
    Judged property (some t) none
  | unfit {row : Property} {t : Ty} : row ∈ table → row.name = property → t ∉ row.allowed →
    Judged property (some t) (some (.propertyType property row.description))

/-- The environment after the items of a block, and their verdicts. -/
inductive Block.Judged : TypeEnvironment → Block → TypeEnvironment → Verdicts → Prop
  | empty (env : TypeEnvironment) : Judged env empty env []
  | declaration {env after : TypeEnvironment} {d : Declaration} {rest : Block} {t : Option Ty}
    {p : Option Problem} {vs others : Verdicts} : d.value.Judged env t vs →
    Property.Judged d.property t p → rest.Judged env after others →
    Judged env (declaration d rest) after (p :: (vs ++ others))
  | assignment {env after : TypeEnvironment} {a : Assignment} {rest : Block} {t : Option Ty}
    {vs others : Verdicts} : a.value.Judged env t vs → rest.Judged (env.bind a.name t) after others →
    Judged env (assignment a rest) after (none :: (vs ++ others))
  -- What a branch binds is not seen after it.
  | ifThen {env inner after : TypeEnvironment} {c : Expr} {body rest : Block}
    {vc vb others : Verdicts} (m : Mark) : c.JudgedCondition env vc → body.Judged env inner vb →
    rest.Judged env after others →
    Judged env (ifThen c body m rest) after (none :: (vc ++ vb ++ others))
  -- The second branch sees what the first one binds.
  | ifElse {env inner last after : TypeEnvironment} {c : Expr} {body other rest : Block}
    {vc vb vo others : Verdicts} (m om : Mark) : c.JudgedCondition env vc →
    body.Judged env inner vb → other.Judged inner last vo → rest.Judged env after others →
    Judged env (ifElse c body m other om rest) after (none :: (vc ++ vb ++ none :: vo ++ others))

/-- The verdicts of some members. What a rule binds is not seen after it. -/
inductive Member.Judged : TypeEnvironment → List Member → Verdicts → Prop
  | nil (env : TypeEnvironment) : Judged env [] []
  | rule {env after : TypeEnvironment} {r : Rule} {members : List Member} {vs others : Verdicts} :
    r.body.Judged env after vs → Judged env members others →
    Judged env (.rule r :: members)
      (none :: (Verdicts.clear r.selectors.length ++ vs ++ others))
  | assignment {env : TypeEnvironment} {a : Assignment} {members : List Member} {t : Option Ty}
    {vs others : Verdicts} : a.value.Judged env t vs →
    Judged (env.bind a.name t) members others →
    Judged env (.assignment a :: members) (none :: (vs ++ others))

/-- The verdicts of a sheet, the first of which is that of the sheet itself. -/
inductive Sheet.Judged (env : TypeEnvironment) : Sheet → Verdicts → Prop
  | sheet {s : Sheet} {vs : Verdicts} : Member.Judged env s.members vs →
    Judged env s (none :: vs)

/-! ### The rules leave nothing open -/

/-- One problem makes an operand unfit. -/
theorem Expr.Unfit.unique {e : Expr} {p q : Problem} (hp : e.Unfit p) (hq : e.Unfit q) : p = q := by
  cases hp <;> cases hq <;> rfl

/-- The types of its operands settle the type of an operation and what is wrong with it. -/
theorem Operator.Judged.unique {op : Operator} {l r t t' : Option Ty} {p p' : Option Problem}
    (h : op.Judged l r t p) (h' : op.Judged l r t' p') : t = t' ∧ p = p' := by
  cases h <;> cases h' <;> simp_all [Ty.IsAmount]

/-- An expression has one type at most, and one list of verdicts. -/
theorem Expr.Judged.unique {env : TypeEnvironment} {e : Expr} {t t' : Option Ty}
    {vs vs' : Verdicts} (h : e.Judged env t vs) (h' : e.Judged env t' vs') : t = t' ∧ vs = vs' := by
  induction h generalizing t' vs' with
  | literal value m =>
    cases h'
    exact ⟨rfl, rfl⟩
  | bound m hname =>
    cases h' with
    | bound _ hname' =>
      rw [hname] at hname'
      exact ⟨Option.some.inj hname', rfl⟩
    | unbound _ hname' =>
      rw [hname] at hname'
      cases hname'
  | unbound m hname =>
    cases h' with
    | bound _ hname' =>
      rw [hname] at hname'
      cases hname'
    | unbound => exact ⟨rfl, rfl⟩
  | unfitLeft op rhs m hl =>
    cases h' with
    | unfitLeft _ _ _ hl' =>
      rw [hl.unique hl']
      exact ⟨rfl, rfl⟩
    | unfitRight _ _ fit => exact absurd hl (fit _)
    | operation _ fit => exact absurd hl (fit _)
  | unfitRight op m fit hr =>
    cases h' with
    | unfitLeft _ _ _ hl' => exact absurd hl' (fit _)
    | unfitRight _ _ _ hr' =>
      rw [hr.unique hr']
      exact ⟨rfl, rfl⟩
    | operation _ _ fit' => exact absurd hr (fit' _)
  | operation m fitl fitr _ _ hop ihl ihr =>
    cases h' with
    | unfitLeft _ _ _ hl' => exact absurd hl' (fitl _)
    | unfitRight _ _ _ hr' => exact absurd hr' (fitr _)
    | operation _ _ _ hl' hr' hop' =>
      have left := ihl hl'
      have right := ihr hr'
      rw [← left.1, ← right.1] at hop'
      have both := hop.unique hop'
      rw [both.1, both.2, left.2, right.2]
      exact ⟨rfl, rfl⟩

/-- A condition has one list of verdicts at most. -/
theorem Expr.JudgedCondition.unique {env : TypeEnvironment} {c : Expr} {vs vs' : Verdicts}
    (h : c.JudgedCondition env vs) (h' : c.JudgedCondition env vs') : vs = vs' := by
  cases h with
  | truth h =>
    cases h' with
    | truth h' => exact (h.unique h').2
    | unknown h' => exact (h.unique h').2
    | other h' ne =>
      have types := (h.unique h').1
      exact absurd (Option.some.inj types).symm ne
  | unknown h =>
    cases h' with
    | truth h' => exact (h.unique h').2
    | unknown h' => exact (h.unique h').2
    | other h' ne =>
      have types := (h.unique h').1
      cases types
  | other h ne =>
    cases h' with
    | truth h' =>
      have types := (h.unique h').1
      exact absurd (Option.some.inj types) ne
    | unknown h' =>
      have types := (h.unique h').1
      cases types
    | other h' _ =>
      have verdicts := (h.unique h').2
      rw [(List.cons.inj verdicts).2]

/-- No two rows of the table have one name. -/
theorem Property.table_unique {a b : Property} (ha : a ∈ table) (hb : b ∈ table)
    (h : a.name = b.name) : a = b := by
  have distinct : ∀ a ∈ table, ∀ b ∈ table, a.name = b.name → a = b := by decide
  exact distinct a ha b hb h

/-- The type of its value settles what is wrong with a declaration. -/
theorem Property.Judged.unique {property : String} {t : Option Ty} {p p' : Option Problem}
    (h : Property.Judged property t p) (h' : Property.Judged property t p') : p = p' := by
  cases h with
  | unknownProperty _ none =>
    cases h' with
    | unknownProperty => rfl
    | unknownType mem name => exact absurd name (none _ mem)
    | fit mem name => exact absurd name (none _ mem)
    | unfit mem name => exact absurd name (none _ mem)
  | unknownType mem name =>
    cases h' with
    | unknownProperty _ none => exact absurd name (none _ mem)
    | unknownType => rfl
  | fit mem name allowed =>
    cases h' with
    | unknownProperty _ none => exact absurd name (none _ mem)
    | fit => rfl
    | unfit mem' name' allowed' =>
      rw [table_unique mem mem' (name.trans name'.symm)] at allowed
      exact absurd allowed allowed'
  | unfit mem name allowed =>
    cases h' with
    | unknownProperty _ none => exact absurd name (none _ mem)
    | fit mem' name' allowed' =>
      rw [table_unique mem mem' (name.trans name'.symm)] at allowed
      exact absurd allowed' allowed
    | unfit mem' name' => rw [table_unique mem mem' (name.trans name'.symm)]

/-- A block leaves one environment at most, and has one list of verdicts. -/
theorem Block.Judged.unique {env after after' : TypeEnvironment} {b : Block} {vs vs' : Verdicts}
    (h : b.Judged env after vs) (h' : b.Judged env after' vs') : after = after' ∧ vs = vs' := by
  induction h generalizing after' vs' with
  | empty env =>
    cases h'
    exact ⟨rfl, rfl⟩
  | declaration hvalue hproperty _ ih =>
    cases h' with
    | declaration hvalue' hproperty' hrest' =>
      have value := hvalue.unique hvalue'
      rw [← value.1] at hproperty'
      have rest := ih hrest'
      rw [hproperty.unique hproperty', value.2, rest.1, rest.2]
      exact ⟨rfl, rfl⟩
  | assignment hvalue _ ih =>
    cases h' with
    | assignment hvalue' hrest' =>
      have value := hvalue.unique hvalue'
      rw [← value.1] at hrest'
      have rest := ih hrest'
      rw [value.2, rest.1, rest.2]
      exact ⟨rfl, rfl⟩
  | ifThen m hc _ _ ihBody ih =>
    cases h' with
    | ifThen _ hc' hbody' hrest' =>
      have body := ihBody hbody'
      have rest := ih hrest'
      rw [hc.unique hc', body.2, rest.1, rest.2]
      exact ⟨rfl, rfl⟩
  | ifElse m om hc _ _ _ ihBody ihOther ih =>
    cases h' with
    | ifElse _ _ hc' hbody' hother' hrest' =>
      have body := ihBody hbody'
      rw [← body.1] at hother'
      have other := ihOther hother'
      have rest := ih hrest'
      rw [hc.unique hc', body.2, other.2, rest.1, rest.2]
      exact ⟨rfl, rfl⟩

/-- Members have one list of verdicts at most. -/
theorem Member.Judged.unique {env : TypeEnvironment} {members : List Member} {vs vs' : Verdicts}
    (h : Member.Judged env members vs) (h' : Member.Judged env members vs') : vs = vs' := by
  induction h generalizing vs' with
  | nil env =>
    cases h'
    rfl
  | rule hbody _ ih =>
    cases h' with
    | rule hbody' hmembers' => rw [(hbody.unique hbody').2, ih hmembers']
  | assignment hvalue _ ih =>
    cases h' with
    | assignment hvalue' hmembers' =>
      have value := hvalue.unique hvalue'
      rw [← value.1] at hmembers'
      rw [value.2, ih hmembers']

/-- A sheet has one list of verdicts at most. -/
theorem Sheet.Judged.unique {env : TypeEnvironment} {s : Sheet} {vs vs' : Verdicts}
    (h : s.Judged env vs) (h' : s.Judged env vs') : vs = vs' := by
  cases h with
  | sheet h =>
    cases h' with
    | sheet h' => rw [h.unique h']

end FlatSheet
