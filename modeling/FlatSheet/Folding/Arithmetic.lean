import FlatSheet.Expr

/-!
# Arithmetic on literals

Sums and differences join two amounts of one unit. A product has a scalar factor, on either side, and
the unit of its other side. Results that are no amounts overflow.
-/

namespace FlatSheet

/-- Why a sheet cannot be flattened. -/
inductive FoldError where
  | unboundVariable (name : String)
  | invalidOperands (op : Operator) (lhs rhs : Literal)
  | conditionNotBoolean (found : Literal)
  | overflow (op : Operator) (lhs rhs : Literal)
deriving DecidableEq

/-- The message of an error. -/
def FoldError.message : FoldError → String
  | unboundVariable name => "internal error: variable " ++ name ++ " has no value in scope"
  | invalidOperands op lhs rhs =>
    "internal error: cannot apply " ++ op.text ++ " to " ++ lhs.text ++ " and " ++ rhs.text
  | conditionNotBoolean found =>
    "internal error: if condition evaluated to " ++ found.text ++ ", expected a boolean"
  | overflow op lhs rhs =>
    "internal error: arithmetic overflow in " ++ lhs.text ++ " " ++ op.text ++ " " ++ rhs.text

namespace Literal

/-- A literal from a result that may be out of the range of amounts. -/
def ofAmount? (unit : Amount → Literal) (error : FoldError) : Option Amount → Except FoldError Literal
  | some n => .ok (unit n)
  | none => .error error

/-- A value times a factor. -/
def scale (value : Literal) (factor : Amount) : Except FoldError Literal :=
  let overflow := .overflow .multiply value (scalar factor)
  match value with
  | pixels n => ofAmount? pixels overflow (n.mul? factor)
  | percentage n => ofAmount? percentage overflow (n.mul? factor)
  | scalar n => ofAmount? scalar overflow (n.mul? factor)
  | _ => .error (.invalidOperands .multiply value (scalar factor))

/-- The product of two literals. A scalar on the left is the factor unless both are scalars. -/
def multiply : Literal → Literal → Except FoldError Literal
  | scalar n, scalar factor => scale (scalar n) factor
  | scalar factor, value => scale value factor
  | value, scalar factor => scale value factor
  | lhs, rhs => .error (.invalidOperands .multiply lhs rhs)

/-- The amounts of two literals joined by a function, if they have one unit. -/
def joinAmounts (op : Operator) (join : Amount → Amount → Option Amount) :
    Literal → Literal → Except FoldError Literal
  | pixels a, pixels b => ofAmount? pixels (.overflow op (pixels a) (pixels b)) (join a b)
  | percentage a, percentage b =>
    ofAmount? percentage (.overflow op (percentage a) (percentage b)) (join a b)
  | scalar a, scalar b => ofAmount? scalar (.overflow op (scalar a) (scalar b)) (join a b)
  | lhs, rhs => .error (.invalidOperands op lhs rhs)

end Literal

/-- The result of an operation. -/
def Operator.apply : Operator → Literal → Literal → Except FoldError Literal
  | add => Literal.joinAmounts add Amount.add?
  | subtract => Literal.joinAmounts subtract Amount.sub?
  | multiply => Literal.multiply

end FlatSheet
