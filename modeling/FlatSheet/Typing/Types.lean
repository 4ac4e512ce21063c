import FlatSheet.Expr

/-!
# Types

Each kind of literal is a type. The type of an operation follows from those of its operands: colors and
truth values have no arithmetic, sums join equal types, and a product needs a scalar and takes the type
of its other operand.
-/

namespace FlatSheet

/-- The type of an expression's value. -/
inductive Ty where
  | bool
  | color
  | pixels
  | percentage
  | scalar
deriving DecidableEq

/-- The name of a type. -/
def Ty.text : Ty → String
  | bool => "boolean"
  | color => "color"
  | pixels => "pixel"
  | percentage => "percentage"
  | scalar => "scalar"

/-- The type of a literal. -/
def Literal.type : Literal → Ty
  | bool _ => .bool
  | color _ => .color
  | pixels _ => .pixels
  | percentage _ => .percentage
  | scalar _ => .scalar

/-- The type of an operation on operands of two types, or what is wrong with it. -/
def Operator.typeOf (op : Operator) (lhs rhs : Ty) : Except Problem Ty :=
  if lhs = .color ∨ rhs = .color then .error .colorOperand
  else if lhs = .bool ∨ rhs = .bool then .error .boolOperand
  else
    match op with
    | multiply =>
      if lhs = .scalar then .ok rhs
      else if rhs = .scalar then .ok lhs
      else .error .multiplyWithoutScalar
    | _ => if lhs = rhs then .ok lhs else .error .operandMismatch

end FlatSheet
