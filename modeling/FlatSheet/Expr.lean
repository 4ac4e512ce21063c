import FlatSheet.Literal
import FlatSheet.Problem

/-!
# Expressions

An expression is a literal, a reference to a variable, or an operation on two expressions. Each node
has a mark. The written form of an expression has no brackets.
-/

namespace FlatSheet

/-- The operators of arithmetic. -/
inductive Operator where
  | add
  | subtract
  | multiply
deriving DecidableEq

namespace Operator

/-- The symbol of an operator. -/
def symbol : Operator → Symbol
  | add => .plus
  | subtract => .minus
  | multiply => .star

/-- The spelling of an operator. -/
def text (op : Operator) : String := op.symbol.spelling

end Operator

/-- What a declaration's value, an assigned value and a condition are made of. -/
inductive Expr where
  | literal (value : Literal) (mark : Mark)
  | reference (name : String) (mark : Mark)
  | operation (op : Operator) (lhs rhs : Expr) (mark : Mark)
deriving DecidableEq

namespace Expr

/-- The mark of the expression's own node. -/
def mark : Expr → Mark
  | literal _ m => m
  | reference _ m => m
  | operation _ _ _ m => m

/-- Attach a problem to the expression's own node. -/
def report (e : Expr) (p : Problem) : Expr :=
  match e with
  | literal value m => literal value (m.report p)
  | reference name m => reference name (m.report p)
  | operation op lhs rhs m => operation op lhs rhs (m.report p)

/-- The written form: operands in order, their operator between blanks. -/
def text : Expr → String
  | literal value _ => value.text
  | reference name _ => name
  | operation op lhs rhs _ => lhs.text ++ " " ++ op.text ++ " " ++ rhs.text

/-- The number of nodes of an expression. -/
def size : Expr → Nat
  | literal _ _ => 1
  | reference _ _ => 1
  | operation _ lhs rhs _ => 1 + lhs.size + rhs.size

@[simp] theorem mark_report (e : Expr) (p : Problem) : (e.report p).mark = e.mark.report p := by
  cases e <;> rfl

end Expr

end FlatSheet
