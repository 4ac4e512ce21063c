import FlatSheet.Source.Position

/-!
# Problems

A problem is what typing finds wrong with one node of a sheet. It is attached to the node in its mark,
beside the node's position. A diagnostic is an attached problem at the position of its node.
-/

namespace FlatSheet

/-- What is wrong with a node. -/
inductive Problem where
  | undefinedVariable (name : String)
  | unknownProperty (property : String)
  | propertyType (property allowed : String)
  | conditionNotBoolean
  | colorOperand
  | boolOperand
  | operandMismatch
  | multiplyWithoutScalar
deriving DecidableEq

/-- The message of a problem. -/
def Problem.message : Problem → String
  | undefinedVariable name => "Variable " ++ name ++ " is not defined"
  | unknownProperty property => "Unknown property: " ++ property
  | propertyType property allowed =>
    "Only " ++ allowed ++ " expressions are allowed for " ++ property
  | conditionNotBoolean => "If condition must be a boolean expression"
  | colorOperand => "Color literals are not allowed in operations"
  | boolOperand => "Boolean literals are not allowed in operations"
  | operandMismatch => "Operands must be of the same type"
  | multiplyWithoutScalar =>
    "Multiply operation can only be used with an expression of type scalar and " ++
      "an expression of another type"

/-- Where a node was read and what is wrong with it. -/
structure Mark where
  position : Position
  problem : Option Problem
deriving DecidableEq

namespace Mark

/-- The mark of a node at a position with nothing wrong. -/
def clean (position : Position) : Mark := ⟨position, none⟩

/-- Attach a problem, in place of one that is attached already. -/
def report (m : Mark) (p : Problem) : Mark := ⟨m.position, some p⟩

@[simp] theorem position_report (m : Mark) (p : Problem) : (m.report p).position = m.position := rfl

@[simp] theorem problem_report (m : Mark) (p : Problem) : (m.report p).problem = some p := rfl

end Mark

/-- A problem and the position of the node that has it. -/
structure Diagnostic where
  position : Position
  problem : Problem
deriving DecidableEq

namespace Diagnostic

/-- The message of the problem. -/
def message (d : Diagnostic) : String := d.problem.message

/-- The position and the message. -/
def text (d : Diagnostic) : String := d.position.text ++ ": " ++ d.message

end Diagnostic

end FlatSheet
