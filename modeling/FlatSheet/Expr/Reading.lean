import FlatSheet.Expr
import FlatSheet.Token.Reading

/-!
# Reading expressions

A sum has products with `+` and `-` between them, a product has operands with `*` between them, and an
operand is a variable or a literal. Both group to the left. An operation is marked at its operator.
-/

namespace FlatSheet

namespace Literal

/-- Read one literal. -/
def read : (lexemes : List Lexeme) → LexemeReads Literal lexemes
  | [] => stuck .expression
  | l :: _ =>
    match ofToken? l.token with
    | some value => .past l (.done value)
    | none => stuck .expression

/-- The literal that a list of lexemes writes. -/
def ofLexemes (lexemes : List Lexeme) : Except ParseError Literal :=
  match (read lexemes).andThen fun r ↦ (readEnd r.rest).andThen fun _ ↦ .done r.value with
  | .ok r => .ok r.value
  | .error e => .error (e.error lexemes)

/-- The literal that a source writes. -/
def ofSource (source : String) : Except ParseError Literal :=
  match tokenize source with
  | .ok lexemes => ofLexemes lexemes
  | .error e => .error e

end Literal

namespace Expr

/-- The operand that a lexeme writes, if it writes one. -/
def ofLexeme? (l : Lexeme) : Option Expr :=
  match l.token with
  | .variableName name => some (reference name (.clean l.position))
  | t => (Literal.ofToken? t).map (literal · (.clean l.position))

/-- Read a variable or a literal. -/
def readOperand : (lexemes : List Lexeme) → LexemeReads Expr lexemes
  | [] => stuck .expression
  | l :: _ =>
    match ofLexeme? l with
    | some e => .past l (.done e)
    | none => stuck .expression

/-- Read the operands that follow the first part of a product. -/
def readFactors (lhs : Expr) : (lexemes : List Lexeme) → LexemeReads Expr lexemes
  | [] => .done lhs
  | l :: rest =>
    if l.token = .symbol .star then
      .past l <| (readOperand rest).andThen fun r ↦
        readFactors (operation .multiply lhs r.value (.clean l.position)) r.rest
    else .done lhs
termination_by lexemes => lexemes.length
decreasing_by
  have := r.length_le
  simp only [List.length_cons]
  omega

/-- Read a product. -/
def readProduct (lexemes : List Lexeme) : LexemeReads Expr lexemes :=
  (readOperand lexemes).andThen fun r ↦ readFactors r.value r.rest

/-- The operator of a sum that a token writes, if it writes one. -/
def sumOperator? : Token → Option Operator
  | .symbol .plus => some .add
  | .symbol .minus => some .subtract
  | _ => none

/-- Read the products that follow the first part of a sum. -/
def readTerms (lhs : Expr) : (lexemes : List Lexeme) → LexemeReads Expr lexemes
  | [] => .done lhs
  | l :: rest =>
    match sumOperator? l.token with
    | some op =>
      .past l <| (readProduct rest).andThen fun r ↦
        readTerms (operation op lhs r.value (.clean l.position)) r.rest
    | none => .done lhs
termination_by lexemes => lexemes.length
decreasing_by
  have := r.length_le
  simp only [List.length_cons]
  omega

/-- Read an expression. -/
def read (lexemes : List Lexeme) : LexemeReads Expr lexemes :=
  (readProduct lexemes).andThen fun r ↦ readTerms r.value r.rest

end Expr

end FlatSheet
