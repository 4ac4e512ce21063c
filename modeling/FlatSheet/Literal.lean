import FlatSheet.Amount
import FlatSheet.Token

/-!
# Literals

The values of expressions: truth values, colors, and amounts in one of three units. `Literal.text` is
how a value is written, in a sheet and in the output.
-/

namespace FlatSheet

/-- A value. A color is kept as it was written, its `#` included. -/
inductive Literal where
  | bool (b : Bool)
  | color (text : String)
  | pixels (n : Amount)
  | percentage (n : Amount)
  | scalar (n : Amount)
deriving DecidableEq

namespace Literal

/-- The written form of a value. -/
def text : Literal → String
  | bool true => "true"
  | bool false => "false"
  | color t => t
  | pixels n => n.text ++ "px"
  | percentage n => n.text ++ "%"
  | scalar n => n.text

/-- The value that a token writes, if it writes one. -/
def ofToken? : Token → Option Literal
  | .symbol .trueWord => some (bool true)
  | .symbol .falseWord => some (bool false)
  | .color t => some (color t)
  | .pixels n => some (pixels n)
  | .percentage n => some (percentage n)
  | .scalar n => some (scalar n)
  | _ => none

end Literal

end FlatSheet
