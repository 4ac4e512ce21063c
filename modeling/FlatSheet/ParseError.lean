import FlatSheet.Source.Position
import FlatSheet.Token

/-!
# Errors of reading

A source that cannot be read has one error: text that is no token, or a token (or the end) where the
grammar wants something else. `ParseError.text` is the message and `ParseError.message` the message
after the position.
-/

namespace FlatSheet

/-- What the grammar wants at some point. -/
inductive Wanted where
  | symbol (s : Symbol)
  | selector
  | blockItem
  | expression
  | endOfInput
  | propertyName
  | variableName
deriving DecidableEq

/-- How a message names what is wanted. -/
def Wanted.text : Wanted → String
  | symbol s => (Token.symbol s).text
  | selector => "selector"
  | blockItem => "declaration, variable assignment or if-clause"
  | expression => "expression"
  | endOfInput => "end of input"
  | propertyName => "property name"
  | variableName => "variable name"

/-- Whether what is wanted is the name that a declaration or an assignment begins with. The message does
not say what was found in the place of such a name. -/
def Wanted.isName : Wanted → Bool
  | propertyName => true
  | variableName => true
  | _ => false

/-- The message for what is wanted where a token, or the end of the input, is found. -/
def Wanted.message (wanted : Wanted) (found : Option Token) : String :=
  if wanted.isName then "Expected " ++ wanted.text
  else
    match found with
    | some t => "Expected " ++ wanted.text ++ ", found " ++ t.text
    | none => "Expected " ++ wanted.text ++ ", found end of input"

/-- Unless a name is wanted, the message names the token that is found. -/
theorem Wanted.message_some {wanted : Wanted} (h : wanted.isName = false) (t : Token) :
    wanted.message (some t) = "Expected " ++ wanted.text ++ ", found " ++ t.text := by
  rw [message, h, if_neg Bool.false_ne_true]

/-- Unless a name is wanted, the message names the end of the input. -/
theorem Wanted.message_none {wanted : Wanted} (h : wanted.isName = false) :
    wanted.message none = "Expected " ++ wanted.text ++ ", found end of input" := by
  rw [message, h, if_neg Bool.false_ne_true]

/-- Why a source cannot be read. -/
inductive ParseFault where
  /-- Text that is no token. -/
  | unexpectedInput (text : String)
  /-- A token, or the end of the input, where something else is wanted. -/
  | unexpectedToken (wanted : Wanted) (found : Option Token)
deriving DecidableEq

/-- The message of a fault. -/
def ParseFault.text : ParseFault → String
  | unexpectedInput text => "Unexpected input '" ++ text ++ "'"
  | unexpectedToken wanted found => wanted.message found

/-- A fault and where it is. -/
structure ParseError where
  fault : ParseFault
  position : Position
deriving DecidableEq

namespace ParseError

/-- The message without the position. -/
def text (e : ParseError) : String := e.fault.text

/-- The position and the message. -/
def message (e : ParseError) : String := e.position.text ++ ": " ++ e.text

end ParseError

end FlatSheet
