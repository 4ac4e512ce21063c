import FlatSheet.Amount

/-!
# Tokens

A token is a symbol, which has one spelling, or carries what was written: names, colors and selectors
their text, numbers their amount. `Token.text` is how a token is named in a message.
-/

namespace FlatSheet

/-- The keywords and marks of a sheet. -/
inductive Symbol where
  | ifWord
  | elseWord
  | trueWord
  | falseWord
  | assign
  | colon
  | semicolon
  | openBrace
  | closeBrace
  | openBracket
  | closeBracket
  | plus
  | minus
  | star
deriving DecidableEq

namespace Symbol

/-- The characters of a symbol. -/
def chars : Symbol → List Char
  | ifWord => ['i', 'f']
  | elseWord => ['e', 'l', 's', 'e']
  | trueWord => ['t', 'r', 'u', 'e']
  | falseWord => ['f', 'a', 'l', 's', 'e']
  | assign => [':', '=']
  | colon => [':']
  | semicolon => [';']
  | openBrace => ['\x7b']
  | closeBrace => ['\x7d']
  | openBracket => ['[']
  | closeBracket => [']']
  | plus => ['+']
  | minus => ['-']
  | star => ['*']

/-- The spelling of a symbol. -/
def spelling (s : Symbol) : String := String.ofList s.chars

/-- Every symbol has a spelling of at least one character. -/
theorem chars_ne_nil (s : Symbol) : s.chars ≠ [] := by
  cases s <;> simp [chars]

end Symbol

/-- What a sheet is read from, blanks and comments left out. Numbers are never negative. -/
inductive Token where
  | symbol (s : Symbol)
  | color (text : String)
  | idSelector (text : String)
  | classSelector (text : String)
  | pixels (n : Amount)
  | percentage (n : Amount)
  | scalar (n : Amount)
  | variableName (name : String)
  | identifier (name : String)
deriving DecidableEq

namespace Token

/-- How a message names a token. -/
def text : Token → String
  | symbol s => "'" ++ s.spelling ++ "'"
  | color t => "color " ++ t
  | idSelector t => "selector " ++ t
  | classSelector t => "selector " ++ t
  | pixels n => "pixel size " ++ n.text ++ "px"
  | percentage n => "percentage " ++ n.text ++ "%"
  | scalar n => "scalar " ++ n.text
  | variableName name => "variable " ++ name
  | identifier name => "identifier " ++ name

end Token

end FlatSheet
