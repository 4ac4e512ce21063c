import FlatSheet.Reading
import FlatSheet.Token.Lexeme

/-!
# Reading single lexemes

Where lexemes do not go on as the grammar wants, their reader is stuck: `Stuck` holds what is wanted and
the lexemes from that point on, and `Stuck.error` makes the error of the whole input from it.
-/

namespace FlatSheet

/-- What is wanted at a point of the input, and the lexemes from that point on. -/
structure Stuck where
  wanted : Wanted
  rest : List Lexeme
deriving DecidableEq

/-- The result of a reader of lexemes. -/
abbrev LexemeReads (α : Type) (lexemes : List Lexeme) := Reads Stuck α lexemes

/-- The lexemes do not go on as wanted. -/
def stuck {α : Type} {lexemes : List Lexeme} (wanted : Wanted) : LexemeReads α lexemes :=
  .error ⟨wanted, lexemes⟩

/-- Read a symbol; the value is its position. -/
def readSymbol (s : Symbol) : (lexemes : List Lexeme) → LexemeReads Position lexemes
  | [] => stuck (.symbol s)
  | l :: _ => if l.token = .symbol s then .past l (.done l.position) else stuck (.symbol s)

/-- Read a symbol if it comes next; the value is its position then. -/
def readSymbol? (s : Symbol) : (lexemes : List Lexeme) → LexemeReads (Option Position) lexemes
  | [] => .done none
  | l :: _ => if l.token = .symbol s then .past l (.done (some l.position)) else .done none

/-- Read the end of the input. -/
def readEnd : (lexemes : List Lexeme) → LexemeReads Unit lexemes
  | [] => .done ()
  | _ :: _ => stuck .endOfInput

/-- The error for the point where reading is stuck. At the end of the input its position is that of the
last of all lexemes. -/
def Stuck.error (all : List Lexeme) (s : Stuck) : ParseError :=
  match s.rest with
  | l :: _ => ⟨.unexpectedToken s.wanted (some l.token), l.position⟩
  | [] =>
    match all.getLast? with
    | some l => ⟨.unexpectedToken s.wanted none, l.position⟩
    | none => ⟨.unexpectedToken s.wanted none, .unknown⟩

end FlatSheet
