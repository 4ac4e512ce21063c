import FlatSheet.ParseError
import FlatSheet.Source.Lines
import FlatSheet.Token.Piece

/-!
# Tokens at their positions

`tokenize` reads the whole of a source into lexemes, the tokens in order with the position at which
each starts. It fails at the first number that is too large, or where a piece cannot be cut.
-/

namespace FlatSheet

/-- A token and where it starts. -/
structure Lexeme where
  token : Token
  position : Position
deriving DecidableEq

/-- The lexemes of pieces that begin at a byte offset and are followed by `rest`, which is not empty
only if no piece begins there. -/
def lexemesOf (lines : Lines) (rest : List Char) (offset : Nat) :
    List Piece → Except ParseError (List Lexeme)
  | [] =>
    if rest = [] then .ok []
    else .error ⟨.unexpectedInput (String.ofList (misfit rest)), lines.position offset⟩
  | p :: pieces =>
    match p.kind.meaning p.text with
    | .dropped => lexemesOf lines rest (offset + byteCount p.text) pieces
    | .token t =>
      match lexemesOf lines rest (offset + byteCount p.text) pieces with
      | .ok lexemes => .ok (⟨t, lines.position offset⟩ :: lexemes)
      | .error e => .error e
    | .tooLarge => .error ⟨.unexpectedInput (String.ofList p.text), lines.position offset⟩

/-- The lexemes of a list of characters. -/
def lex (source : List Char) : Except ParseError (List Lexeme) :=
  lexemesOf (Lines.ofSource source) (cut source).2 0 (cut source).1

/-- The lexemes of a source. -/
def tokenize (source : String) : Except ParseError (List Lexeme) := lex source.toList

end FlatSheet
