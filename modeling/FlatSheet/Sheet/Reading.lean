import FlatSheet.Expr.Reading
import FlatSheet.Sheet

/-!
# Reading sheets

A sheet is read from the whole of its lexemes. A member that begins with a variable's name is an
assignment and any other is a rule, which begins with at least one selector. A block goes on to the
closing brace, or to the end of the input, where its reader stops without reading the brace. Each node
is marked at its first lexeme.
-/

namespace FlatSheet

/-- Read a value between a symbol and a semicolon. -/
def readValue (s : Symbol) (lexemes : List Lexeme) : LexemeReads Expr lexemes :=
  (readSymbol s lexemes).andThen fun front ↦
  (Expr.read front.rest).andThen fun value ↦
  (readSymbol .semicolon value.rest).andThen fun _ ↦
  .done value.value

/-- Read a declaration from after the lexeme `l` that it begins with, its property. -/
def Declaration.read (l : Lexeme) (rest : List Lexeme) : LexemeReads Declaration rest :=
  match l.token with
  | .identifier property =>
    (readValue .colon rest).andThen fun value ↦ .done ⟨property, value.value, .clean l.position⟩
  | _ => .error ⟨.propertyName, l :: rest⟩

/-- Read an assignment from after the lexeme `l` that it begins with, the variable's name. -/
def Assignment.read (l : Lexeme) (rest : List Lexeme) : LexemeReads Assignment rest :=
  match l.token with
  | .variableName name =>
    (readValue .assign rest).andThen fun value ↦ .done ⟨name, value.value, .clean l.position⟩
  | _ => .error ⟨.variableName, l :: rest⟩

/-- Read a condition in its brackets and the brace that opens the branch. -/
def readCondition (lexemes : List Lexeme) : LexemeReads Expr lexemes :=
  (readSymbol .openBracket lexemes).andThen fun bracket ↦
  (Expr.read bracket.rest).andThen fun condition ↦
  (readSymbol .closeBracket condition.rest).andThen fun close ↦
  (readSymbol .openBrace close.rest).andThen fun _ ↦
  .done condition.value

/-- Read the items of a block up to its closing brace or the end of the input. -/
def Block.read : (lexemes : List Lexeme) → LexemeReads Block lexemes
  | [] => .done .empty
  | l :: rest =>
    match l.token with
    | .symbol .closeBrace => .done .empty
    | .identifier _ =>
      .past l <| (Declaration.read l rest).andThen fun d ↦
        (Block.read d.rest).andThen fun items ↦ .done (.declaration d.value items.value)
    | .variableName _ =>
      .past l <| (Assignment.read l rest).andThen fun a ↦
        (Block.read a.rest).andThen fun items ↦ .done (.assignment a.value items.value)
    | .symbol .ifWord =>
      .past l <| (readCondition rest).andThen fun c ↦
        (Block.read c.rest).andThen fun body ↦
        (readSymbol .closeBrace body.rest).andThen fun close ↦
        (readSymbol? .elseWord close.rest).andThen fun word ↦
        match word.value with
        | none =>
          (Block.read word.rest).andThen fun items ↦
          .done (.ifThen c.value body.value (.clean l.position) items.value)
        | some position =>
          (readSymbol .openBrace word.rest).andThen fun brace ↦
          (Block.read brace.rest).andThen fun other ↦
          (readSymbol .closeBrace other.rest).andThen fun last ↦
          (Block.read last.rest).andThen fun items ↦
          .done (.ifElse c.value body.value (.clean l.position) other.value (.clean position)
            items.value)
    | _ => stuck .blockItem
termination_by lexemes => lexemes.length
decreasing_by all_goals simp only [List.length_cons]; grind [Reading.length_le]

/-- Read selectors as long as they go on. -/
def Selector.readAll : (lexemes : List Lexeme) → LexemeReads (List Selector) lexemes
  | [] => .done []
  | l :: rest =>
    match Selector.ofToken? l.token with
    | some s =>
      .past l <| (Selector.readAll rest).andThen fun others ↦ .done (s :: others.value)
    | none => .done []

/-- Read a rule from after the lexeme `l` that it begins with. -/
def Rule.read (l : Lexeme) (rest : List Lexeme) : LexemeReads Rule rest :=
  match Selector.ofToken? l.token with
  | none => .error ⟨.selector, l :: rest⟩
  | some s =>
    (Selector.readAll rest).andThen fun others ↦
    (readSymbol .openBrace others.rest).andThen fun brace ↦
    (Block.read brace.rest).andThen fun body ↦
    (readSymbol .closeBrace body.rest).andThen fun _ ↦
    .done ⟨s :: others.value, body.value, .clean l.position⟩

/-- Read a member from after the lexeme `l` that it begins with. -/
def Member.read (l : Lexeme) (rest : List Lexeme) : LexemeReads Member rest :=
  match l.token with
  | .variableName _ => (Assignment.read l rest).andThen fun a ↦ .done (.assignment a.value)
  | _ => (Rule.read l rest).andThen fun r ↦ .done (.rule r.value)

namespace Sheet

/-- Read members up to the end of the input. -/
def readMembers : List Lexeme → Except Stuck (List Member)
  | [] => .ok []
  | l :: rest =>
    match Member.read l rest with
    | .error e => .error e
    | .ok m =>
      match readMembers m.rest with
      | .error e => .error e
      | .ok members => .ok (m.value :: members)
termination_by lexemes => lexemes.length
decreasing_by exact Nat.lt_succ_of_le m.length_le

/-- The sheet that a list of lexemes writes. -/
def ofLexemes (lexemes : List Lexeme) : Except ParseError Sheet :=
  match readMembers lexemes with
  | .ok members => .ok (ofMembers members)
  | .error e => .error (e.error lexemes)

/-- The sheet that a source writes. -/
def ofSource (source : String) : Except ParseError Sheet :=
  match tokenize source with
  | .ok lexemes => ofLexemes lexemes
  | .error e => .error e

end Sheet

end FlatSheet
