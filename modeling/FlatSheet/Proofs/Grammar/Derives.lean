import FlatSheet.Token

/-!
# The grammar of sheets

The grammar as it is written down, production by production, over tokens without their positions.
That of expressions is ambiguous: it says neither which operator binds tighter nor how operators of
one kind group.
-/

namespace FlatSheet.Grammar

/-- What the grammar has productions for. -/
inductive Category where
  | sheet
  | rule
  | selectors
  | selector
  | items
  | declaration
  | assignment
  | conditional
  | otherwise
  | expression
  | literal
deriving DecidableEq

/-- The tokens that a category derives. -/
inductive Derives : Category → List Token → Prop
  -- sheet := (rule | assignment)*
  | noMembers : Derives .sheet []
  | ruleMember {a b : List Token} : Derives .rule a → Derives .sheet b → Derives .sheet (a ++ b)
  | assignmentMember {a b : List Token} :
    Derives .assignment a → Derives .sheet b → Derives .sheet (a ++ b)
  -- rule := selector+ '{' items '}'
  | rule {a b : List Token} : Derives .selectors a → Derives .items b →
    Derives .rule (a ++ .symbol .openBrace :: (b ++ [.symbol .closeBrace]))
  | lastSelector {a : List Token} : Derives .selector a → Derives .selectors a
  | moreSelectors {a b : List Token} :
    Derives .selector a → Derives .selectors b → Derives .selectors (a ++ b)
  -- selector := name | '.' name | '#' name, a color among the last
  | tag (name : String) : Derives .selector [.identifier name]
  | cls (text : String) : Derives .selector [.classSelector text]
  | id (text : String) : Derives .selector [.idSelector text]
  | colorId (text : String) : Derives .selector [.color text]
  -- items := (declaration | assignment | conditional)*
  | noItems : Derives .items []
  | declarationItem {a b : List Token} :
    Derives .declaration a → Derives .items b → Derives .items (a ++ b)
  | assignmentItem {a b : List Token} :
    Derives .assignment a → Derives .items b → Derives .items (a ++ b)
  | conditionalItem {a b : List Token} :
    Derives .conditional a → Derives .items b → Derives .items (a ++ b)
  -- declaration := name ':' expression ';'
  | declaration (name : String) {e : List Token} : Derives .expression e →
    Derives .declaration (.identifier name :: .symbol .colon :: (e ++ [.symbol .semicolon]))
  -- assignment := Name ':=' expression ';'
  | assignment (name : String) {e : List Token} : Derives .expression e →
    Derives .assignment (.variableName name :: .symbol .assign :: (e ++ [.symbol .semicolon]))
  -- conditional := 'if' '[' expression ']' '{' items '}' otherwise?
  | ifThen {c b : List Token} : Derives .expression c → Derives .items b →
    Derives .conditional (.symbol .ifWord :: .symbol .openBracket ::
      (c ++ .symbol .closeBracket :: .symbol .openBrace :: (b ++ [.symbol .closeBrace])))
  | ifElse {c b o : List Token} : Derives .expression c → Derives .items b → Derives .otherwise o →
    Derives .conditional (.symbol .ifWord :: .symbol .openBracket ::
      (c ++ .symbol .closeBracket :: .symbol .openBrace :: (b ++ .symbol .closeBrace :: o)))
  -- otherwise := 'else' '{' items '}'
  | otherwise {b : List Token} : Derives .items b →
    Derives .otherwise (.symbol .elseWord :: .symbol .openBrace :: (b ++ [.symbol .closeBrace]))
  -- expression := literal | Name | expression ('+' | '-') expression | expression '*' expression
  | literal {l : List Token} : Derives .literal l → Derives .expression l
  | reference (name : String) : Derives .expression [.variableName name]
  | sum {a b : List Token} : Derives .expression a → Derives .expression b →
    Derives .expression (a ++ .symbol .plus :: b)
  | difference {a b : List Token} : Derives .expression a → Derives .expression b →
    Derives .expression (a ++ .symbol .minus :: b)
  | product {a b : List Token} : Derives .expression a → Derives .expression b →
    Derives .expression (a ++ .symbol .star :: b)
  -- literal := color | number 'px' | number '%' | number | 'true' | 'false'
  | color (text : String) : Derives .literal [.color text]
  | pixels (n : Amount) : Derives .literal [.pixels n]
  | percentage (n : Amount) : Derives .literal [.percentage n]
  | scalar (n : Amount) : Derives .literal [.scalar n]
  | trueWord : Derives .literal [.symbol .trueWord]
  | falseWord : Derives .literal [.symbol .falseWord]

end FlatSheet.Grammar
