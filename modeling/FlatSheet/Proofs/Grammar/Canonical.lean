import FlatSheet.Proofs.Grammar.Derives
import FlatSheet.Sheet

/-!
# Trees and how they are written

The tokens that write a tree leave out nothing but the marks. Many trees of expressions are written
alike; of these, one is canonical: products bind tighter than sums and operators of one kind group
to the left. The grammar derives exactly what canonical trees write.
-/

namespace FlatSheet

/-! ### Tokens of trees -/

/-- The token that writes a value. -/
def Literal.token : Literal → Token
  | bool true => .symbol .trueWord
  | bool false => .symbol .falseWord
  | color t => .color t
  | pixels n => .pixels n
  | percentage n => .percentage n
  | scalar n => .scalar n

/-- The tokens that write an expression: operands in order, their operator between them. -/
def Expr.tokens : Expr → List Token
  | literal value _ => [value.token]
  | reference name _ => [.variableName name]
  | operation op lhs rhs _ => lhs.tokens ++ .symbol op.symbol :: rhs.tokens

/-- The tokens that write a declaration. -/
def Declaration.tokens (d : Declaration) : List Token :=
  .identifier d.property :: .symbol .colon :: (d.value.tokens ++ [.symbol .semicolon])

/-- The tokens that write an assignment. -/
def Assignment.tokens (a : Assignment) : List Token :=
  .variableName a.name :: .symbol .assign :: (a.value.tokens ++ [.symbol .semicolon])

/-- The tokens that write a condition and the brace after it. -/
def Expr.conditionTokens (c : Expr) : List Token :=
  .symbol .openBracket :: (c.tokens ++ [.symbol .closeBracket, .symbol .openBrace])

/-- The tokens that write the items of a block. -/
def Block.tokens : Block → List Token
  | empty => []
  | declaration d rest => d.tokens ++ rest.tokens
  | assignment a rest => a.tokens ++ rest.tokens
  | ifThen c body _ rest =>
    .symbol .ifWord :: (c.conditionTokens ++ (body.tokens ++ .symbol .closeBrace :: rest.tokens))
  | ifElse c body _ other _ rest =>
    .symbol .ifWord :: (c.conditionTokens ++ (body.tokens ++ .symbol .closeBrace ::
      .symbol .elseWord :: .symbol .openBrace ::
        (other.tokens ++ .symbol .closeBrace :: rest.tokens)))

/-- The tokens each of which writes a selector; an id may be written as a color. -/
def Selector.tokens : Selector → List Token
  | tag t => [.identifier t]
  | cls t => [.classSelector t]
  | id t => [.idSelector t, .color t]

/-- Some tokens write selectors, one each. -/
inductive Selector.Write : List Selector → List Token → Prop
  | nil : Write [] []
  | cons {s : Selector} {t : Token} {selectors : List Selector} {ts : List Token} :
    t ∈ s.tokens → Write selectors ts → Write (s :: selectors) (t :: ts)

/-- Some tokens write a rule. -/
def Rule.Writes (r : Rule) (ts : List Token) : Prop :=
  ∃ head, Selector.Write r.selectors head ∧
    ts = head ++ .symbol .openBrace :: (r.body.tokens ++ [.symbol .closeBrace])

/-- Some tokens write a member. -/
def Member.Writes : Member → List Token → Prop
  | rule r, ts => r.Writes ts
  | assignment a, ts => ts = a.tokens

/-- Some tokens write members, one after the other. -/
inductive Member.Write : List Member → List Token → Prop
  | nil : Write [] []
  | cons {m : Member} {members : List Member} {a b : List Token} :
    m.Writes a → Write members b → Write (m :: members) (a ++ b)

/-- Some tokens write a sheet. -/
def Sheet.Writes (s : Sheet) (ts : List Token) : Prop := Member.Write s.members ts

/-! ### Canonical trees -/

namespace Expr

/-- Whether an expression is a sum or a difference. -/
def isSum : Expr → Bool
  | operation .multiply _ _ _ => false
  | operation _ _ _ _ => true
  | _ => false

/-- Whether an expression is a literal or a reference. -/
def isLeaf : Expr → Bool
  | operation _ _ _ _ => false
  | _ => true

/-- The right operand of a sum is no sum, and the operands of a product are no sums, the right one
being a literal or a reference. -/
def Canonical : Expr → Prop
  | operation .multiply lhs rhs _ => lhs.Canonical ∧ lhs.isSum = false ∧ rhs.isLeaf = true
  | operation _ lhs rhs _ => lhs.Canonical ∧ rhs.Canonical ∧ rhs.isSum = false
  | _ => True

end Expr

/-- Every expression in a block is canonical. -/
def Block.Canonical : Block → Prop
  | empty => True
  | declaration d rest => d.value.Canonical ∧ rest.Canonical
  | assignment a rest => a.value.Canonical ∧ rest.Canonical
  | ifThen c body _ rest => c.Canonical ∧ body.Canonical ∧ rest.Canonical
  | ifElse c body _ other _ rest =>
    c.Canonical ∧ body.Canonical ∧ other.Canonical ∧ rest.Canonical

/-- A rule has a selector and every expression in it is canonical. -/
def Member.Canonical : Member → Prop
  | rule r => r.selectors ≠ [] ∧ r.body.Canonical
  | assignment a => a.value.Canonical

/-- Every rule has a selector and every expression is canonical. -/
def Sheet.Canonical (s : Sheet) : Prop := ∀ m ∈ s.members, m.Canonical

/-! ### Trees without marks -/

/-- An expression with its marks taken off. -/
def Expr.bare : Expr → Expr
  | literal value _ => literal value (.clean .unknown)
  | reference name _ => reference name (.clean .unknown)
  | operation op lhs rhs _ => operation op lhs.bare rhs.bare (.clean .unknown)

/-- A declaration with its marks taken off. -/
def Declaration.bare (d : Declaration) : Declaration := ⟨d.property, d.value.bare, .clean .unknown⟩

/-- An assignment with its marks taken off. -/
def Assignment.bare (a : Assignment) : Assignment := ⟨a.name, a.value.bare, .clean .unknown⟩

/-- A block with its marks taken off. -/
def Block.bare : Block → Block
  | empty => empty
  | declaration d rest => declaration d.bare rest.bare
  | assignment a rest => assignment a.bare rest.bare
  | ifThen c body _ rest => ifThen c.bare body.bare (.clean .unknown) rest.bare
  | ifElse c body _ other _ rest =>
    ifElse c.bare body.bare (.clean .unknown) other.bare (.clean .unknown) rest.bare

/-- A member with its marks taken off. -/
def Member.bare : Member → Member
  | rule r => rule ⟨r.selectors, r.body.bare, .clean .unknown⟩
  | assignment a => assignment a.bare

/-- A sheet with its marks taken off, and without a problem of its own. -/
def Sheet.bare (s : Sheet) : Sheet := .ofMembers (s.members.map Member.bare)

end FlatSheet
