import FlatSheet.Expr

/-!
# Sheets

A sheet is a list of members: rules, which have selectors and a block, and assignments of variables.
A block is a sequence of declarations, assignments and conditional blocks. Every node but a selector
and the sheet itself has a mark; a sheet has no position.
-/

namespace FlatSheet

/-- A property and its value. The mark is that of the declaration, not of its value. -/
structure Declaration where
  property : String
  value : Expr
  mark : Mark
deriving DecidableEq

/-- A variable and the value assigned to it. -/
structure Assignment where
  name : String
  value : Expr
  mark : Mark
deriving DecidableEq

/-- The items of a rule or of a branch, in order. `ifThen` and `ifElse` are a conditional block with
one and with two branches; the second branch has a mark of its own. -/
inductive Block where
  | empty
  | declaration (d : Declaration) (rest : Block)
  | assignment (a : Assignment) (rest : Block)
  | ifThen (condition : Expr) (body : Block) (mark : Mark) (rest : Block)
  | ifElse (condition : Expr) (body : Block) (mark : Mark) (otherwise : Block)
      (otherwiseMark : Mark) (rest : Block)
deriving DecidableEq

namespace Block

/-- The items of one block and then those of another. -/
def append : Block → Block → Block
  | empty, other => other
  | declaration d rest, other => declaration d (rest.append other)
  | assignment a rest, other => assignment a (rest.append other)
  | ifThen c body m rest, other => ifThen c body m (rest.append other)
  | ifElse c body m otherwise om rest, other => ifElse c body m otherwise om (rest.append other)

/-- Concatenation of blocks. -/
instance : Append Block where append := append

@[simp] theorem empty_append (b : Block) : empty ++ b = b := rfl

@[simp] theorem declaration_append (d : Declaration) (rest b : Block) :
    declaration d rest ++ b = declaration d (rest ++ b) := rfl

@[simp] theorem assignment_append (a : Assignment) (rest b : Block) :
    assignment a rest ++ b = assignment a (rest ++ b) := rfl

@[simp] theorem ifThen_append (c : Expr) (body : Block) (m : Mark) (rest b : Block) :
    ifThen c body m rest ++ b = ifThen c body m (rest ++ b) := rfl

@[simp] theorem ifElse_append (c : Expr) (body : Block) (m : Mark) (other : Block) (om : Mark)
    (rest b : Block) : ifElse c body m other om rest ++ b = ifElse c body m other om (rest ++ b) :=
  rfl

@[simp] theorem append_empty (b : Block) : b ++ empty = b := by
  induction b <;> simp_all

/-- Concatenation is associative. -/
theorem append_assoc (a b c : Block) : a ++ b ++ c = a ++ (b ++ c) := by
  induction a <;> simp_all

/-- The declarations that are items of the block itself, not of a branch in it. -/
def declarations : Block → List Declaration
  | empty => []
  | declaration d rest => d :: rest.declarations
  | assignment _ rest => rest.declarations
  | ifThen _ _ _ rest => rest.declarations
  | ifElse _ _ _ _ _ rest => rest.declarations

@[simp] theorem declarations_append (a b : Block) :
    (a ++ b).declarations = a.declarations ++ b.declarations := by
  induction a <;> simp_all [declarations]

end Block

/-- A part of a rule's selector, with its text as written. -/
inductive Selector where
  | tag (text : String)
  | cls (text : String)
  | id (text : String)
deriving DecidableEq

namespace Selector

/-- The text of a selector, the mark in front of a class or an id included. -/
def text : Selector → String
  | tag t => t
  | cls t => t
  | id t => t

/-- The selector that a token writes, if it writes one. Six hexadecimal digits after a `#` read as a
color and are an id here. -/
def ofToken? : Token → Option Selector
  | .identifier t => some (tag t)
  | .classSelector t => some (cls t)
  | .idSelector t => some (id t)
  | .color t => some (id t)
  | _ => none

end Selector

/-- Selectors and the block that holds for what they select. -/
structure Rule where
  selectors : List Selector
  body : Block
  mark : Mark
deriving DecidableEq

/-- An item at the top of a sheet. -/
inductive Member where
  | rule (r : Rule)
  | assignment (a : Assignment)
deriving DecidableEq

/-- A whole sheet. -/
structure Sheet where
  members : List Member
  problem : Option Problem
deriving DecidableEq

namespace Sheet

/-- A sheet of some members with nothing wrong. -/
def ofMembers (members : List Member) : Sheet := ⟨members, none⟩

/-- The rules among some members. -/
def rulesOf : List Member → List Rule
  | [] => []
  | .rule r :: members => r :: rulesOf members
  | .assignment _ :: members => rulesOf members

/-- The rules of a sheet, in order. -/
def rules (s : Sheet) : List Rule := rulesOf s.members

@[simp] theorem rulesOf_append (a b : List Member) : rulesOf (a ++ b) = rulesOf a ++ rulesOf b := by
  induction a with
  | nil => rfl
  | cons m a ih => cases m <;> simp [rulesOf, ih]

/-- Rules as members are the rules among these. -/
@[simp] theorem rulesOf_map_rule (rules : List Rule) : rulesOf (rules.map Member.rule) = rules := by
  induction rules with
  | nil => rfl
  | cons r rules ih => rw [List.map_cons, rulesOf, ih]

end Sheet

end FlatSheet
