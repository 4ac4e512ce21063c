import FlatSheet.Sheet

/-!
# Nodes of a sheet

`Node` is a view of any part of a sheet. `Sheet.nodes` lists the nodes in document order: a node, then
what is below it, before the next node beside it. It keeps the nodes that are still to come in a list
and puts the children of each in front of the others. The diagnostics of a sheet are the problems
attached to its nodes, in that order.
-/

namespace FlatSheet

/-- A part of a sheet. -/
inductive Node where
  | sheet (s : Sheet)
  | rule (r : Rule)
  | selector (s : Selector)
  | declaration (d : Declaration)
  | assignment (a : Assignment)
  | branch (condition : Expr) (body : Block) (otherwise : Option (Block × Mark)) (mark : Mark)
  | otherwise (body : Block) (mark : Mark)
  | expr (e : Expr)
deriving DecidableEq

/-- The items of a block as nodes. -/
def Block.nodes : Block → List Node
  | empty => []
  | declaration d rest => .declaration d :: rest.nodes
  | assignment a rest => .assignment a :: rest.nodes
  | ifThen c body m rest => .branch c body none m :: rest.nodes
  | ifElse c body m otherwise om rest => .branch c body (some (otherwise, om)) m :: rest.nodes

/-- The node of a member. -/
def Member.node : Member → Node
  | rule r => .rule r
  | assignment a => .assignment a

/-- The number of nodes in a block. -/
def Block.size : Block → Nat
  | empty => 0
  | declaration d rest => 1 + d.value.size + rest.size
  | assignment a rest => 1 + a.value.size + rest.size
  | ifThen c body _ rest => 1 + c.size + body.size + rest.size
  | ifElse c body _ otherwise _ rest =>
    1 + c.size + body.size + (1 + otherwise.size) + rest.size

/-- The number of nodes of a member, itself included. -/
def Member.size : Member → Nat
  | rule r => 1 + r.selectors.length + r.body.size
  | assignment a => 1 + a.value.size

/-- The number of nodes of some members. -/
def sizeOfMembers : List Member → Nat
  | [] => 0
  | m :: members => m.size + sizeOfMembers members

namespace Node

/-- The nodes directly below a node, in document order. -/
def children : Node → List Node
  | sheet s => s.members.map Member.node
  | rule r => r.selectors.map selector ++ r.body.nodes
  | selector _ => []
  | declaration d => [expr d.value]
  | assignment a => [expr a.value]
  | branch c body none _ => expr c :: body.nodes
  | branch c body (some (other, om)) _ => expr c :: (body.nodes ++ [otherwise other om])
  | otherwise body _ => body.nodes
  | expr (.operation _ lhs rhs _) => [expr lhs, expr rhs]
  | expr _ => []

/-- The problem attached to a node. -/
def problem? : Node → Option Problem
  | sheet s => s.problem
  | rule r => r.mark.problem
  | selector _ => none
  | declaration d => d.mark.problem
  | assignment a => a.mark.problem
  | branch _ _ _ m => m.problem
  | otherwise _ m => m.problem
  | expr e => e.mark.problem

/-- The position of a node; that of a sheet or a selector is not known. -/
def position : Node → Position
  | sheet _ => .unknown
  | rule r => r.mark.position
  | selector _ => .unknown
  | declaration d => d.mark.position
  | assignment a => a.mark.position
  | branch _ _ _ m => m.position
  | otherwise _ m => m.position
  | expr e => e.mark.position

/-- The diagnostic of a node that has a problem. -/
def diagnostic? (n : Node) : Option Diagnostic := n.problem?.map (⟨n.position, ·⟩)

/-- The number of nodes in a part of a sheet, its own included. -/
def size : Node → Nat
  | sheet s => 1 + sizeOfMembers s.members
  | rule r => 1 + r.selectors.length + r.body.size
  | selector _ => 1
  | declaration d => 1 + d.value.size
  | assignment a => 1 + a.value.size
  | branch c body none _ => 1 + c.size + body.size
  | branch c body (some (other, _)) _ => 1 + c.size + body.size + (1 + other.size)
  | otherwise body _ => 1 + body.size
  | expr e => e.size

/-- The number of nodes in several parts of a sheet. -/
def totalSize : List Node → Nat
  | [] => 0
  | n :: nodes => n.size + totalSize nodes

/-- Parts together have as many nodes as apart. -/
theorem totalSize_append (a b : List Node) : totalSize (a ++ b) = totalSize a + totalSize b := by
  induction a with
  | nil => simp [totalSize]
  | cons n a ih => simp [totalSize, ih, Nat.add_assoc]

private theorem totalSize_blockNodes (b : Block) : totalSize b.nodes = b.size := by
  induction b with
  | empty => rfl
  | declaration d rest ih => simp [Block.nodes, Block.size, totalSize, size, ih]
  | assignment a rest ih => simp [Block.nodes, Block.size, totalSize, size, ih]
  | ifThen c body m rest _ ih => simp [Block.nodes, Block.size, totalSize, size, ih]
  | ifElse c body m other om rest _ _ ih => simp [Block.nodes, Block.size, totalSize, size, ih]

private theorem totalSize_selectors (selectors : List Selector) :
    totalSize (selectors.map selector) = selectors.length := by
  induction selectors with
  | nil => rfl
  | cons s selectors ih => simp [totalSize, size, ih, Nat.add_comm]

private theorem totalSize_members (members : List Member) :
    totalSize (members.map Member.node) = sizeOfMembers members := by
  induction members with
  | nil => rfl
  | cons m members ih => cases m <;> simp [Member.node, Member.size, sizeOfMembers, totalSize, size, ih]

/-- A node has one node more than there are below it. -/
theorem size_eq (n : Node) : n.size = 1 + totalSize n.children := by
  cases n with
  | sheet s => rw [children, totalSize_members, size]
  | rule r =>
    rw [children, totalSize_append, totalSize_selectors, totalSize_blockNodes, size, Nat.add_assoc]
  | selector s => rfl
  | declaration d => simp [children, size, totalSize]
  | assignment a => simp [children, size, totalSize]
  | branch c body other m =>
    cases other <;>
      simp [children, size, totalSize, totalSize_append, totalSize_blockNodes, Nat.add_assoc]
  | otherwise body m => rw [children, totalSize_blockNodes, size]
  | expr e => cases e <;> simp [children, size, totalSize, Expr.size, Nat.add_assoc]

/-- The nodes of the parts of a sheet that are still to come, each before what is below it. -/
def walk : List Node → List Node
  | [] => []
  | n :: waiting => n :: walk (n.children ++ waiting)
termination_by waiting => totalSize waiting
decreasing_by
  rw [totalSize_append, totalSize, n.size_eq]
  omega

end Node

namespace Sheet

/-- The nodes of a sheet in document order. -/
def nodes (s : Sheet) : List Node := Node.walk [.sheet s]

/-- The problems attached to the nodes of a sheet, in document order. -/
def diagnostics (s : Sheet) : List Diagnostic := s.nodes.filterMap Node.diagnostic?

/-- Whether a problem is attached to any node of a sheet. -/
def hasProblems (s : Sheet) : Bool := s.nodes.any (·.problem?.isSome)

end Sheet

end FlatSheet
