import FlatSheet.Sheet.Node

/-!
# Document order by recursion

`Sheet.nodes` walks a sheet with a list of nodes that are still to come. Here the same order is
given by recursion on the sheet, a node and then all that is below it, and the two are equal. What
holds of every node of a sheet can so be said part by part; `Unreported` says that no node of a list
has a problem.
-/

namespace FlatSheet

/-- An expression and then its operands. -/
def Expr.preorder : Expr → List Node
  | literal value m => [.expr (literal value m)]
  | reference name m => [.expr (reference name m)]
  | operation op lhs rhs m => .expr (operation op lhs rhs m) :: (lhs.preorder ++ rhs.preorder)

/-- The items of a block, each with all that is below it. -/
def Block.preorder : Block → List Node
  | empty => []
  | declaration d rest => .declaration d :: (d.value.preorder ++ rest.preorder)
  | assignment a rest => .assignment a :: (a.value.preorder ++ rest.preorder)
  | ifThen c body m rest =>
    .branch c body none m :: (c.preorder ++ body.preorder ++ rest.preorder)
  | ifElse c body m other om rest =>
    .branch c body (some (other, om)) m ::
      (c.preorder ++ body.preorder ++ .otherwise other om :: other.preorder ++ rest.preorder)

/-- A member and then all that is below it. -/
def Member.preorder : Member → List Node
  | rule r => .rule r :: (r.selectors.map .selector ++ r.body.preorder)
  | assignment a => .assignment a :: a.value.preorder

/-- A sheet and then its members, each with all that is below it. -/
def Sheet.preorder (s : Sheet) : List Node := .sheet s :: s.members.flatMap Member.preorder

namespace Node

/-- A node comes before what is below it, and that before the nodes still to come. -/
theorem walk_cons (n : Node) (waiting : List Node) :
    walk (n :: waiting) = n :: walk (n.children ++ waiting) := by
  rw [walk]

/-- All below the first parts comes before the parts after them. -/
theorem walk_append (a b : List Node) : walk (a ++ b) = walk a ++ walk b := by
  fun_induction walk a with
  | case1 => rfl
  | case2 n waiting ih =>
    rw [List.cons_append, walk_cons, ← List.append_assoc, ih, List.cons_append]

/-- One part is walked on its own before the others. -/
theorem walk_cons_append (n : Node) (waiting : List Node) :
    walk (n :: waiting) = n :: (walk n.children ++ walk waiting) := by
  rw [walk_cons, walk_append]

@[simp] theorem walk_nil : walk [] = [] := by
  rw [walk]

private theorem walk_expr (e : Expr) : walk [expr e] = e.preorder := by
  induction e with
  | literal value m => simp [walk_cons_append, children, Expr.preorder]
  | reference name m => simp [walk_cons_append, children, Expr.preorder]
  | operation op lhs rhs m ihl ihr =>
    rw [walk_cons_append, walk_nil, List.append_nil, children, Expr.preorder, ← ihl, ← ihr,
      ← walk_append, List.singleton_append]

private theorem walk_expr_cons (e : Expr) (waiting : List Node) :
    walk (expr e :: waiting) = e.preorder ++ walk waiting := by
  rw [← walk_expr, ← walk_append, List.singleton_append]

private theorem walk_block (b : Block) : walk b.nodes = b.preorder := by
  induction b with
  | empty => exact walk_nil
  | declaration d rest ih =>
    rw [Block.nodes, walk_cons_append, children, walk_expr, ih, Block.preorder]
  | assignment a rest ih =>
    rw [Block.nodes, walk_cons_append, children, walk_expr, ih, Block.preorder]
  | ifThen c body m rest ihBody ih =>
    rw [Block.nodes, walk_cons_append, children, walk_expr_cons, ihBody, ih, Block.preorder]
  | ifElse c body m other om rest ihBody ihOther ih =>
    rw [Block.nodes, walk_cons_append, children, walk_expr_cons, walk_append, ihBody,
      walk_cons_append, children, ihOther, walk_nil, List.append_nil, ih, Block.preorder]
    simp only [List.append_assoc]

private theorem walk_selectors (selectors : List Selector) :
    walk (selectors.map selector) = selectors.map selector := by
  induction selectors with
  | nil => exact walk_nil
  | cons s selectors ih =>
    rw [List.map_cons, walk_cons_append, children, ih, walk_nil, List.nil_append]

private theorem walk_member (m : Member) : walk [m.node] = m.preorder := by
  cases m with
  | rule r =>
    rw [Member.node, walk_cons_append, children, walk_append, walk_selectors, walk_block, walk_nil,
      List.append_nil, Member.preorder]
  | assignment a =>
    rw [Member.node, walk_cons_append, children, walk_expr, walk_nil, List.append_nil,
      Member.preorder]

private theorem walk_members (members : List Member) :
    walk (members.map Member.node) = members.flatMap Member.preorder := by
  induction members with
  | nil => exact walk_nil
  | cons m members ih =>
    rw [List.map_cons, ← List.singleton_append, walk_append, walk_member, ih, List.flatMap_cons]

end Node

/-- The walk with a list of nodes still to come visits the nodes in the order of the recursion. -/
theorem Sheet.nodes_eq_preorder (s : Sheet) : s.nodes = s.preorder := by
  rw [nodes, Node.walk_cons_append, Node.children, Node.walk_members, Node.walk_nil,
    List.append_nil, preorder]

/-! ### Nodes without problems -/

/-- No problem is attached to any of some nodes. -/
def Unreported (nodes : List Node) : Prop := ∀ n ∈ nodes, n.problem? = none

@[simp] theorem unreported_nil : Unreported [] := by
  simp [Unreported]

@[simp] theorem unreported_cons {n : Node} {nodes : List Node} :
    Unreported (n :: nodes) ↔ n.problem? = none ∧ Unreported nodes :=
  List.forall_mem_cons

@[simp] theorem unreported_append {a b : List Node} :
    Unreported (a ++ b) ↔ Unreported a ∧ Unreported b :=
  List.forall_mem_append

@[simp] theorem unreported_selectors (selectors : List Selector) :
    Unreported (selectors.map .selector) := by
  simp [Unreported, Node.problem?]

/-- A sheet has no diagnostics exactly when no node has a problem. -/
theorem Sheet.diagnostics_eq_nil_iff {s : Sheet} : s.diagnostics = [] ↔ Unreported s.preorder := by
  rw [diagnostics, nodes_eq_preorder, List.filterMap_eq_nil_iff]
  simp [Unreported, Node.diagnostic?]

end FlatSheet
