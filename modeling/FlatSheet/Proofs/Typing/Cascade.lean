import Mathlib.Logic.Basic
import FlatSheet.Proofs.Typing.Typed

/-!
# One mistake, one problem

A mistake in an expression leaves every operation around it without a type, and none of those operations
is found wrong for it. So an expression lacks a type exactly when a problem was attached somewhere in it
or it reads a name that is bound to no type, and of the nodes from the root of an expression down to any
other one has a problem at most.
-/

namespace FlatSheet

/-- The sides of an operation. -/
inductive Side where
  | left
  | right
deriving DecidableEq

namespace Expr

/-- The part of an expression to which a path leads from its root. A part is above another when its path
begins the path of the other. -/
def at? : Expr → List Side → Option Expr
  | e, [] => some e
  | operation _ lhs _ _, .left :: path => lhs.at? path
  | operation _ _ rhs _, .right :: path => rhs.at? path
  | literal _ _, _ :: _ => none
  | reference _ _, _ :: _ => none

/-- A problem is attached to the node to which a path leads. -/
def ReportedAt (e : Expr) (path : List Side) : Prop :=
  ∃ part, e.at? path = some part ∧ part.mark.problem ≠ none

/-- Of two nodes with problems neither is above the other. -/
def ReportsApart (e : Expr) : Prop :=
  ∀ above below, e.ReportedAt above → e.ReportedAt below → above <+: below → above = below

/-! ### Nodes with problems -/

@[simp] theorem reportedAt_nil {e : Expr} : e.ReportedAt [] ↔ e.mark.problem ≠ none := by
  simp [ReportedAt, at?]

@[simp] theorem reportedAt_left {op : Operator} {lhs rhs : Expr} {m : Mark} {path : List Side} :
    (operation op lhs rhs m).ReportedAt (.left :: path) ↔ lhs.ReportedAt path := Iff.rfl

@[simp] theorem reportedAt_right {op : Operator} {lhs rhs : Expr} {m : Mark} {path : List Side} :
    (operation op lhs rhs m).ReportedAt (.right :: path) ↔ rhs.ReportedAt path := Iff.rfl

@[simp] theorem not_reportedAt_literal {v : Literal} {m : Mark} {side : Side} {path : List Side} :
    ¬ (literal v m).ReportedAt (side :: path) := by
  simp [ReportedAt, at?]

@[simp] theorem not_reportedAt_reference {name : String} {m : Mark} {side : Side}
    {path : List Side} : ¬ (reference name m).ReportedAt (side :: path) := by
  simp [ReportedAt, at?]

/-- No node of an expression has a problem exactly when no path leads to one that has. -/
theorem unreported_iff {e : Expr} : Unreported e.preorder ↔ ∀ path, ¬ e.ReportedAt path := by
  induction e with
  | literal v m =>
    constructor
    · intro h path
      cases path with
      | nil => simpa [preorder, Node.problem?] using h
      | cons side path => exact not_reportedAt_literal
    · intro h
      simpa [preorder, Node.problem?] using h []
  | reference name m =>
    constructor
    · intro h path
      cases path with
      | nil => simpa [preorder, Node.problem?] using h
      | cons side path => exact not_reportedAt_reference
    · intro h
      simpa [preorder, Node.problem?] using h []
  | operation op lhs rhs m ihl ihr =>
    rw [preorder, unreported_cons, unreported_append, ihl, ihr]
    constructor
    · rintro ⟨own, left, right⟩ path
      cases path with
      | nil => simpa [Node.problem?] using own
      | cons side path =>
        cases side with
        | left => exact left path
        | right => exact right path
    · intro h
      refine ⟨by simpa [Node.problem?] using h [], ?_, ?_⟩
      · exact fun path ↦ h (.left :: path)
      · exact fun path ↦ h (.right :: path)

/-- Without problems below the root there is nothing above or below another problem. -/
theorem ReportsApart.of_root {e : Expr} (h : ∀ path, e.ReportedAt path → path = []) :
    e.ReportsApart := by
  intro above below hab hbe _
  rw [h above hab, h below hbe]

/-- An operation without a problem of its own keeps apart what its operands keep apart. -/
theorem ReportsApart.operation {op : Operator} {lhs rhs : Expr} {m : Mark} (own : m.problem = none)
    (left : lhs.ReportsApart) (right : rhs.ReportsApart) :
    (operation op lhs rhs m).ReportsApart := by
  intro above below hab hbe before
  match above, below with
  | [], _ => exact absurd own (reportedAt_nil.mp hab)
  | _, [] => exact absurd own (reportedAt_nil.mp hbe)
  | .left :: above, .left :: below =>
    rw [left above below hab hbe (List.cons_prefix_cons.mp before).2]
  | .right :: above, .right :: below =>
    rw [right above below hab hbe (List.cons_prefix_cons.mp before).2]
  | .left :: above, .right :: below => cases (List.cons_prefix_cons.mp before).1
  | .right :: above, .left :: below => cases (List.cons_prefix_cons.mp before).1

/-- The problem that is attached to an expression without problems is the only one in it. -/
theorem reportedAt_report {e : Expr} (clean : Unreported e.preorder) {p : Problem}
    {path : List Side} (h : (e.report p).ReportedAt path) : path = [] := by
  cases path with
  | nil => rfl
  | cons side path =>
    have below : e.ReportedAt (side :: path) := by
      cases e with
      | literal v m => exact absurd h not_reportedAt_literal
      | reference name m => exact absurd h not_reportedAt_reference
      | operation op lhs rhs m =>
        cases side with
        | left => exact h
        | right => exact h
    exact absurd below (unreported_iff.mp clean _)

/-! ### What typing reports -/

/-- Where nothing is reported there is nothing to keep apart. -/
private theorem ReportsApart.of_unreported {e : Expr} (clean : Unreported e.preorder) :
    e.ReportsApart :=
  .of_root fun path h ↦ absurd h (unreported_iff.mp clean path)

/-- The problems that typing attaches to an expression are attached apart. -/
theorem reportsApart_check {e : Expr} (clean : Unreported e.preorder) (scopes : TypeScopes) :
    (e.check scopes).1.ReportsApart := by
  induction e with
  | literal v m => exact .of_unreported clean
  | reference name m =>
    apply ReportsApart.of_root
    intro path h
    cases path with
    | nil => rfl
    | cons side path =>
      unfold check at h
      split at h
      · exact absurd h not_reportedAt_reference
      · exact absurd h not_reportedAt_reference
  | operation op lhs rhs m ihl ihr =>
    simp only [preorder, unreported_cons, unreported_append] at clean
    obtain ⟨own, cleanl, cleanr⟩ := clean
    have own : m.problem = none := own
    unfold check
    cases lhs.unfit? with
    | some p => exact .operation own (.of_root fun _ ↦ reportedAt_report cleanl) (.of_unreported cleanr)
    | none =>
      cases rhs.unfit? with
      | some p =>
        exact .operation own (.of_unreported cleanl) (.of_root fun _ ↦ reportedAt_report cleanr)
      | none =>
        dsimp only
        cases found : (op.check (lhs.check scopes).2 (rhs.check scopes).2).2 with
        | none => exact .operation own (ihl cleanl) (ihr cleanr)
        | some p =>
          -- Both operands have types, so the operation is the only node with a problem.
          obtain ⟨left, right⟩ := Operator.typed_of_check found
          have left := unreported_iff.mp (unreported_of_typed cleanl left)
          have right := unreported_iff.mp (unreported_of_typed cleanr right)
          apply ReportsApart.of_root
          intro path h
          cases path with
          | nil => rfl
          | cons side path =>
            cases side with
            | left => exact absurd h (left path)
            | right => exact absurd h (right path)

/-- An expression without problems has no type after typing exactly when a problem was attached in it or a
name that it reads is bound to no type, and no node with a problem is above another. -/
theorem check_reports_once {e : Expr} (clean : ∀ path, ¬ e.ReportedAt path) (scopes : TypeScopes) :
    ((e.check scopes).2 = none ↔
      (∃ path, (e.check scopes).1.ReportedAt path) ∨
        ∃ name ∈ e.references, scopes.lookup name = some none) ∧
      (e.check scopes).1.ReportsApart := by
  have clean := unreported_iff.mpr clean
  refine ⟨?_, reportsApart_check clean scopes⟩
  rw [← not_iff_not, ← ne_eq, typed_iff clean, unreported_iff]
  simp only [not_or, not_exists, not_and]

/-- Two operands in different places are found wrong, and the operations around them are not; a name that
is bound to no type is read beside one of them, where nothing is looked at. -/
theorem check_reports_once_on_each_side :
    let m := Mark.clean .unknown
    let one : Expr := .literal (.pixels ⟨1, by decide, by decide⟩) m
    let e : Expr := .operation .subtract (.operation .add (.reference "N" m) one m)
      (.operation .multiply one
        (.operation .multiply (.literal (.bool true) m) (.reference "U" m) m) m) m
    let scopes : TypeScopes := Scopes.ofGlobals [("U", none)]
    (∀ path, ¬ e.ReportedAt path) ∧ (e.check scopes).2 = none ∧
      (e.check scopes).1.ReportedAt [.left, .left] ∧
      (e.check scopes).1.ReportedAt [.right, .right, .left] ∧ (e.check scopes).1.ReportsApart := by
  intro m one e scopes
  have clean : ∀ path, ¬ e.ReportedAt path := by
    rw [← unreported_iff, Unreported]
    decide
  obtain ⟨untyped, apart⟩ := check_reports_once clean scopes
  have unbound : (e.check scopes).1.ReportedAt [.left, .left] := ⟨_, rfl, by decide⟩
  have unfit : (e.check scopes).1.ReportedAt [.right, .right, .left] := ⟨_, rfl, by decide⟩
  exact ⟨clean, untyped.mpr (.inl ⟨_, unbound⟩), unbound, unfit, apart⟩

end Expr

end FlatSheet
