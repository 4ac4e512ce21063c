import FlatSheet.Folding.Arithmetic
import FlatSheet.Scopes
import FlatSheet.Sheet

/-!
# Flattening a sheet

A flat sheet has no assignments and no conditional blocks, and the value of each declaration is a
literal. Flattening binds what is assigned, folds each value, and puts the items of the branch that is
taken in the place of its conditional block. It stops at the first error. The frames that it opens are
closed again in either case.
-/

namespace FlatSheet

/-- Scopes that bind variables to values. -/
abbrev ValueScopes := Scopes Literal

/-- The value of an expression; the left operand of an operation is folded before the right one. -/
def Expr.fold (scopes : ValueScopes) : Expr → Except FoldError Literal
  | literal value _ => .ok value
  | reference name _ =>
    match scopes.lookup name with
    | some value => .ok value
    | none => .error (.unboundVariable name)
  | operation op lhs rhs _ =>
    match lhs.fold scopes with
    | .error e => .error e
    | .ok l =>
      match rhs.fold scopes with
      | .error e => .error e
      | .ok r => op.apply l r

/-- The truth value of a condition. -/
def Expr.foldCondition (scopes : ValueScopes) (e : Expr) : Except FoldError Bool :=
  match e.fold scopes with
  | .error e => .error e
  | .ok (.bool b) => .ok b
  | .ok found => .error (.conditionNotBoolean found)

/-- A declaration with another value, at the position of the old one and with nothing wrong. -/
def Declaration.withValue (d : Declaration) (value : Literal) : Declaration :=
  ⟨d.property, .literal value (.clean d.value.mark.position), d.mark⟩

/-- Flatten the items of a block in order. -/
def Block.flatten : Block → ValueScopes → Except FoldError Block × ValueScopes
  | empty, scopes => (.ok empty, scopes)
  | declaration d rest, scopes =>
    match d.value.fold scopes with
    | .error e => (.error e, scopes)
    | .ok value =>
      let items := rest.flatten scopes
      (items.1.map (declaration (d.withValue value)), items.2)
  | assignment a rest, scopes =>
    match a.value.fold scopes with
    | .error e => (.error e, scopes)
    | .ok value => rest.flatten (scopes.declare a.name value)
  | ifThen c body _ rest, scopes =>
    match c.foldCondition scopes with
    | .error e => (.error e, scopes)
    | .ok false => rest.flatten scopes
    | .ok true =>
      let live := scopes.enclosed body.flatten
      match live.1 with
      | .error e => (.error e, live.2)
      | .ok branch =>
        let items := rest.flatten live.2
        (items.1.map (branch ++ ·), items.2)
  | ifElse c body _ otherwise _ rest, scopes =>
    match c.foldCondition scopes with
    | .error e => (.error e, scopes)
    | .ok taken =>
      let live := if taken then scopes.enclosed body.flatten else scopes.enclosed otherwise.flatten
      match live.1 with
      | .error e => (.error e, live.2)
      | .ok branch =>
        let items := rest.flatten live.2
        (items.1.map (branch ++ ·), items.2)

/-- Flatten a rule in a frame of its own. A problem that is attached to the rule is dropped. -/
def Rule.flatten (r : Rule) (scopes : ValueScopes) : Except FoldError Rule × ValueScopes :=
  let body := scopes.enclosed r.body.flatten
  (body.1.map fun items ↦ ⟨r.selectors, items, .clean r.mark.position⟩, body.2)

/-- Flatten members in order; only rules are left. -/
def Sheet.flattenMembers : List Member → ValueScopes → Except FoldError (List Member) × ValueScopes
  | [], scopes => (.ok [], scopes)
  | .rule r :: members, scopes =>
    let flat := r.flatten scopes
    match flat.1 with
    | .error e => (.error e, flat.2)
    | .ok rule =>
      let others := flattenMembers members flat.2
      (others.1.map (.rule rule :: ·), others.2)
  | .assignment a :: members, scopes =>
    match a.value.fold scopes with
    | .error e => (.error e, scopes)
    | .ok value => flattenMembers members (scopes.declare a.name value)

/-- Flatten a sheet, whose own variables have a frame inside the given scopes. -/
def Sheet.flatten (s : Sheet) (scopes : ValueScopes) : Except FoldError Sheet × ValueScopes :=
  let members := scopes.enclosed (flattenMembers s.members)
  (members.1.map fun members ↦ ⟨members, s.problem⟩, members.2)

end FlatSheet
