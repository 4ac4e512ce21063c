import FlatSheet.Scopes
import FlatSheet.Sheet
import FlatSheet.Typing.Properties

/-!
# Typing a sheet

Typing goes through a sheet in order and attaches a problem to each declaration and expression that is
wrong. It never stops early. An expression that is wrong, or is built on one that is, has no type, and
where a type is missing nothing further is reported for want of it. Scopes bind a variable to the type
of what was assigned to it, and to no type if that has none.

The condition of a conditional block and both branches are typed in a frame that the block opens; the
second branch has a frame of its own inside it, so what the first branch assigns is visible there.
-/

namespace FlatSheet

/-- Scopes for typing, in which a variable may be bound to no type. -/
abbrev TypeScopes := Scopes (Option Ty)

/-- What is wrong with an operand that is itself a color or a truth value. -/
def Expr.unfit? : Expr → Option Problem
  | literal (.color _) _ => some .colorOperand
  | literal (.bool _) _ => some .boolOperand
  | _ => none

/-- The type of an operation on operands that may have none, and what is wrong with it. -/
def Operator.check (op : Operator) : Option Ty → Option Ty → Option Ty × Option Problem
  | some lhs, some rhs =>
    match op.typeOf lhs rhs with
    | .ok t => (some t, none)
    | .error p => (none, some p)
  | _, _ => (none, none)

/-- Attach a problem to a mark if there is one. -/
def Mark.reportAny (m : Mark) : Option Problem → Mark
  | none => m
  | some p => m.report p

/-- Type an expression. An operand that is itself a color or a truth value is reported at once, the left
one before the right, and then nothing else in the operation is typed. -/
def Expr.check (scopes : TypeScopes) : Expr → Expr × Option Ty
  | literal value m => (literal value m, some value.type)
  | reference name m =>
    match scopes.lookup name with
    | some t => (reference name m, t)
    | none => (reference name (m.report (.undefinedVariable name)), none)
  | operation op lhs rhs m =>
    match lhs.unfit?, rhs.unfit? with
    | some p, _ => (operation op (lhs.report p) rhs m, none)
    | none, some p => (operation op lhs (rhs.report p) m, none)
    | none, none =>
      let l := lhs.check scopes
      let r := rhs.check scopes
      let result := op.check l.2 r.2
      (operation op l.1 r.1 (m.reportAny result.2), result.1)

/-- Type a condition, which is to be a truth value. -/
def Expr.checkCondition (scopes : TypeScopes) (e : Expr) : Expr :=
  match e.check scopes with
  | (typed, some .bool) => typed
  | (typed, none) => typed
  | (typed, some _) => typed.report .conditionNotBoolean

/-- What is wrong with a value of a type, or of none, for a property. -/
def Property.problem? (property : String) (type : Option Ty) : Option Problem :=
  match find? property, type with
  | none, _ => some (.unknownProperty property)
  | some _, none => none
  | some p, some t =>
    if t ∈ p.allowed then none else some (.propertyType property p.description)

/-- Type a declaration. -/
def Declaration.check (scopes : TypeScopes) (d : Declaration) : Declaration :=
  let value := d.value.check scopes
  ⟨d.property, value.1, d.mark.reportAny (Property.problem? d.property value.2)⟩

/-- Type an assignment. The second part is the type that its variable gets. -/
def Assignment.check (scopes : TypeScopes) (a : Assignment) : Assignment × Option Ty :=
  let value := a.value.check scopes
  (⟨a.name, value.1, a.mark⟩, value.2)

/-- Type the items of a block in order. -/
def Block.check : Block → TypeScopes → Block × TypeScopes
  | empty, scopes => (empty, scopes)
  | declaration d rest, scopes =>
    let items := rest.check scopes
    (declaration (d.check scopes) items.1, items.2)
  | assignment a rest, scopes =>
    let typed := a.check scopes
    let items := rest.check (scopes.declare a.name typed.2)
    (assignment typed.1 items.1, items.2)
  | ifThen c body m rest, scopes =>
    let branch := body.check scopes.push
    let items := rest.check branch.2.pop
    (ifThen (c.checkCondition scopes.push) branch.1 m items.1, items.2)
  | ifElse c body m otherwise om rest, scopes =>
    let branch := body.check scopes.push
    let other := branch.2.enclosed otherwise.check
    let items := rest.check other.2.pop
    (ifElse (c.checkCondition scopes.push) branch.1 m other.1 om items.1, items.2)

/-- Type a rule, whose block has a frame of its own. -/
def Rule.check (r : Rule) (scopes : TypeScopes) : Rule × TypeScopes :=
  let body := scopes.enclosed r.body.check
  (⟨r.selectors, body.1, r.mark⟩, body.2)

/-- Type members in order. -/
def Sheet.checkMembers : List Member → TypeScopes → List Member × TypeScopes
  | [], scopes => ([], scopes)
  | .rule r :: members, scopes =>
    let typed := r.check scopes
    let others := checkMembers members typed.2
    (.rule typed.1 :: others.1, others.2)
  | .assignment a :: members, scopes =>
    let typed := a.check scopes
    let others := checkMembers members (scopes.declare a.name typed.2)
    (.assignment typed.1 :: others.1, others.2)

/-- Type a sheet, whose own variables have a frame inside the given scopes. -/
def Sheet.check (s : Sheet) (scopes : TypeScopes) : Sheet × TypeScopes :=
  let members := scopes.enclosed (checkMembers s.members)
  (⟨members.1, s.problem⟩, members.2)

/-- The scopes for typing in which some variables have the types of their values. -/
def TypeScopes.ofGlobals (globals : List (String × Literal)) : TypeScopes :=
  Scopes.ofGlobals (globals.map fun g ↦ (g.1, some g.2.type))

end FlatSheet
