import FlatSheet.Proofs.Scopes.Environment
import FlatSheet.Proofs.Scopes.Restored

/-!
# Flattening without frames

What flattening means can be said without a stack of frames. A sheet is gone through in document
order with an environment, which is passed on by value: each item sees what was bound before it, and
what is bound in a branch or a rule is not seen after it. All that is found on the way is collected,
the declarations and rules that are kept and the errors, and nothing stops at an error. The outcome
is the first error, or all that is kept. Flattening has that outcome for every sheet and all scopes.
-/

namespace FlatSheet

/-- What is found in a part of a sheet: what is kept, and the errors, both in document order. -/
structure Findings (α : Type) where
  kept : List α
  errors : List FoldError

namespace Findings

variable {α β : Type}

/-- Nothing is found. -/
def nothing : Findings α := ⟨[], []⟩

/-- One error. -/
def error (e : FoldError) : Findings α := ⟨[], [e]⟩

/-- One thing that is kept. -/
def keep (a : α) : Findings α := ⟨[a], []⟩

/-- What is found in one part and then in another. -/
def append (a b : Findings α) : Findings α := ⟨a.kept ++ b.kept, a.errors ++ b.errors⟩

/-- Findings in the order of their parts. -/
instance : Append (Findings α) where append := append

/-- The first error, or all that is kept if there is none. -/
def outcome (f : Findings α) : Except FoldError (List α) :=
  match f.errors with
  | [] => .ok f.kept
  | e :: _ => .error e

@[simp] theorem kept_append (a b : Findings α) : (a ++ b).kept = a.kept ++ b.kept := rfl

@[simp] theorem errors_append (a b : Findings α) : (a ++ b).errors = a.errors ++ b.errors := rfl

/-- The errors of the first part come before those of the second. -/
theorem outcome_append (a b : Findings α) :
    (a ++ b).outcome = (do
      let first ← a.outcome
      let second ← b.outcome
      .ok (first ++ second)) := by
  unfold outcome
  cases ha : a.errors with
  | cons e errors =>
    rw [errors_append, ha]
    rfl
  | nil =>
    rw [errors_append, ha]
    cases hb : b.errors <;> simp [bind, Except.bind]

end Findings

/-! ### The meaning of a sheet -/

/-- The value of an expression in an environment; the left operand comes before the right one. -/
def Expr.valueIn (env : Environment Literal) : Expr → Except FoldError Literal
  | literal value _ => .ok value
  | reference name _ =>
    match env name with
    | some value => .ok value
    | none => .error (.unboundVariable name)
  | operation op lhs rhs _ => do
    let l ← lhs.valueIn env
    let r ← rhs.valueIn env
    op.apply l r

/-- What is found in a declaration: itself with the value of its expression, which keeps its place. -/
def Declaration.resolve (d : Declaration) (env : Environment Literal) : Findings Declaration :=
  match d.value.valueIn env with
  | .ok value =>
    .keep { d with value := .literal value (.clean d.value.mark.position) }
  | .error e => .error e

namespace Block

/-- What is found in the items of a block. Of a conditional block only the branch that its condition
selects is looked at. -/
def resolve : Block → Environment Literal → Findings Declaration
  | empty, _ => .nothing
  | declaration d rest, env => d.resolve env ++ rest.resolve env
  | assignment a rest, env =>
    match a.value.valueIn env with
    | .ok value => rest.resolve (env.bind a.name value)
    | .error e => .error e ++ rest.resolve env
  | ifThen c body _ rest, env =>
    (match c.valueIn env with
      | .ok (.bool true) => body.resolve env
      | .ok (.bool false) => .nothing
      | .ok found => .error (.conditionNotBoolean found)
      | .error e => .error e) ++ rest.resolve env
  | ifElse c body _ otherwise _ rest, env =>
    (match c.valueIn env with
      | .ok (.bool true) => body.resolve env
      | .ok (.bool false) => otherwise.resolve env
      | .ok found => .error (.conditionNotBoolean found)
      | .error e => .error e) ++ rest.resolve env

/-- A block of declarations alone. -/
def ofDeclarations : List Declaration → Block
  | [] => empty
  | d :: declarations => declaration d (ofDeclarations declarations)

/-- The declarations of a block of declarations are these. -/
@[simp] theorem declarations_ofDeclarations (declarations : List Declaration) :
    (ofDeclarations declarations).declarations = declarations := by
  induction declarations with
  | nil => rfl
  | cons d declarations ih => rw [ofDeclarations, Block.declarations, ih]

/-- Declarations of one block and then of another make up the two blocks together. -/
theorem ofDeclarations_append (a b : List Declaration) :
    ofDeclarations (a ++ b) = ofDeclarations a ++ ofDeclarations b := by
  induction a with
  | nil => rfl
  | cons d a ih => rw [List.cons_append, ofDeclarations, ofDeclarations, ih, declaration_append]

end Block

/-- What is found in a rule: itself with the declarations that are kept, and the errors among them. -/
def Rule.resolve (r : Rule) (env : Environment Literal) : Findings Rule :=
  let body := r.body.resolve env
  ⟨[⟨r.selectors, .ofDeclarations body.kept, .clean r.mark.position⟩], body.errors⟩

namespace Sheet

/-- What is found in some members. -/
def resolveMembers : List Member → Environment Literal → Findings Rule
  | [], _ => .nothing
  | .rule r :: members, env => r.resolve env ++ resolveMembers members env
  | .assignment a :: members, env =>
    match a.value.valueIn env with
    | .ok value => resolveMembers members (env.bind a.name value)
    | .error e => .error e ++ resolveMembers members env

/-- What is found in a sheet. -/
def resolve (s : Sheet) (env : Environment Literal) : Findings Rule := resolveMembers s.members env

end Sheet

/-! ### Flattening has the outcome of the meaning -/

/-- Folding looks a name up in the environment of the scopes. -/
theorem Expr.fold_eq_valueIn (scopes : ValueScopes) (e : Expr) :
    e.fold scopes = e.valueIn scopes.lookup := by
  induction e with
  | literal value m => rfl
  | reference name m => rfl
  | operation op lhs rhs m ihl ihr =>
    rw [fold, ihl, ihr, valueIn]
    cases lhs.valueIn scopes.lookup with
    | error e => rfl
    | ok l => cases rhs.valueIn scopes.lookup <;> rfl

/-- A condition is a truth value in the environment, or something is wrong with it. -/
theorem Expr.foldCondition_eq (scopes : ValueScopes) (c : Expr) :
    c.foldCondition scopes =
      match c.valueIn scopes.lookup with
      | .ok (.bool b) => .ok b
      | .ok found => .error (.conditionNotBoolean found)
      | .error e => .error e := by
  rw [foldCondition, fold_eq_valueIn]
  cases c.valueIn scopes.lookup with
  | error e => rfl
  | ok value => cases value <;> rfl

private theorem Block.outcome_append (a b : Findings Declaration) :
    (a ++ b).outcome.map ofDeclarations = (do
      let first ← a.outcome.map ofDeclarations
      let second ← b.outcome.map ofDeclarations
      .ok (first ++ second)) := by
  rw [Findings.outcome_append]
  cases a.outcome with
  | error e => rfl
  | ok first =>
    cases b.outcome with
    | error e => rfl
    | ok second =>
      show Except.ok (ofDeclarations (first ++ second)) = _
      rw [ofDeclarations_append]
      rfl

/-- A block is flattened to the declarations that are found in it, or fails with the first error. -/
theorem Block.flatten_eq_outcome (b : Block) (scopes : ValueScopes) :
    (b.flatten scopes).1 = (b.resolve scopes.lookup).outcome.map ofDeclarations := by
  induction b generalizing scopes with
  | empty => rfl
  | declaration d rest ih =>
    rw [flatten_declaration, Expr.fold_eq_valueIn, resolve, outcome_append, ih,
      Declaration.resolve]
    cases d.value.valueIn scopes.lookup <;> rfl
  | assignment a rest ih =>
    rw [flatten_assignment, Expr.fold_eq_valueIn, resolve]
    cases a.value.valueIn scopes.lookup with
    | error e => rfl
    | ok value =>
      have bound := ih (scopes.declare a.name value)
      rw [Scopes.lookup_declare_eq_bind] at bound
      exact bound
  | ifThen c body m rest ihBody ih =>
    rw [flatten_ifThen, Expr.foldCondition_eq, resolve, outcome_append, ih, ihBody,
      Scopes.lookup_push_eq]
    cases c.valueIn scopes.lookup with
    | error e => rfl
    | ok value =>
      cases value with
      | bool live => cases live <;> rfl
      | _ => rfl
  | ifElse c body m other om rest ihBody ihOther ih =>
    rw [flatten_ifElse, Expr.foldCondition_eq, resolve, outcome_append, ih]
    cases c.valueIn scopes.lookup with
    | error e => rfl
    | ok value =>
      cases value with
      | bool live =>
        cases live with
        | true =>
          have branch := ihBody scopes.push
          simp only [bind, Except.bind, if_true, branch, Scopes.lookup_push_eq]
        | false =>
          have branch := ihOther scopes.push
          simp only [bind, Except.bind, Bool.false_eq_true, if_false, branch,
            Scopes.lookup_push_eq]
      | _ => rfl

/-- Members are flattened to the rules that are found in them, or fail with the first error. -/
theorem Sheet.flattenMembers_eq_resolve (members : List Member) (scopes : ValueScopes) :
    (flattenMembers members scopes).1 =
      (resolveMembers members scopes.lookup).outcome.map (·.map Member.rule) := by
  induction members generalizing scopes with
  | nil => rfl
  | cons m members ih =>
    cases m with
    | rule r =>
      rw [flattenMembers_rule, r.body.flatten_eq_outcome, Scopes.lookup_push_eq, ih, resolveMembers,
        Findings.outcome_append]
      have body : (r.resolve scopes.lookup).outcome = (r.body.resolve scopes.lookup).outcome.map
          fun kept ↦ [⟨r.selectors, .ofDeclarations kept, .clean r.mark.position⟩] := by
        unfold Rule.resolve Findings.outcome
        cases (r.body.resolve scopes.lookup).errors <;> rfl
      rw [body]
      cases (r.body.resolve scopes.lookup).outcome with
      | error e => rfl
      | ok kept => cases (resolveMembers members scopes.lookup).outcome <;> rfl
    | assignment a =>
      rw [flattenMembers_assignment, Expr.fold_eq_valueIn, resolveMembers]
      cases a.value.valueIn scopes.lookup with
      | error e => rfl
      | ok value =>
        have bound := ih (scopes.declare a.name value)
        rw [Scopes.lookup_declare_eq_bind] at bound
        exact bound

/-- A sheet is flattened to the rules that are found in it, or fails with the first error that is
found, whatever the frames of the scopes. -/
theorem Sheet.flatten_eq_resolve (s : Sheet) (scopes : ValueScopes) :
    (s.flatten scopes).1 = (s.resolve scopes.lookup).outcome.map
      fun rules ↦ ⟨rules.map Member.rule, s.problem⟩ := by
  have members := flattenMembers_eq_resolve s.members scopes.push
  rw [Scopes.lookup_push_eq] at members
  rw [flatten, Scopes.enclosed_fst, members, resolve]
  cases (resolveMembers s.members scopes.lookup).outcome <;> rfl

end FlatSheet
