import FlatSheet.Proofs.Typing.Soundness

/-!
# Names that a branch binds again

Typing lets the second branch of a conditional block see what the first one binds, and the run does
not. A name that has a value outside, and that the first branch binds again to another type, is then
read in the second branch at a type that its value does not have. Sheets that do only this show that
reading alike cannot be given up for any pair of types: the value reaches arithmetic, a condition or
the output.
-/

namespace FlatSheet

/-- A sheet that binds a name, and binds it again in a first branch that is not taken, before the
name is used in the second branch. -/
def Sheet.rebinding (outer inner : Literal) (use : Block) : Sheet :=
  let m := Mark.clean .unknown
  .ofMembers
    [.assignment ⟨"N", .literal outer m, m⟩,
      .rule ⟨[.tag "a"],
        .ifElse (.literal (.bool false) m) (.assignment ⟨"N", .literal inner m, m⟩ .empty) m use m
          .empty, m⟩]

/-- A use of a name that typing accepts when the name has the type of a literal: a declaration for a
color, a condition for a truth value and a sum for an amount. -/
def Block.useAs (value : Literal) : Block :=
  let m := Mark.clean .unknown
  match value with
  | .color _ => .declaration ⟨"color", .reference "N" m, m⟩ .empty
  | .bool _ => .ifThen (.reference "N" m) .empty m .empty
  | amount => .assignment ⟨"X", .operation .add (.reference "N" m) (.literal amount m) m, m⟩ .empty

namespace Sheet

/-- A use of the name at the type of the first branch is accepted. -/
theorem diagnostics_check_rebinding (outer inner : Literal) :
    ((rebinding outer inner (.useAs inner)).check .empty).1.diagnostics = [] := by
  have nothing (nodes : List Node) (h : nodes.all (·.problem?.isNone)) : Unreported nodes := by
    intro n hn
    exact Option.isNone_iff_eq_none.mp (List.all_eq_true.mp h n hn)
  rw [diagnostics_check_eq_nil_iff]
  refine ⟨rfl, nothing _ ?_⟩
  cases inner <;> rfl

private theorem alike_bound_iff {t u : Ty} :
    Alike True (some (some t)) (some (some u)) ↔ t = u := by
  simp [Alike]

/-- The name is read alike exactly when it is bound again to a value of the same type. -/
theorem readsAlike_rebinding_iff (outer inner : Literal) :
    (rebinding outer inner (.useAs inner)).ReadsAlike True .empty ↔ outer.type = inner.type := by
  have uses : (Block.useAs inner).ReadsAlike True
      (((Scopes.empty.push.declare "N" (some outer.type)).push.push.declare "N"
        (some inner.type)).push)
      (((Scopes.empty.push.declare "N" (some outer.type)).push).push) ↔
        outer.type = inner.type := by
    cases inner <;> simp [Block.useAs, Block.ReadsAlike, Expr.ReadsAlike, Expr.references,
      Scopes.lookup_declare, alike_bound_iff, eq_comm]
  simpa [rebinding, ReadsAlike, MembersReadAlike, Block.ReadsAlike, Expr.ReadsAlike,
    Expr.references, ofMembers, Expr.check, Block.check, Assignment.check] using uses

/-- What becomes of a use of the name at another type: a color in the output is replaced by a value
that is none, and a condition or a sum fails. -/
theorem flatten_rebinding {outer inner : Literal} (h : outer.type ≠ inner.type) :
    ((rebinding outer inner (.useAs inner)).flatten .empty).1 =
      match inner with
      | .color _ => .ok (.ofMembers [.rule ⟨[.tag "a"], .declaration
          ⟨"color", .literal outer (.clean .unknown), .clean .unknown⟩ .empty, .clean .unknown⟩])
      | .bool _ => .error (.conditionNotBoolean outer)
      | amount => .error (.invalidOperands .add outer amount) := by
  cases outer <;> cases inner <;> first | exact absurd rfl h | rfl

/-- The use of the name goes as it should exactly when the name is read alike. So every pair of
types has a sheet that is accepted and goes wrong. -/
theorem outcome_flatten_rebinding_iff (outer inner : Literal) :
    Outcome WellTyped (FoldError.Permitted True)
        ((rebinding outer inner (.useAs inner)).flatten .empty).1 ↔
      (rebinding outer inner (.useAs inner)).ReadsAlike True .empty := by
  constructor
  · rw [readsAlike_rebinding_iff]
    intro outcome
    apply Decidable.byContradiction
    intro differ
    rw [flatten_rebinding differ] at outcome
    cases inner with
    | color t =>
      have declared : Declaration.WellTyped
          ⟨"color", .literal outer (.clean .unknown), .clean .unknown⟩ := outcome _ (by
        simp [nodes_eq_preorder, preorder, ofMembers, Member.preorder, Block.preorder])
      rcases declared with ⟨p, hp, value, m, hvalue, mem⟩
      cases hp
      cases hvalue
      exact differ (List.mem_singleton.mp mem)
    | bool b => rcases outcome with ⟨_, _, _, h⟩ | ⟨-, _, h⟩ <;> cases h
    | pixels n => rcases outcome with ⟨_, _, _, h⟩ | ⟨-, _, h⟩ <;> cases h
    | percentage n => rcases outcome with ⟨_, _, _, h⟩ | ⟨-, _, h⟩ <;> cases h
    | scalar n => rcases outcome with ⟨_, _, _, h⟩ | ⟨-, _, h⟩ <;> cases h
  · intro alike
    exact outcome_flatten (diagnostics_check_rebinding outer inner) alike fun _ ↦ rfl

end Sheet

end FlatSheet
