import FlatSheet.Folding.Flatten
import FlatSheet.Typing.Check

/-!
# Scopes after a pass

Typing and flattening may bind names in the innermost frame that they are given, and no other frame
ever changes. So a pass in a frame of its own leaves the scopes as they were, at whatever point it
stops, and a conditional block of either pass is followed by the scopes that it began with.
-/

namespace FlatSheet

namespace Scopes

variable {V α : Type}

/-- What is bound last goes away with the innermost frame. -/
@[simp] theorem pop_declare (s : Scopes V) (name : String) (value : V) :
    (s.declare name value).pop = s.pop := by
  unfold declare
  split
  · next h => simp [pop, h]
  · next frame frames h => simp [pop, h]

/-- A pass that only binds in its innermost frame leaves nothing behind when it is enclosed. -/
theorem enclosed_snd {pass : Scopes V → α × Scopes V} (s : Scopes V)
    (h : (pass s.push).2.pop = s.push.pop) : (s.enclosed pass).2 = s := by
  unfold enclosed
  rw [h, pop_push]

/-- The result of an enclosed pass is the result in the new frame. -/
@[simp] theorem enclosed_fst (pass : Scopes V → α × Scopes V) (s : Scopes V) :
    (s.enclosed pass).1 = (pass s.push).1 := rfl

end Scopes

/-! ### Typing -/

/-- Typing the items of a block changes the innermost frame only. -/
theorem Block.pop_check (b : Block) (scopes : TypeScopes) :
    (b.check scopes).2.pop = scopes.pop := by
  induction b generalizing scopes with
  | empty => rfl
  | declaration d rest ih => exact ih scopes
  | assignment a rest ih =>
    rw [Block.check, ih, Scopes.pop_declare]
  | ifThen c body m rest ihBody ih =>
    rw [Block.check, ih, ihBody, Scopes.pop_push]
  | ifElse c body m other om rest ihBody ihOther ih =>
    rw [Block.check, ih, Scopes.enclosed_snd _ (ihOther _), ihBody, Scopes.pop_push]

/-- After a block in a frame of its own the scopes are as before. -/
@[simp] theorem Block.enclosed_check (b : Block) (scopes : TypeScopes) :
    (scopes.enclosed b.check).2 = scopes :=
  Scopes.enclosed_snd scopes (b.pop_check _)

/-- A frame in which a block was typed is gone with the frame. -/
@[simp] theorem Block.pop_check_push (b : Block) (scopes : TypeScopes) :
    (b.check scopes.push).2.pop = scopes := by
  rw [b.pop_check, Scopes.pop_push]

/-- What follows a conditional block is typed in the scopes in which the block began. -/
theorem Block.check_ifThen (c : Expr) (body : Block) (m : Mark) (rest : Block)
    (scopes : TypeScopes) :
    (ifThen c body m rest).check scopes =
      (ifThen (c.checkCondition scopes.push) (body.check scopes.push).1 m (rest.check scopes).1,
        (rest.check scopes).2) := by
  simp only [Block.check, pop_check_push]

/-- The second branch is typed in a frame inside that of the first; what follows is typed in the
scopes in which the block began. -/
theorem Block.check_ifElse (c : Expr) (body : Block) (m : Mark) (other : Block) (om : Mark)
    (rest : Block) (scopes : TypeScopes) :
    (ifElse c body m other om rest).check scopes =
      (ifElse (c.checkCondition scopes.push) (body.check scopes.push).1 m
        (other.check (body.check scopes.push).2.push).1 om (rest.check scopes).1,
        (rest.check scopes).2) := by
  simp only [Block.check, enclosed_check, pop_check_push, Scopes.enclosed_fst]

/-- Typing a rule changes no scope. -/
@[simp] theorem Rule.check_snd (r : Rule) (scopes : TypeScopes) : (r.check scopes).2 = scopes :=
  r.body.enclosed_check scopes

/-- Typing members changes the innermost frame only. -/
theorem Sheet.pop_checkMembers (members : List Member) (scopes : TypeScopes) :
    (checkMembers members scopes).2.pop = scopes.pop := by
  induction members generalizing scopes with
  | nil => rfl
  | cons m members ih =>
    cases m with
    | rule r => rw [checkMembers, ih, Rule.check_snd]
    | assignment a => rw [checkMembers, ih, Scopes.pop_declare]

/-- Typing a sheet leaves the scopes as they were. -/
@[simp] theorem Sheet.check_snd (s : Sheet) (scopes : TypeScopes) : (s.check scopes).2 = scopes :=
  Scopes.enclosed_snd scopes (pop_checkMembers s.members _)

/-! ### Flattening -/

/-- Flattening the items of a block changes the innermost frame only, also where it fails. -/
theorem Block.pop_flatten (b : Block) (scopes : ValueScopes) :
    (b.flatten scopes).2.pop = scopes.pop := by
  induction b generalizing scopes with
  | empty => rfl
  | declaration d rest ih =>
    unfold Block.flatten
    split
    · rfl
    · exact ih scopes
  | assignment a rest ih =>
    unfold Block.flatten
    split
    · rfl
    · rw [ih, Scopes.pop_declare]
  | ifThen c body m rest ihBody ih =>
    have restored := Scopes.enclosed_snd scopes (ihBody scopes.push)
    unfold Block.flatten
    split
    · rfl
    · exact ih scopes
    · dsimp only
      split
      · rw [restored]
      · rw [ih, restored]
  | ifElse c body m other om rest ihBody ihOther ih =>
    have restored (taken : Bool) : (if taken then scopes.enclosed body.flatten
        else scopes.enclosed other.flatten).2 = scopes := by
      cases taken with
      | false => exact Scopes.enclosed_snd scopes (ihOther scopes.push)
      | true => exact Scopes.enclosed_snd scopes (ihBody scopes.push)
    unfold Block.flatten
    split
    · rfl
    · dsimp only
      split
      · rw [restored]
      · rw [ih, restored]

/-- After a block in a frame of its own the scopes are as before, also where it fails. -/
@[simp] theorem Block.enclosed_flatten (b : Block) (scopes : ValueScopes) :
    (scopes.enclosed b.flatten).2 = scopes :=
  Scopes.enclosed_snd scopes (b.pop_flatten _)

/-- The result for a declaration: its value is folded before the items after it. -/
theorem Block.flatten_declaration (d : Declaration) (rest : Block) (scopes : ValueScopes) :
    ((declaration d rest).flatten scopes).1 = (do
      let value ← d.value.fold scopes
      let items ← (rest.flatten scopes).1
      .ok (declaration (d.withValue value) items)) := by
  rw [Block.flatten]
  cases d.value.fold scopes with
  | error e => rfl
  | ok value => cases h : (rest.flatten scopes).1 <;> simp [h, Except.map, bind, Except.bind]

/-- The result for an assignment, which is seen by the items after it. -/
theorem Block.flatten_assignment (a : Assignment) (rest : Block) (scopes : ValueScopes) :
    ((assignment a rest).flatten scopes).1 = (do
      let value ← a.value.fold scopes
      (rest.flatten (scopes.declare a.name value)).1) := by
  rw [Block.flatten]
  cases a.value.fold scopes <;> rfl

/-- The result for a conditional block with one branch: what is in the branch comes before the items
after it. -/
theorem Block.flatten_ifThen (c : Expr) (body : Block) (m : Mark) (rest : Block)
    (scopes : ValueScopes) :
    ((ifThen c body m rest).flatten scopes).1 = (do
      let taken ← c.foldCondition scopes
      let branch ← (if taken then (body.flatten scopes.push).1 else .ok empty)
      let items ← (rest.flatten scopes).1
      .ok (branch ++ items)) := by
  rw [Block.flatten]
  cases c.foldCondition scopes with
  | error e => rfl
  | ok taken =>
    cases taken with
    | false => cases (rest.flatten scopes).1 <;> simp [bind, Except.bind]
    | true =>
      simp only [enclosed_flatten, Scopes.enclosed_fst]
      cases (body.flatten scopes.push).1 <;> cases (rest.flatten scopes).1 <;>
        simp [Except.map, bind, Except.bind]

/-- The result for a conditional block with two branches, neither of which sees what the other
binds. -/
theorem Block.flatten_ifElse (c : Expr) (body : Block) (m : Mark) (other : Block) (om : Mark)
    (rest : Block) (scopes : ValueScopes) :
    ((ifElse c body m other om rest).flatten scopes).1 = (do
      let taken ← c.foldCondition scopes
      let branch ← ((if taken then body else other).flatten scopes.push).1
      let items ← (rest.flatten scopes).1
      .ok (branch ++ items)) := by
  rw [Block.flatten]
  cases c.foldCondition scopes with
  | error e => rfl
  | ok taken =>
    have live : (if taken then scopes.enclosed body.flatten else scopes.enclosed other.flatten) =
        (((if taken then body else other).flatten scopes.push).1, scopes) := by
      cases taken <;> exact Prod.ext rfl (enclosed_flatten _ _)
    simp only [live]
    cases h : ((if taken then body else other).flatten scopes.push).1 <;>
      cases (rest.flatten scopes).1 <;> simp [h, Except.map, bind, Except.bind]

/-- Flattening a rule changes no scope, also where it fails. -/
@[simp] theorem Rule.flatten_snd (r : Rule) (scopes : ValueScopes) :
    (r.flatten scopes).2 = scopes :=
  r.body.enclosed_flatten scopes

/-- The result for some members that begin with a rule. -/
theorem Sheet.flattenMembers_rule (r : Rule) (members : List Member) (scopes : ValueScopes) :
    (flattenMembers (.rule r :: members) scopes).1 = (do
      let body ← (r.body.flatten scopes.push).1
      let others ← (flattenMembers members scopes).1
      .ok (.rule ⟨r.selectors, body, .clean r.mark.position⟩ :: others)) := by
  have flat : (r.flatten scopes).1 = (r.body.flatten scopes.push).1.map
      fun items ↦ ⟨r.selectors, items, .clean r.mark.position⟩ := rfl
  simp only [flattenMembers, flat, Rule.flatten_snd]
  cases (r.body.flatten scopes.push).1 with
  | error e => rfl
  | ok body => cases (flattenMembers members scopes).1 <;> simp [Except.map, bind, Except.bind]

/-- The result for some members that begin with an assignment, which is seen by the others. -/
theorem Sheet.flattenMembers_assignment (a : Assignment) (members : List Member)
    (scopes : ValueScopes) :
    (flattenMembers (.assignment a :: members) scopes).1 = (do
      let value ← a.value.fold scopes
      (flattenMembers members (scopes.declare a.name value)).1) := by
  rw [flattenMembers]
  cases a.value.fold scopes <;> rfl

/-- Flattening members changes the innermost frame only, also where it fails. -/
theorem Sheet.pop_flattenMembers (members : List Member) (scopes : ValueScopes) :
    (flattenMembers members scopes).2.pop = scopes.pop := by
  induction members generalizing scopes with
  | nil => rfl
  | cons m members ih =>
    cases m with
    | rule r =>
      unfold flattenMembers
      dsimp only
      split
      · rw [Rule.flatten_snd]
      · rw [ih, Rule.flatten_snd]
    | assignment a =>
      unfold flattenMembers
      split
      · rfl
      · rw [ih, Scopes.pop_declare]

/-- Flattening a sheet leaves the scopes as they were, also where it fails. -/
@[simp] theorem Sheet.flatten_snd (s : Sheet) (scopes : ValueScopes) :
    (s.flatten scopes).2 = scopes :=
  Scopes.enclosed_snd scopes (pop_flattenMembers s.members _)

end FlatSheet
