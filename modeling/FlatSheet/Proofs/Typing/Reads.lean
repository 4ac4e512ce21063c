import FlatSheet.Proofs.Scopes.Restored

/-!
# What a sheet reads

When a sheet is run, a second branch no longer sees what the first one binds, as it does when the
sheet is typed. `ReadsAlike` follows a sheet with the scopes of both, and says that each name that
is read is found alike in both. It is so for every sheet in which no second branch reads what its
first branch assigns.
-/

namespace FlatSheet

/-- The names that an expression reads. -/
def Expr.references : Expr → List String
  | literal _ _ => []
  | reference name _ => [name]
  | operation _ lhs rhs _ => lhs.references ++ rhs.references

namespace Block

/-- The names that are read anywhere in a block. -/
def references : Block → List String
  | empty => []
  | declaration d rest => d.value.references ++ rest.references
  | assignment a rest => a.value.references ++ rest.references
  | ifThen c body _ rest => c.references ++ body.references ++ rest.references
  | ifElse c body _ other _ rest =>
    c.references ++ body.references ++ other.references ++ rest.references

/-- The names that are assigned by items of the block itself, not of a branch in it. -/
def assigned : Block → List String
  | empty => []
  | declaration _ rest => rest.assigned
  | assignment a rest => a.name :: rest.assigned
  | ifThen _ _ _ rest => rest.assigned
  | ifElse _ _ _ _ _ rest => rest.assigned

/-- No second branch reads, at any depth, a name that an item of its first branch assigns. -/
def BranchesApart : Block → Prop
  | empty => True
  | declaration _ rest => rest.BranchesApart
  | assignment _ rest => rest.BranchesApart
  | ifThen _ body _ rest => body.BranchesApart ∧ rest.BranchesApart
  | ifElse _ body _ other _ rest =>
    (∀ name ∈ body.assigned, name ∉ other.references) ∧
      body.BranchesApart ∧ other.BranchesApart ∧ rest.BranchesApart

/-- Whether the branches of a block are apart can be computed. -/
instance decidableBranchesApart : (b : Block) → Decidable b.BranchesApart
  | empty => .isTrue trivial
  | declaration _ rest => decidableBranchesApart rest
  | assignment _ rest => decidableBranchesApart rest
  | ifThen _ body _ rest =>
    have := decidableBranchesApart body
    have := decidableBranchesApart rest
    inferInstanceAs (Decidable (body.BranchesApart ∧ rest.BranchesApart))
  | ifElse _ body _ other _ rest =>
    have := decidableBranchesApart body
    have := decidableBranchesApart other
    have := decidableBranchesApart rest
    inferInstanceAs (Decidable ((∀ name ∈ body.assigned, name ∉ other.references) ∧
      body.BranchesApart ∧ other.BranchesApart ∧ rest.BranchesApart))

end Block

/-- No second branch in a sheet reads a name that an item of its first branch assigns. -/
def Sheet.BranchesApart (s : Sheet) : Prop := ∀ r ∈ s.rules, r.body.BranchesApart

instance (s : Sheet) : Decidable s.BranchesApart :=
  inferInstanceAs (Decidable (∀ r ∈ s.rules, r.body.BranchesApart))

/-! ### Reading alike -/

/-- What a name is bound to in typing and in the run is the same. With a gap, a name may be bound in
typing alone. -/
def Alike (gap : Prop) (typed run : Option (Option Ty)) : Prop := typed = run ∨ gap ∧ run = none

/-- Every name that an expression reads is bound alike in the scopes of typing and of the run. -/
def Expr.ReadsAlike (gap : Prop) (e : Expr) (typed run : TypeScopes) : Prop :=
  ∀ name ∈ e.references, Alike gap (typed.lookup name) (run.lookup name)

/-- Every name that is read in a block is bound alike where it is read. The scopes of the run bind a
name to the type that typing gives it; the second branch of a conditional block runs outside the
first. -/
def Block.ReadsAlike (gap : Prop) : Block → TypeScopes → TypeScopes → Prop
  | empty, _, _ => True
  | declaration d rest, typed, run =>
    d.value.ReadsAlike gap typed run ∧ rest.ReadsAlike gap typed run
  | assignment a rest, typed, run =>
    let type := (a.value.check typed).2
    a.value.ReadsAlike gap typed run ∧
      rest.ReadsAlike gap (typed.declare a.name type) (run.declare a.name type)
  | ifThen c body _ rest, typed, run =>
    c.ReadsAlike gap typed run ∧ body.ReadsAlike gap typed.push run.push ∧
      rest.ReadsAlike gap typed run
  | ifElse c body _ other _ rest, typed, run =>
    c.ReadsAlike gap typed run ∧ body.ReadsAlike gap typed.push run.push ∧
      other.ReadsAlike gap (body.check typed.push).2.push run.push ∧ rest.ReadsAlike gap typed run

/-- Every name that is read in some members is bound alike where it is read. Outside of rules the
scopes of typing and of the run are the same. -/
def Sheet.MembersReadAlike (gap : Prop) : List Member → TypeScopes → Prop
  | [], _ => True
  | .rule r :: members, scopes =>
    r.body.ReadsAlike gap scopes.push scopes.push ∧ MembersReadAlike gap members scopes
  | .assignment a :: members, scopes =>
    MembersReadAlike gap members (scopes.declare a.name (a.value.check scopes).2)

/-- Every name that is read in a sheet is bound alike where it is read. -/
def Sheet.ReadsAlike (gap : Prop) (s : Sheet) (scopes : TypeScopes) : Prop :=
  MembersReadAlike gap s.members scopes.push

/-- A block that assigns no name of its own leaves the name bound as it was. -/
theorem Block.lookup_check {b : Block} {scopes : TypeScopes} {name : String}
    (h : name ∉ b.assigned) : (b.check scopes).2.lookup name = scopes.lookup name := by
  induction b generalizing scopes with
  | empty => rfl
  | declaration d rest ih => exact ih h
  | assignment a rest ih =>
    rw [Block.check, ih (List.not_mem_of_not_mem_cons h), Scopes.lookup_declare,
      if_neg (List.ne_of_not_mem_cons h)]
  | ifThen c body m rest _ ih =>
    rw [check_ifThen]
    exact ih h
  | ifElse c body m other om rest _ _ ih =>
    rw [check_ifElse]
    exact ih h

/-- Names that are bound alike are so after a binding that is the same in both. -/
theorem Scopes.lookup_declare_congr {V : Type} {s t : Scopes V} {name other : String} {value : V}
    (h : s.lookup other = t.lookup other) :
    (s.declare name value).lookup other = (t.declare name value).lookup other := by
  rw [lookup_declare, lookup_declare, h]

/-- A block whose branches are apart reads alike in scopes that bind alike the names that it
reads. -/
theorem Block.readsAlike_of_branchesApart {b : Block} {typed run : TypeScopes} (gap : Prop)
    (apart : b.BranchesApart)
    (alike : ∀ name ∈ b.references, typed.lookup name = run.lookup name) :
    b.ReadsAlike gap typed run := by
  induction b generalizing typed run with
  | empty => trivial
  | declaration d rest ih =>
    simp only [references, List.forall_mem_append] at alike
    exact ⟨fun name h ↦ .inl (alike.1 name h), ih apart alike.2⟩
  | assignment a rest ih =>
    simp only [references, List.forall_mem_append] at alike
    refine ⟨fun name h ↦ .inl (alike.1 name h), ih apart ?_⟩
    intro name h
    exact Scopes.lookup_declare_congr (alike.2 name h)
  | ifThen c body m rest ihBody ih =>
    simp only [references, List.forall_mem_append] at alike
    obtain ⟨⟨hc, hbody⟩, hrest⟩ := alike
    exact ⟨fun name h ↦ .inl (hc name h), ihBody apart.1 hbody, ih apart.2 hrest⟩
  | ifElse c body m other om rest ihBody ihOther ih =>
    simp only [references, List.forall_mem_append] at alike
    obtain ⟨⟨⟨hc, hbody⟩, hother⟩, hrest⟩ := alike
    obtain ⟨separate, apartBody, apartOther, apartRest⟩ := apart
    refine ⟨fun name h ↦ .inl (hc name h), ihBody apartBody hbody, ihOther apartOther ?_,
      ih apartRest hrest⟩
    intro name h
    -- What the first branch assigns is not read here, so its frame makes no difference.
    have notAssigned : name ∉ body.assigned := fun hb ↦ separate name hb h
    rw [Scopes.lookup_push, lookup_check notAssigned, Scopes.lookup_push, Scopes.lookup_push]
    exact hother name h

private theorem membersReadAlike_of_branchesApart {members : List Member} {scopes : TypeScopes}
    (gap : Prop) (apart : ∀ r ∈ Sheet.rulesOf members, r.body.BranchesApart) :
    Sheet.MembersReadAlike gap members scopes := by
  induction members generalizing scopes with
  | nil => trivial
  | cons m members ih =>
    cases m with
    | rule r =>
      obtain ⟨hr, hrest⟩ := List.forall_mem_cons.mp apart
      exact ⟨Block.readsAlike_of_branchesApart gap hr fun _ _ ↦ rfl, ih hrest⟩
    | assignment a => exact ih apart

/-- A sheet whose branches are apart reads alike. -/
theorem Sheet.readsAlike_of_branchesApart {s : Sheet} {scopes : TypeScopes} (gap : Prop)
    (apart : s.BranchesApart) : s.ReadsAlike gap scopes :=
  membersReadAlike_of_branchesApart gap apart

end FlatSheet
