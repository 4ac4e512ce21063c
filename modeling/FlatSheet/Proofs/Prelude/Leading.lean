import FlatSheet.Proofs.Scopes.Agreement

/-!
# Globals as leading assignments

Variables that are in scope before a sheet's own have the effect of assignments at the top of the
sheet. They stand in a frame outside that of the sheet, and the assignments in the same frame; a
name that the sheet binds again hides the one and takes the place of the other. No name tells the
two apart.
-/

namespace FlatSheet

/-- A global, and where its assignment and the value in it stand. -/
structure PlacedGlobal where
  name : String
  value : Literal
  position : Position
  valuePosition : Position
deriving DecidableEq

namespace PlacedGlobal

/-- The name and the value of a global. -/
def global (g : PlacedGlobal) : String × Literal := (g.name, g.value)

/-- The assignment of a global's value, with nothing wrong. -/
def assignment (g : PlacedGlobal) : Assignment :=
  ⟨g.name, .literal g.value (.clean g.valuePosition), .clean g.position⟩

end PlacedGlobal

namespace Sheet

/-- A sheet with assignments of globals before its members. -/
def precededBy (s : Sheet) (globals : List PlacedGlobal) : Sheet :=
  ⟨globals.map (fun g ↦ .assignment g.assignment) ++ s.members, s.problem⟩

/-- Leading assignments are typed without problems and bind the globals to their types. -/
theorem checkMembers_leading (globals : List PlacedGlobal) (members : List Member)
    (scopes : TypeScopes) :
    (checkMembers (globals.map (fun g ↦ .assignment g.assignment) ++ members) scopes).1 =
      globals.map (fun g ↦ .assignment g.assignment) ++
        (checkMembers members (globals.foldl (fun s g ↦ s.declare g.name (some g.value.type))
          scopes)).1 := by
  induction globals generalizing scopes with
  | nil => rfl
  | cons g globals ih =>
    have typed : g.assignment.check scopes = (g.assignment, some g.value.type) := rfl
    rw [List.map_cons, List.cons_append, checkMembers]
    simp only [typed, ih]
    rfl

/-- Leading assignments are dropped in flattening and bind the globals to their values. -/
theorem flattenMembers_leading (globals : List PlacedGlobal) (members : List Member)
    (scopes : ValueScopes) :
    (flattenMembers (globals.map (fun g ↦ .assignment g.assignment) ++ members) scopes).1 =
      (flattenMembers members (globals.foldl (fun s g ↦ s.declare g.name g.value) scopes)).1 := by
  induction globals generalizing scopes with
  | nil => rfl
  | cons g globals ih =>
    rw [List.map_cons, List.cons_append, flattenMembers_assignment]
    exact ih (scopes.declare g.name g.value)

end Sheet

/-- The scopes of typing with globals, as the leading assignments make them. -/
theorem TypeScopes.ofGlobals_placed (globals : List PlacedGlobal) :
    TypeScopes.ofGlobals (globals.map PlacedGlobal.global) =
      globals.foldl (fun s g ↦ s.declare g.name (some g.value.type)) Scopes.empty.push := by
  simp only [TypeScopes.ofGlobals, Scopes.ofGlobals, List.map_map, List.foldl_map]
  rfl

/-- The scopes of flattening with globals, as the leading assignments make them. -/
theorem Scopes.ofGlobals_placed (globals : List PlacedGlobal) :
    Scopes.ofGlobals (globals.map PlacedGlobal.global) =
      globals.foldl (fun s g ↦ s.declare g.name g.value) empty.push := by
  simp only [ofGlobals, List.foldl_map]
  rfl

/-- Globals are equivalent to leading assignments. Typing attaches the same problems to the members
of a sheet and none to the assignments, and flattening gives the same sheet or the same error. -/
theorem Sheet.precededBy_equiv (s : Sheet) (globals : List PlacedGlobal) :
    ((s.precededBy globals).check .empty).1 =
        ((s.check (.ofGlobals (globals.map PlacedGlobal.global))).1).precededBy globals ∧
      ((s.precededBy globals).flatten .empty).1 =
        (s.flatten (Scopes.ofGlobals (globals.map PlacedGlobal.global))).1 := by
  constructor
  · have members := checkMembers_congr (Scopes.agree_push
      (TypeScopes.ofGlobals (globals.map PlacedGlobal.global))) s.members
    rw [TypeScopes.ofGlobals_placed] at members ⊢
    simp only [check, precededBy, Scopes.enclosed_fst, checkMembers_leading, members]
  · have members := flattenMembers_congr (Scopes.agree_push
      (Scopes.ofGlobals (globals.map PlacedGlobal.global))) s.members
    rw [Scopes.ofGlobals_placed] at members ⊢
    simp only [flatten, precededBy, Scopes.enclosed_fst, flattenMembers_leading, members]

end FlatSheet
