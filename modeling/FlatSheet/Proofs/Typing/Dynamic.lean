import FlatSheet.Proofs.Typing.Taken
import FlatSheet.Proofs.Typing.Typed

/-!
# Static and dynamic types

Typing and folding have each their own table of what operands go together. On expressions the two
agree, in scopes of types that belong to the scopes of values: what has a type folds to a value of this
type or overflows, and what has none does not fold at all.
-/

namespace FlatSheet

namespace Scopes

/-- The same frames, with each name bound to the type of its value. -/
def types (values : ValueScopes) : TypeScopes :=
  ⟨values.frames.map fun frame ↦ frame.map fun b ↦ (b.1, some b.2.type)⟩

private theorem lookup_frame_types (frame : List (String × Literal)) (name : String) :
    (frame.map fun b ↦ (b.1, some b.2.type)).lookup name =
      (frame.lookup name).map fun v ↦ some v.type := by
  induction frame with
  | nil => rfl
  | cons b frame ih =>
    rw [List.map_cons, List.lookup_cons, List.lookup_cons, ih]
    cases name == b.1 <;> rfl

/-- Frame by frame the types are those of the values. -/
theorem TypesOf.types (values : ValueScopes) : values.types.TypesOf values := by
  obtain ⟨frames⟩ := values
  intro name
  unfold lookup Scopes.types
  induction frames with
  | nil => rfl
  | cons frame frames ih =>
    rw [List.map_cons, List.findSome?_cons, List.findSome?_cons, lookup_frame_types]
    cases frame.lookup name with
    | none => exact ih
    | some v => rfl

/-- No name is bound to no type. -/
theorem TypesOf.lookup_ne {run : TypeScopes} {values : ValueScopes} (types : run.TypesOf values)
    (name : String) : run.lookup name ≠ some none := by
  rw [types name]
  cases values.lookup name <;> simp

end Scopes

namespace Expr

variable {e : Expr} {run : TypeScopes} {values : ValueScopes}

/-- Where every bound name has a type, an expression has one exactly when nothing is wrong with it. -/
theorem typed_iff_unreported (clean : Unreported e.preorder) (types : run.TypesOf values) :
    (e.check run).2 ≠ none ↔ Unreported (e.check run).1.preorder := by
  rw [typed_iff clean]
  exact and_iff_left fun name _ ↦ types.lookup_ne name

/-- An expression that has a type folds to a value of this type, or overflows. -/
theorem outcome_fold_of_typed {t : Ty} (clean : Unreported e.preorder) (types : run.TypesOf values)
    (typed : (e.check run).2 = some t) :
    Outcome (fun v ↦ v.type = t) FoldError.IsOverflow (e.fold values) := by
  have accepted : Unreported (e.check run).1.preorder := by
    apply unreported_of_typed clean
    rw [typed]
    exact nofun
  have alike : e.ReadsAlike False run run := fun _ _ ↦ .inl rfl
  apply (outcome_fold accepted alike types).mono
  · intro v known
    rw [typed] at known
    exact (Option.some.inj known).symm
  · intro error permitted
    exact permitted.resolve_right fun h ↦ h.1

/-- An expression that has no type does not fold. -/
theorem exists_error_of_untyped (clean : Unreported e.preorder) (types : run.TypesOf values)
    (untyped : (e.check run).2 = none) : ∃ error, e.fold values = .error error := by
  cases h : e.fold values with
  | error error => exact ⟨error, rfl⟩
  | ok v =>
    have known := (unreported_check_of_fold clean types h).2
    rw [untyped] at known
    cases known

/-- Typing and folding agree on every expression without problems. It has a type exactly when typing
finds nothing wrong; then it folds to a value of this type or overflows, and else it does not fold. An
expression that has a value is left as it is by typing, which finds the type of the value. -/
theorem check_agrees_with_fold (clean : Unreported e.preorder) (types : run.TypesOf values) :
    ((e.check run).2 ≠ none ↔ Unreported (e.check run).1.preorder) ∧
      (∀ t, (e.check run).2 = some t →
        Outcome (fun v ↦ v.type = t) FoldError.IsOverflow (e.fold values)) ∧
      ((e.check run).2 = none → ∃ error, e.fold values = .error error) ∧
      ∀ v, e.fold values = .ok v → e.check run = (e, some v.type) := by
  refine ⟨typed_iff_unreported clean types, fun t ↦ outcome_fold_of_typed clean types,
    exists_error_of_untyped clean types, fun v h ↦ ?_⟩
  obtain ⟨accepted, known⟩ := unreported_check_of_fold clean types h
  exact Prod.ext (check_fst_of_unreported accepted) known

/-- A product that overflows has a type; in a sum with a scalar it overflows all the same, and the sum
has none. The scalar shadows a color. -/
theorem check_agrees_with_fold_of_overflow :
    let m := Mark.clean .unknown
    let most : Literal := .pixels ⟨9223372036854775807, by decide, by decide⟩
    let values : ValueScopes := ⟨[[("N", .scalar ⟨2, by decide, by decide⟩)],
      [("N", .color "#00ff00"), ("W", most)]]⟩
    let product : Expr := .operation .multiply (.reference "N" m) (.reference "W" m) m
    let sum : Expr := .operation .add product (.reference "N" m) m
    (product.check values.types).2 = some .pixels ∧
      Outcome (fun v ↦ v.type = .pixels) FoldError.IsOverflow (product.fold values) ∧
      (sum.check values.types).2 = none ∧ ∃ error, sum.fold values = .error error := by
  intro m most values product sum
  have clean : Unreported sum.preorder := by
    unfold Unreported
    decide
  have cleanProduct : Unreported product.preorder := by
    unfold Unreported
    decide
  have types := Scopes.TypesOf.types values
  have typed : (product.check values.types).2 = some .pixels := by decide
  have untyped : (sum.check values.types).2 = none := by decide
  exact ⟨typed, (check_agrees_with_fold cleanProduct types).2.1 _ typed, untyped,
    (check_agrees_with_fold clean types).2.2.1 untyped⟩

end Expr

end FlatSheet
