import FlatSheet.Scopes

/-!
# Environments

An environment is a map from names to what they are bound to, and a value of its own: to bind a name
makes another environment and leaves the old one as it was. Frames do not matter for what is found in
scopes, so scopes are looked up as environments are, whatever is opened and declared.
-/

namespace FlatSheet

/-- What names are bound to. -/
abbrev Environment (V : Type) := String → Option V

namespace Environment

variable {V : Type}

/-- No name is bound. -/
def empty : Environment V := fun _ ↦ none

/-- An environment in which one name is bound anew. -/
def bind (env : Environment V) (name : String) (value : V) : Environment V :=
  fun other ↦ if other = name then some value else env other

/-- An environment with some bindings, of which the last of a name counts. -/
def ofGlobals (globals : List (String × V)) : Environment V :=
  globals.foldl (fun env g ↦ env.bind g.1 g.2) empty

end Environment

namespace Scopes

variable {V : Type}

/-- To declare a name in the innermost frame binds it. -/
theorem lookup_declare_eq_bind (s : Scopes V) (name : String) (value : V) :
    (s.declare name value).lookup = Environment.bind s.lookup name value := by
  funext other
  rw [lookup_declare, Environment.bind]

/-- A new frame changes no binding. -/
theorem lookup_push_eq (s : Scopes V) : s.push.lookup = s.lookup := rfl

private theorem lookup_foldl_declare (globals : List (String × V)) (s : Scopes V) :
    (globals.foldl (fun s g ↦ s.declare g.1 g.2) s).lookup =
      globals.foldl (fun env g ↦ Environment.bind env g.1 g.2) s.lookup := by
  induction globals generalizing s with
  | nil => rfl
  | cons g globals ih =>
    rw [List.foldl_cons, List.foldl_cons, ih, lookup_declare_eq_bind]

/-- Globals are found as in the environment with the same bindings. -/
theorem lookup_ofGlobals (globals : List (String × V)) :
    (ofGlobals globals).lookup = Environment.ofGlobals globals :=
  lookup_foldl_declare globals empty.push

end Scopes

end FlatSheet
