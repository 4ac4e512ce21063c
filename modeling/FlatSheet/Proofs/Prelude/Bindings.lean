import FlatSheet.Proofs.Scopes.Environment
import FlatSheet.Prelude
import FlatSheet.Typing.Check

/-!
# What a prelude binds

The scopes that are made of a prelude bind its variables and no others, each to its value, or to the type
of its value. No two entries of a prelude have one name, so their order does not matter.
-/

namespace FlatSheet

namespace Environment

variable {V : Type}

/-- A name without a binding among some is bound as before them. -/
theorem foldl_bind_of_free {name : String} {globals : List (String × V)}
    (free : ∀ g ∈ globals, g.1 ≠ name) (env : Environment V) :
    globals.foldl (fun env g ↦ env.bind g.1 g.2) env name = env name := by
  induction globals generalizing env with
  | nil => rfl
  | cons g globals ih =>
    obtain ⟨first, others⟩ := List.forall_mem_cons.mp free
    rw [List.foldl_cons, ih others, bind, if_neg first.symm]

/-- Where no name is bound twice, a name is bound to its value. -/
theorem ofGlobals_eq_some {globals : List (String × V)}
    (distinct : globals.Pairwise fun a b ↦ a.1 ≠ b.1) {name : String} {value : V}
    (mem : (name, value) ∈ globals) : ofGlobals globals name = some value := by
  obtain ⟨before, after, rfl⟩ := List.append_of_mem mem
  have free : ∀ g ∈ after, g.1 ≠ name := by
    intro g hg
    have pairs := (List.pairwise_append.mp distinct).2.1
    exact ((List.pairwise_cons.mp pairs).1 g hg).symm
  rw [ofGlobals, List.foldl_append, List.foldl_cons, foldl_bind_of_free free, bind, if_pos rfl]

/-- A name without a binding is not bound. -/
theorem ofGlobals_eq_none {globals : List (String × V)} {name : String}
    (free : ∀ g ∈ globals, g.1 ≠ name) : ofGlobals globals name = none :=
  foldl_bind_of_free free empty

end Environment

namespace Prelude

private theorem distinct_toList (p : Prelude) : p.toList.Pairwise fun a b ↦ a.1 ≠ b.1 := by
  apply Std.ExtTreeMap.distinct_keys_toList.imp
  intro a b different same
  rw [same] at different
  exact different Std.ReflCmp.compare_self

theorem mem_toList {p : Prelude} {name : String} {value : Literal} :
    (name, value) ∈ p.toList ↔ p.get? name = some value :=
  Std.ExtTreeMap.mem_toList_iff_getElem?_eq_some

private theorem free_toList {p : Prelude} {name : String} (h : p.get? name = none) :
    ∀ g ∈ p.toList, g.1 ≠ name := by
  rintro ⟨other, value⟩ hg rfl
  rw [mem_toList, h] at hg
  cases hg

/-- The variables of a prelude are bound to their values. -/
theorem lookup_values (p : Prelude) : (Scopes.ofGlobals p.toList).lookup = p.get? := by
  funext name
  rw [Scopes.lookup_ofGlobals]
  cases h : p.get? name with
  | none => exact Environment.ofGlobals_eq_none (free_toList h)
  | some value => exact Environment.ofGlobals_eq_some p.distinct_toList (mem_toList.mpr h)

/-- The variables of a prelude are bound to the types of their values. -/
theorem lookup_types (p : Prelude) (name : String) :
    (TypeScopes.ofGlobals p.toList).lookup name = (p.get? name).map (some ·.type) := by
  rw [TypeScopes.ofGlobals, Scopes.lookup_ofGlobals]
  cases h : p.get? name with
  | none =>
    apply Environment.ofGlobals_eq_none
    intro g hg
    obtain ⟨entry, hentry, rfl⟩ := List.mem_map.mp hg
    exact free_toList h entry hentry
  | some value =>
    apply Environment.ofGlobals_eq_some
    · rw [List.pairwise_map]
      exact p.distinct_toList
    · exact List.mem_map_of_mem (mem_toList.mpr h)

end Prelude

end FlatSheet
