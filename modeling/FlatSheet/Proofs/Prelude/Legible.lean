import FlatSheet.Prelude.Document
import FlatSheet.Proofs.Folding.Legible

/-!
# The values of a prelude can be spelled

A prelude is written as texts, each of which is read as one value. So the values that it puts in scope
are legible.
-/

namespace FlatSheet

namespace Literal

/-- A value that is read was written by the first token. -/
theorem read_ensures (lexemes : List Lexeme) :
    (read lexemes).Ensures fun v _ ↦ v.token ∈ tokensOf lexemes := by
  cases lexemes with
  | nil => exact Reads.ensures_error
  | cons l rest =>
    unfold read
    dsimp only
    split
    · next v hv =>
      rw [Reads.ensures_past, Reads.ensures_done, tokensOf_cons, ofToken?_eq_some_iff.mp hv]
      exact List.mem_cons_self
    · exact Reads.ensures_error

/-- A value that is read from a source is spelled there. -/
theorem legible_ofSource {source : String} {v : Literal} (h : ofSource source = .ok v) :
    v.Legible := by
  unfold ofSource at h
  split at h
  · next lexemes hlexemes =>
    have written : ((read lexemes).andThen fun r ↦
        (readEnd r.rest).andThen fun _ ↦ .done r.value).Ensures
          fun v _ ↦ v.token ∈ tokensOf lexemes := by
      refine (read_ensures lexemes).andThen ?_
      intro r hr
      have ended : (readEnd r.rest).Ensures fun _ _ ↦ True := fun _ _ ↦ trivial
      refine ended.andThen ?_
      intro _ _
      rw [Reads.ensures_done]
      exact hr
    unfold ofLexemes at h
    split at h
    · next r hr =>
      cases h
      obtain ⟨l, hl, htoken⟩ := List.mem_map.mp (written r hr)
      intro _
      rw [← htoken]
      exact spelled_of_lex hlexemes l hl
    · cases h
  · cases h

end Literal

/-- An environment with legible bindings is legible. -/
theorem Environment.legible_ofGlobals {globals : List (String × Literal)}
    (h : ∀ g ∈ globals, g.2.Legible) : (ofGlobals globals).Legible := by
  have bound (env : Environment Literal) (henv : env.Legible) :
      Legible (globals.foldl (fun env g ↦ env.bind g.1 g.2) env) := by
    induction globals generalizing env with
    | nil => exact henv
    | cons g globals ih =>
      obtain ⟨first, others⟩ := List.forall_mem_cons.mp h
      exact ih others _ (henv.bind g.1 first)
  apply bound empty
  intro name v hv
  cases hv

namespace Prelude

/-- Every value in a prelude is legible. -/
def Legible (p : Prelude) : Prop := ∀ name v, p.get? name = some v → v.Legible

theorem legible_empty : empty.Legible := by
  intro name v h
  rw [get?, empty, Std.ExtTreeMap.getElem?_empty] at h
  cases h

/-- To define a legible value keeps a prelude legible. -/
theorem Legible.define {p next : Prelude} (h : p.Legible) {name : String} {v : Literal}
    (hv : v.Legible) (hnext : p.define name v = .ok next) : next.Legible := by
  unfold Prelude.define at hnext
  split at hnext
  · cases hnext
    intro other found hfound
    rw [get?, Std.ExtTreeMap.getElem?_insert] at hfound
    split at hfound
    · cases hfound
      exact hv
    · exact h other found hfound
  · cases hnext

/-- Values that are defined by their texts keep a prelude legible. -/
theorem Legible.defineTexts {p next : Prelude} (h : p.Legible) {entries : List (String × String)}
    (hnext : p.defineTexts entries = .ok next) : next.Legible := by
  fun_induction Prelude.defineTexts p entries with
  | case1 p =>
    cases hnext
    exact h
  | case2 => cases hnext
  | case3 => cases hnext
  | case4 p name text entries value hvalue defined hdefined ih =>
    exact ih (h.define (Literal.legible_ofSource hvalue) hdefined) hnext

/-- A prelude that is written in a document is legible. -/
theorem legible_ofJson {path document : String} {p : Prelude} (h : ofJson path document = .ok p) :
    p.Legible := by
  unfold ofJson at h
  split at h
  · cases h
  · exact legible_empty.defineTexts h

/-- The values of a legible prelude that are put in scope are legible. -/
theorem Legible.scopes {p : Prelude} (h : p.Legible) :
    Environment.Legible (Scopes.ofGlobals p.toList).lookup := by
  rw [Scopes.lookup_ofGlobals]
  apply Environment.legible_ofGlobals
  intro g hg
  exact h g.1 g.2 (Std.ExtTreeMap.mem_toList_iff_getElem?_eq_some.mp hg)

end Prelude

end FlatSheet
