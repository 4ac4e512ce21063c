/-!
# Reading from the front of a list

A reader takes a construct off the front of its input, a list of characters or of lexemes. Its result is
a value and the input after it, which is never longer than before, or an error. Readers are composed by
`Reads.andThen`, which reads on where the first one ended.
-/

namespace FlatSheet

/-- What was read off the front of an input, and the input after it. -/
structure Reading (α : Type) {τ : Type} (input : List τ) where
  value : α
  rest : List τ
  length_le : rest.length ≤ input.length

/-- The result of a reader with errors of type `ε`. -/
abbrev Reads (ε α : Type) {τ : Type} (input : List τ) := Except ε (Reading α input)

namespace Reads

variable {ε α β τ : Type} {input : List τ}

/-- A value for which nothing more is read. -/
def done (value : α) : Reads ε α input := .ok ⟨value, input, Nat.le_refl _⟩

/-- Read one construct and, after it, another. -/
def andThen (first : Reads ε α input) (next : (r : Reading α input) → Reads ε β r.rest) :
    Reads ε β input :=
  match first with
  | .error e => .error e
  | .ok r =>
    match next r with
    | .error e => .error e
    | .ok t => .ok ⟨t.value, t.rest, Nat.le_trans t.length_le r.length_le⟩

/-- What is read after a first element is read from the input together with it. -/
def past (first : τ) (reads : Reads ε α input) : Reads ε α (first :: input) :=
  match reads with
  | .error e => .error e
  | .ok r => .ok ⟨r.value, r.rest, Nat.le_succ_of_le r.length_le⟩

end Reads

end FlatSheet
