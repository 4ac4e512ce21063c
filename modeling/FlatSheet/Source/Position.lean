/-!
# Positions in a source

A position is a line and a column, both counted from one. Line and column zero stand for a place
that is not known, as on a node that was built by hand.
-/

namespace FlatSheet

/-- A line of the source and a column on it, in bytes, both counted from one. -/
structure Position where
  line : Nat
  column : Nat
deriving DecidableEq

namespace Position

/-- The place of what was not read from a source. -/
def unknown : Position := ⟨0, 0⟩

/-- The written form: line and column with a colon between them. -/
def text (p : Position) : String :=
  if p = unknown then "<unknown>" else toString p.line ++ ":" ++ toString p.column

/-- A position without a place is written as unknown. -/
@[simp] theorem text_unknown : unknown.text = "<unknown>" := rfl

end Position

end FlatSheet
