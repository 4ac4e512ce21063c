import FlatSheet.Source.Position

/-!
# Lines of a source

A source is addressed by byte offsets. `Lines` keeps the offset at which each line starts, in
increasing order, and finds the line of an offset by halving an interval of them. Offsets past the
end of the source count on from its last line.
-/

namespace FlatSheet

/-- The number of bytes that a text takes in UTF-8. -/
def byteCount : List Char → Nat
  | [] => 0
  | c :: text => c.utf8Size + byteCount text

@[simp] theorem byteCount_nil : byteCount [] = 0 := rfl

@[simp] theorem byteCount_cons (c : Char) (text : List Char) :
    byteCount (c :: text) = c.utf8Size + byteCount text := rfl

@[simp] theorem byteCount_append (a b : List Char) :
    byteCount (a ++ b) = byteCount a + byteCount b := by
  induction a with
  | nil => simp
  | cons c a ih => simp [ih, Nat.add_assoc]

/-- The offsets just after each newline of a text that begins at `offset`. -/
def offsetsAfterNewlines (offset : Nat) : List Char → List Nat
  | [] => []
  | c :: text =>
    let next := offset + c.utf8Size
    if c = '\n' then next :: offsetsAfterNewlines next text else offsetsAfterNewlines next text

/-- The offsets at which the lines of a source start. -/
structure Lines where
  starts : Array Nat
deriving DecidableEq

namespace Lines

/-- The lines of a source: one starts at its beginning and one after each newline. -/
def ofSource (source : List Char) : Lines := ⟨(0 :: offsetsAfterNewlines 0 source).toArray⟩

/-- The last index from `low` and before `high` whose start is at most `offset`, and `low` if there
is none after it. -/
def lastUpTo (starts : Array Nat) (offset low high : Nat) (inside : high ≤ starts.size) : Nat :=
  if wide : low + 1 < high then
    let middle := (low + high) / 2
    if starts[middle] ≤ offset then lastUpTo starts offset middle high inside
    else lastUpTo starts offset low middle (by omega)
  else low
termination_by high - low

/-- The position of a byte offset. -/
def position (lines : Lines) (offset : Nat) : Position :=
  let line := lastUpTo lines.starts offset 0 lines.starts.size (Nat.le_refl _)
  ⟨line + 1, offset - lines.starts.getD line 0 + 1⟩

end Lines

end FlatSheet
