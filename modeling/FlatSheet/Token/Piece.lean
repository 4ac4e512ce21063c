import FlatSheet.Token.Kind

/-!
# Cutting a source into pieces

From its start on a source is cut into pieces, each the longest text of any kind that begins where the
piece before it ends. Cutting stops at the end of the source or where no kind of text begins. Nothing is
lost: the texts of the pieces and what is left make up the source.
-/

namespace FlatSheet

/-- A part of a source and its kind. -/
structure Piece where
  kind : Kind
  text : List Char
deriving DecidableEq

/-- The kind with the longest text at the start of `text`, and its length; of kinds with texts of equal
length the first. -/
def longestOf (text : List Char) : List Kind → Option (Kind × Nat)
  | [] => none
  | k :: kinds =>
    match k.longest? text, longestOf text kinds with
    | none, other => other
    | some n, none => some (k, n)
    | some n, some (other, m) => if n < m then some (other, m) else some (k, n)

/-- The kind and length of the piece at the start of a text. -/
def munch? (text : List Char) : Option (Kind × Nat) := longestOf text Kind.byPrecedence

/-- What is longest among some kinds is of the first of them, and no shorter than what the others
measure, or is what the others measure, and longer than that of the first. -/
theorem longestOf_cons_cases {text : List Char} {first : Kind} {kinds : List Kind} {k : Kind}
    {n : Nat} (h : longestOf text (first :: kinds) = some (k, n)) :
    (k = first ∧ first.longest? text = some n ∧
        ∀ k' n', longestOf text kinds = some (k', n') → n' ≤ n) ∨
      (longestOf text kinds = some (k, n) ∧ ∀ l, first.longest? text = some l → l < n) := by
  unfold longestOf at h
  split at h
  · next hfirst =>
    right
    refine ⟨h, fun l hl ↦ ?_⟩
    rw [hfirst] at hl
    cases hl
  · next hfirst hrest =>
    cases h
    left
    refine ⟨rfl, hfirst, fun k' n' h' ↦ ?_⟩
    rw [hrest] at h'
    cases h'
  · next l k' n' hfirst hrest =>
    split at h
    · next longer =>
      cases h
      right
      refine ⟨hrest, fun l' hl' ↦ ?_⟩
      rw [hfirst] at hl'
      cases hl'
      exact longer
    · next shorter =>
      cases h
      left
      refine ⟨rfl, hfirst, fun k' n' h' ↦ ?_⟩
      rw [hrest] at h'
      cases h'
      exact Nat.le_of_not_lt shorter

/-- A longest text is measured by its kind. -/
theorem longest?_of_longestOf {text : List Char} {kinds : List Kind} {k : Kind} {n : Nat}
    (h : longestOf text kinds = some (k, n)) : k ∈ kinds ∧ k.longest? text = some n := by
  induction kinds with
  | nil => cases h
  | cons first kinds ih =>
    rcases longestOf_cons_cases h with ⟨rfl, measured, -⟩ | ⟨later, -⟩
    · exact ⟨List.mem_cons_self, measured⟩
    · obtain ⟨among, measured⟩ := ih later
      exact ⟨List.mem_cons_of_mem _ among, measured⟩

/-- A piece has at least one character and lies inside the text it is cut from. -/
theorem munch?_bounds {text : List Char} {k : Kind} {n : Nat} (h : munch? text = some (k, n)) :
    0 < n ∧ n ≤ text.length :=
  Kind.longest?_bounds (longest?_of_longestOf h).2

/-- The pieces of a text, and what is left where none begins. -/
def cut (text : List Char) : List Piece × List Char :=
  match _h : munch? text with
  | none => ([], text)
  | some (k, n) =>
    let tail := cut (text.drop n)
    (⟨k, text.take n⟩ :: tail.1, tail.2)
termination_by text.length
decreasing_by
  have := munch?_bounds _h
  rw [List.length_drop]
  omega

/-- Where no piece begins, everything is left. -/
theorem cut_of_none {text : List Char} (h : munch? text = none) : cut text = ([], text) := by
  rw [cut]
  split
  · rfl
  · next h' => rw [h] at h'; cases h'

/-- A piece is cut off and the text after it is cut in turn. -/
theorem cut_of_some {text : List Char} {k : Kind} {n : Nat} (h : munch? text = some (k, n)) :
    cut text = (⟨k, text.take n⟩ :: (cut (text.drop n)).1, (cut (text.drop n)).2) := by
  rw [cut]
  split
  · next h' => rw [h] at h'; cases h'
  · next h' => rw [h] at h'; cases h'; rfl

/-- Nothing is lost in cutting. -/
theorem flatMap_text_cut (text : List Char) :
    (cut text).1.flatMap Piece.text ++ (cut text).2 = text := by
  fun_induction cut text with
  | case1 text h => simp
  | case2 text k n h tail ih => simp [tail, ih, List.append_assoc]

/-- What is reported where no piece begins: a comment that is not closed in full, else one character. -/
def misfit (rest : List Char) : List Char :=
  if ['/', '*'].isPrefixOf rest then rest else rest.take 1

end FlatSheet
