import FlatSheet.Proofs.Sheet.Preorder

/-!
# Document order

A cursor keeps the nodes that are still to come on a stack. It takes the node at the end and puts the
children of the node there, the last of them first. Run to its end it gives the nodes of a sheet in the
order of the recursion on the sheet. The order is also that of addresses: an address is the indices of
the children on the way from the root down to a node, and addresses are ordered as words are. So every
node of a sheet comes up, once, and before all that is below it or beside it further on.
-/

namespace FlatSheet

/-! ### Cursors -/

/-- A place in a walk: the nodes that are still to come, the next one last. -/
structure Cursor where
  pending : Array Node

namespace Cursor

/-- The next node, and the cursor after it, on which the children of the node stand for it. -/
def next? (c : Cursor) : Option (Node × Cursor) :=
  match c.pending.back? with
  | none => none
  | some n => some (n, ⟨c.pending.pop ++ n.children.reverse.toArray⟩)

/-- A cursor gives some nodes, one after the other, and then no more. -/
inductive Gives : Cursor → List Node → Prop where
  | done {c : Cursor} (last : c.next? = none) : Gives c []
  | step {c rest : Cursor} {n : Node} {nodes : List Node} (next : c.next? = some (n, rest))
      (others : Gives rest nodes) : Gives c (n :: nodes)

/-- All that is still to come: each pending node from the end on, and what is below it. -/
def remaining (c : Cursor) : List Node := Node.walk c.pending.toList.reverse

/-- At the end nothing remains. -/
theorem remaining_of_next?_eq_none {c : Cursor} (h : c.next? = none) : c.remaining = [] := by
  cases last : c.pending.back? with
  | none =>
    have empty : c.pending = #[] := Array.back?_eq_none_iff.mp last
    rw [remaining, empty, List.reverse_nil, Node.walk_nil]
  | some n => simp [next?, last] at h

/-- A step takes the first of the nodes that remain. -/
theorem remaining_of_next?_eq_some {c rest : Cursor} {n : Node} (h : c.next? = some (n, rest)) :
    c.remaining = n :: rest.remaining := by
  cases last : c.pending.back? with
  | none => simp [next?, last] at h
  | some m =>
    obtain ⟨before, pending⟩ := Array.back?_eq_some_iff.mp last
    simp only [next?, last, Option.some.injEq, Prod.mk.injEq] at h
    obtain ⟨rfl, rfl⟩ := h
    simp [remaining, pending, Node.walk_cons]

/-- A cursor comes to an end, and gives what remains on it. -/
theorem gives_iff {c : Cursor} {nodes : List Node} : c.Gives nodes ↔ nodes = c.remaining := by
  constructor
  · intro h
    induction h with
    | done last => rw [remaining_of_next?_eq_none last]
    | step next _ ih => rw [remaining_of_next?_eq_some next, ih]
  · intro h
    induction nodes generalizing c with
    | nil =>
      cases next : c.next? with
      | none => exact .done next
      | some step => cases h.trans (remaining_of_next?_eq_some next)
    | cons n nodes ih =>
      cases next : c.next? with
      | none => cases h.trans (remaining_of_next?_eq_none next)
      | some step =>
        obtain ⟨rfl, others⟩ := List.cons.inj (h.trans (remaining_of_next?_eq_some next))
        exact .step next (ih others)

end Cursor

/-- The cursor at the beginning of a sheet. -/
def Sheet.cursor (s : Sheet) : Cursor := ⟨#[.sheet s]⟩

/-! ### Addresses -/

namespace Node

/-- The node to which an address leads: each of its indices goes on to that child. -/
def at? : Node → List Nat → Option Node
  | n, [] => some n
  | n, i :: path => n.children[i]?.bind fun child ↦ child.at? path

/-- The node to which an address leads whose first index is that of one of some parts. -/
def among? (parts : List Node) : List Nat → Option Node
  | [] => none
  | i :: path => parts[i]?.bind fun part ↦ part.at? path

/-- Nodes are those to which addresses lead, each once and in the order of the addresses. -/
def Enumerates (find : List Nat → Option Node) (nodes : List Node) : Prop :=
  ∃ addresses : List (List Nat), addresses.Pairwise (· < ·) ∧
    (∀ a, a ∈ addresses ↔ (find a).isSome = true) ∧ addresses.map find = nodes.map some

/-- An address among parts begins with an index. -/
theorem exists_cons_of_among? {parts : List Node} {a : List Nat}
    (h : (among? parts a).isSome = true) : ∃ i path, a = i :: path := by
  cases a with
  | nil => cases h
  | cons i path => exact ⟨i, path, rfl⟩

/-- A node comes before all that is below it. -/
theorem Enumerates.root {n : Node} {nodes : List Node} (h : Enumerates (among? n.children) nodes) :
    Enumerates n.at? (n :: nodes) := by
  obtain ⟨addresses, increasing, all, found⟩ := h
  have below : ∀ a ∈ addresses, [] < a ∧ n.at? a = among? n.children a := by
    intro a ha
    obtain ⟨i, path, rfl⟩ := exists_cons_of_among? ((all a).mp ha)
    exact ⟨List.nil_lt_cons i path, rfl⟩
  refine ⟨[] :: addresses, ?_, fun a ↦ ?_, ?_⟩
  · exact List.pairwise_cons.mpr ⟨fun a ha ↦ (below a ha).1, increasing⟩
  · cases a with
    | nil => simp [at?]
    | cons i path =>
      rw [List.mem_cons, all]
      simp [at?, among?]
  · rw [List.map_cons, List.map_cons, List.map_congr_left fun a ha ↦ (below a ha).2, found]
    rfl

/-- An address among some parts when one part more stands in front of them. -/
def behind : List Nat → List Nat
  | [] => []
  | i :: path => (i + 1) :: path

/-- Addresses keep their order when one part more stands in front. -/
theorem pairwise_map_behind {addresses : List (List Nat)} (increasing : addresses.Pairwise (· < ·))
    (nonempty : ∀ a ∈ addresses, ∃ i path, a = i :: path) :
    (addresses.map behind).Pairwise (· < ·) := by
  refine List.pairwise_map.mpr (increasing.imp_of_mem fun ha hb less ↦ ?_)
  obtain ⟨i, path, rfl⟩ := nonempty _ ha
  obtain ⟨j, path', rfl⟩ := nonempty _ hb
  simpa [behind, List.cons_lt_cons_iff] using less

/-- The addresses that go on behind the first part. -/
theorem mem_map_behind {addresses : List (List Nat)}
    (nonempty : ∀ a ∈ addresses, ∃ i path, a = i :: path) {a : List Nat} :
    a ∈ addresses.map behind ↔ ∃ i path, i :: path ∈ addresses ∧ (i + 1) :: path = a := by
  constructor
  · intro ha
    obtain ⟨b, hb, rfl⟩ := List.mem_map.mp ha
    obtain ⟨i, path, rfl⟩ := nonempty b hb
    exact ⟨i, path, hb, rfl⟩
  · rintro ⟨i, path, hb, rfl⟩
    exact List.mem_map.mpr ⟨i :: path, hb, rfl⟩

/-- All that is in a part comes before the parts after it. -/
theorem Enumerates.cons {n : Node} {parts first others : List Node} (h : Enumerates n.at? first)
    (h' : Enumerates (among? parts) others) :
    Enumerates (among? (n :: parts)) (first ++ others) := by
  obtain ⟨addresses, increasing, all, found⟩ := h
  obtain ⟨addresses', increasing', all', found'⟩ := h'
  have nonempty : ∀ a ∈ addresses', ∃ i path, a = i :: path :=
    fun a ha ↦ exists_cons_of_among? ((all' a).mp ha)
  refine ⟨addresses.map (0 :: ·) ++ addresses'.map behind, ?_, fun a ↦ ?_, ?_⟩
  · refine List.pairwise_append.mpr ⟨?_, pairwise_map_behind increasing' nonempty, ?_⟩
    · refine List.pairwise_map.mpr (increasing.imp fun less ↦ ?_)
      exact List.cons_lt_cons_iff.mpr (.inr ⟨rfl, less⟩)
    · intro a ha b hb
      obtain ⟨path, -, rfl⟩ := List.mem_map.mp ha
      obtain ⟨i, path', -, rfl⟩ := (mem_map_behind nonempty).mp hb
      exact List.cons_lt_cons_iff.mpr (.inl (Nat.succ_pos i))
  · rw [List.mem_append, List.mem_map, mem_map_behind nonempty]
    match a with
    | [] => simp [among?]
    | 0 :: path => simp [among?, all]
    | (i + 1) :: path => simp [among?, all']
  · have kept : ∀ a ∈ addresses', (among? (n :: parts) ∘ behind) a = among? parts a := by
      intro a ha
      obtain ⟨i, path, rfl⟩ := nonempty a ha
      rfl
    rw [List.map_append, List.map_map, List.map_map, List.map_congr_left kept, found',
      List.map_append, ← found]
    rfl

/-- A walk over some parts takes every node in them once, in the order of the addresses. -/
theorem enumerates_walk (parts : List Node) : Enumerates (among? parts) (walk parts) := by
  match parts with
  | [] =>
    refine ⟨[], .nil, fun a ↦ ?_, by simp⟩
    cases a <;> simp [among?]
  | n :: waiting =>
    rw [walk_cons_append, ← List.cons_append]
    exact (enumerates_walk n.children).root.cons (enumerates_walk waiting)
termination_by totalSize parts
decreasing_by
  · rw [totalSize, n.size_eq]
    omega
  · rw [totalSize, n.size_eq]
    omega

end Node

namespace Sheet

/-- The cursor of a sheet gives the nodes of the recursion on the sheet and then no more, and these are the
nodes of the sheet, each once and in the order of the addresses. The diagnostics are the problems attached
to them, in that order, and a sheet has problems exactly when it has diagnostics. -/
theorem nodes_in_document_order (s : Sheet) :
    (∀ nodes, s.cursor.Gives nodes ↔ nodes = s.preorder) ∧ s.nodes = s.preorder ∧
      Node.Enumerates (Node.sheet s).at? s.nodes ∧
      s.diagnostics = s.preorder.filterMap (fun n ↦ n.problem?.map (⟨n.position, ·⟩)) ∧
      (s.hasProblems = true ↔ s.diagnostics ≠ []) := by
  have walked : s.cursor.remaining = s.nodes := rfl
  have order := s.nodes_eq_preorder
  refine ⟨fun nodes ↦ ?_, order, ?_, ?_, ?_⟩
  · rw [Cursor.gives_iff, walked, order]
  · have below := (Node.enumerates_walk (Node.sheet s).children).root
    rwa [nodes, Node.walk_cons, List.append_nil]
  · rw [diagnostics, order]
    rfl
  · rw [ne_eq, diagnostics_eq_nil_iff, hasProblems, order]
    simp [Unreported, Option.isSome_iff_ne_none]

end Sheet

end FlatSheet
