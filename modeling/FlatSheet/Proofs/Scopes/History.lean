import FlatSheet.Proofs.Scopes.Restored

/-!
# What remains of a history

Frames are opened and closed and names are declared and looked up, one step after the other. A frame that
is closed takes with it all that was done since it was opened. So of a history there remains what is
outside of every segment from a push to the pop that matches it, and a name is bound to the value that was
declared last for it there.
-/

namespace FlatSheet

namespace Scopes

variable {V : Type}

/-- What scopes are asked to do. -/
inductive Step (V : Type) where
  | push
  | pop
  | declare (name : String) (value : V)
  | lookup (name : String)
deriving DecidableEq

namespace Step

/-- Whether a step opens a frame. -/
def isPush : Step V → Bool
  | push => true
  | _ => false

/-- The value that a step declares for a name, if it does so. -/
def declared? (name : String) : Step V → Option V
  | declare other value => if name = other then some value else none
  | _ => none

end Step

/-- The scopes after a step. To look a name up changes nothing. -/
def step (s : Scopes V) : Step V → Scopes V
  | .push => s.push
  | .pop => s.pop
  | .declare name value => s.declare name value
  | .lookup _ => s

/-- The scopes after some steps. -/
def run (s : Scopes V) (steps : List (Step V)) : Scopes V := steps.foldl step s

/-- No step closes a frame where none is open. -/
def Safe (s : Scopes V) : List (Step V) → Prop
  | [] => True
  | .push :: steps => Safe s.push steps
  | .pop :: steps => s.depth ≠ 0 ∧ Safe s.pop steps
  | .declare name value :: steps => Safe (s.declare name value) steps
  | .lookup _ :: steps => Safe s steps

/-- Steps in which each frame is opened by a push, where so many frames are open before them. A declaration
where none is open has a push put in front of it. -/
def opened : Nat → List (Step V) → List (Step V)
  | _, [] => []
  | depth, .push :: steps => .push :: opened (depth + 1) steps
  | depth, .pop :: steps => .pop :: opened (depth - 1) steps
  | 0, .declare name value :: steps => .push :: .declare name value :: opened 1 steps
  | depth + 1, .declare name value :: steps => .declare name value :: opened (depth + 1) steps
  | depth, .lookup name :: steps => .lookup name :: opened depth steps

/-- Every push is matched by a pop after it and every pop by a push before it. -/
inductive Balanced : List (Step V) → Prop
  | nil : Balanced []
  | declare (name : String) (value : V) {steps : List (Step V)} : Balanced steps →
    Balanced (.declare name value :: steps)
  | lookup (name : String) {steps : List (Step V)} : Balanced steps →
    Balanced (.lookup name :: steps)
  | segment {inner steps : List (Step V)} : Balanced inner → Balanced steps →
    Balanced (.push :: (inner ++ .pop :: steps))

/-- What remains of a history without the segments from a push to the pop that matches it. -/
inductive Remains : List (Step V) → List (Step V) → Prop
  | nil : Remains [] []
  | declare (name : String) (value : V) {steps left : List (Step V)} : Remains steps left →
    Remains (.declare name value :: steps) (.declare name value :: left)
  | lookup (name : String) {steps left : List (Step V)} : Remains steps left →
    Remains (.lookup name :: steps) (.lookup name :: left)
  | segment {inner steps left : List (Step V)} : Balanced inner → Remains steps left →
    Remains (.push :: (inner ++ .pop :: steps)) left
  -- No pop matches this push: one would be left over after it, and a pop alone never remains.
  | unmatched {steps left : List (Step V)} : Remains steps left →
    Remains (.push :: steps) (.push :: left)

/-! ### Steps one by one -/

@[simp] theorem run_nil (s : Scopes V) : s.run [] = s := rfl

@[simp] theorem run_cons (s : Scopes V) (first : Step V) (steps : List (Step V)) :
    s.run (first :: steps) = (s.step first).run steps := rfl

/-- Steps are run one part after the other. -/
theorem run_append (s : Scopes V) (a b : List (Step V)) : s.run (a ++ b) = (s.run a).run b :=
  List.foldl_append

/-- One frame fewer is open after a pop. -/
theorem depth_pop (s : Scopes V) : s.pop.depth = s.depth - 1 := List.length_tail

/-- A declaration opens a frame where none is open. -/
theorem depth_declare (s : Scopes V) (name : String) (value : V) :
    (s.declare name value).depth = max s.depth 1 := by
  unfold declare depth
  split
  · next h => simp [h]
  · next frame frames h => simp [h]

/-- To open the frame first makes no difference to a declaration where none is open. -/
theorem declare_push_of_depth_eq_zero {s : Scopes V} (h : s.depth = 0) (name : String) (value : V) :
    s.push.declare name value = s.declare name value := by
  have none : s.frames = [] := List.length_eq_zero_iff.mp h
  simp [push, declare, none]

/-- Opening each frame by a push makes no difference. -/
theorem run_opened (s : Scopes V) (steps : List (Step V)) :
    s.run (opened s.depth steps) = s.run steps := by
  induction steps generalizing s with
  | nil => rfl
  | cons first steps ih =>
    cases first with
    | push => exact ih s.push
    | pop =>
      have rest := ih s.pop
      rw [depth_pop] at rest
      exact rest
    | declare name value =>
      have rest := ih (s.declare name value)
      rw [depth_declare] at rest
      cases h : s.depth with
      | zero =>
        rw [h] at rest
        simp only [opened, run_cons, step]
        rw [declare_push_of_depth_eq_zero h]
        exact rest
      | succ depth =>
        rw [h, Nat.max_eq_left (Nat.succ_le_succ (Nat.zero_le depth))] at rest
        exact rest
    | lookup name => exact ih s

/-! ### Balanced sequences -/

/-- A balanced sequence changes the innermost frame only. -/
theorem Balanced.pop_run {inner : List (Step V)} (h : Balanced inner) (s : Scopes V) :
    (s.run inner).pop = s.pop := by
  induction h generalizing s with
  | nil => rfl
  | declare name value _ ih => rw [run_cons, ih, step, pop_declare]
  | lookup name _ ih => exact ih s
  | segment _ _ ihInner ih => rw [run_cons, run_append, run_cons, ih, step, step, ihInner, pop_push]

/-- A balanced sequence in a frame of its own leaves nothing behind. -/
theorem Balanced.run_segment {inner : List (Step V)} (h : Balanced inner) (s : Scopes V)
    (steps : List (Step V)) : s.run (.push :: (inner ++ .pop :: steps)) = s.run steps := by
  rw [run_cons, run_append, run_cons, step, step, h.pop_run, pop_push]

/-- The first pop that a balanced sequence does not match tells where the sequence ends. -/
theorem Balanced.eq_of_append {a b x y : List (Step V)} (ha : Balanced a) (hb : Balanced b)
    (h : a ++ .pop :: x = b ++ .pop :: y) : a = b ∧ x = y := by
  induction ha generalizing b x y with
  | nil =>
    cases hb with
    | nil => exact ⟨rfl, (List.cons.inj h).2⟩
    | _ => cases (List.cons.inj h).1
  | declare name value _ ih =>
    cases hb with
    | declare _ _ hb =>
      obtain ⟨same, rest⟩ := List.cons.inj h
      obtain ⟨rfl, rfl⟩ := ih hb rest
      cases same
      exact ⟨rfl, rfl⟩
    | _ => cases (List.cons.inj h).1
  | lookup name _ ih =>
    cases hb with
    | lookup _ hb =>
      obtain ⟨same, rest⟩ := List.cons.inj h
      obtain ⟨rfl, rfl⟩ := ih hb rest
      cases same
      exact ⟨rfl, rfl⟩
    | _ => cases (List.cons.inj h).1
  | segment _ _ ihInner ih =>
    cases hb with
    | segment hinner hsteps =>
      simp only [List.cons_append, List.append_assoc, List.cons.injEq, true_and] at h
      obtain ⟨rfl, after⟩ := ihInner hinner h
      obtain ⟨rfl, rfl⟩ := ih hsteps after
      exact ⟨rfl, rfl⟩
    | _ => cases (List.cons.inj h).1

/-! ### What remains -/

/-- Nothing remains of a history with a pop that no push matches. -/
theorem Balanced.not_remains {inner : List (Step V)} (h : Balanced inner) (steps left : List (Step V)) :
    ¬ Remains (inner ++ .pop :: steps) left := by
  induction h generalizing steps left with
  | nil => nofun
  | declare name value _ ih =>
    intro remains
    cases remains with
    | declare _ _ rest => exact ih _ _ rest
  | lookup name _ ih =>
    intro remains
    cases remains with
    | lookup _ rest => exact ih _ _ rest
  | @segment inner between hinner _ ihInner ih =>
    intro remains
    rw [List.cons_append, List.append_assoc, List.cons_append] at remains
    generalize hall : inner ++ .pop :: (between ++ .pop :: steps) = all at remains
    cases remains with
    | segment hinner' rest =>
      obtain ⟨rfl, rfl⟩ := hinner.eq_of_append hinner' hall
      exact ih _ _ rest
    | unmatched rest =>
      rw [← hall] at rest
      exact ihInner _ _ rest

/-- One sequence at most remains of a history. -/
theorem Remains.unique {steps left other : List (Step V)} (h : Remains steps left)
    (h' : Remains steps other) : other = left := by
  induction h generalizing other with
  | nil =>
    cases h'
    rfl
  | declare name value _ ih =>
    cases h' with
    | declare _ _ rest => rw [ih rest]
  | lookup name _ ih =>
    cases h' with
    | lookup _ rest => rw [ih rest]
  | @segment inner steps left hinner _ ih =>
    generalize hall : inner ++ .pop :: steps = all at h'
    cases h' with
    | segment hinner' rest =>
      obtain ⟨rfl, rfl⟩ := hinner.eq_of_append hinner' hall
      exact ih rest
    | unmatched rest =>
      rw [← hall] at rest
      exact absurd rest (hinner.not_remains _ _)
  | @unmatched steps left hsteps ih =>
    generalize hall : Step.push :: steps = all at h'
    cases h' with
    | nil => cases hall
    | declare => cases hall
    | lookup => cases hall
    | segment hinner' _ =>
      cases hall
      exact absurd hsteps (hinner'.not_remains _ _)
    | unmatched rest =>
      cases hall
      rw [ih rest]

/-- Something remains of a history in which every pop is matched; otherwise the first pop that is not
comes after a balanced sequence. -/
theorem exists_remains_or_unmatched (steps : List (Step V)) :
    (∃ left, Remains steps left) ∨
      ∃ inner rest, Balanced inner ∧ steps = inner ++ .pop :: rest := by
  match steps with
  | [] => exact .inl ⟨[], .nil⟩
  | .pop :: rest => exact .inr ⟨[], rest, .nil, rfl⟩
  | .declare name value :: rest =>
    rcases exists_remains_or_unmatched rest with ⟨left, h⟩ | ⟨inner, after, h, rfl⟩
    · exact .inl ⟨_, .declare name value h⟩
    · exact .inr ⟨_, after, .declare name value h, rfl⟩
  | .lookup name :: rest =>
    rcases exists_remains_or_unmatched rest with ⟨left, h⟩ | ⟨inner, after, h, rfl⟩
    · exact .inl ⟨_, .lookup name h⟩
    · exact .inr ⟨_, after, .lookup name h, rfl⟩
  | .push :: rest =>
    rcases exists_remains_or_unmatched rest with ⟨left, h⟩ | ⟨inner, after, h, hrest⟩
    · exact .inl ⟨_, .unmatched h⟩
    · -- The first pop that nothing in the rest matches is that of the push.
      have shorter : after.length < rest.length := by
        rw [hrest, List.length_append, List.length_cons]
        omega
      rcases exists_remains_or_unmatched after with ⟨left, h'⟩ | ⟨between, last, h', hafter⟩
      · rw [hrest]
        exact .inl ⟨left, .segment h h'⟩
      · refine .inr ⟨_, last, .segment h h', ?_⟩
        rw [hrest, hafter, List.cons_append, List.append_assoc, List.cons_append]
termination_by steps.length

/-- The scopes after a history are those after what remains of it. -/
theorem Remains.run_eq {steps left : List (Step V)} (h : Remains steps left) (s : Scopes V) :
    s.run steps = s.run left := by
  induction h generalizing s with
  | nil => rfl
  | declare name value _ ih => exact ih _
  | lookup name _ ih => exact ih _
  | segment hinner _ ih => rw [hinner.run_segment, ih]
  | unmatched _ ih => exact ih _

/-- No pop remains. -/
theorem Remains.pop_notMem {steps left : List (Step V)} (h : Remains steps left) : .pop ∉ left := by
  induction h with
  | nil => nofun
  | declare name value _ ih => simpa using ih
  | lookup name _ ih => simpa using ih
  | segment _ _ ih => exact ih
  | unmatched _ ih => simpa using ih

/-- Where no frame is closed, the last declaration of a name counts. -/
theorem lookup_run {steps : List (Step V)} (h : .pop ∉ steps) (s : Scopes V) (name : String) :
    (s.run steps).lookup name =
      (steps.reverse.findSome? (Step.declared? name)).or (s.lookup name) := by
  induction steps generalizing s with
  | nil => rfl
  | cons first steps ih =>
    have now : (s.step first).lookup name = (first.declared? name).or (s.lookup name) := by
      cases first with
      | push => rfl
      | pop => exact absurd List.mem_cons_self h
      | declare other value =>
        rw [step, lookup_declare, Step.declared?]
        split <;> rfl
      | lookup other => rfl
    rw [run_cons, ih (List.not_mem_of_not_mem_cons h), now, List.reverse_cons, List.findSome?_append,
      List.findSome?_singleton, Option.or_assoc]

/-! ### Histories that close open frames only -/

/-- Where so many frames are open, each pop and each declaration has a frame. -/
def Framed : Nat → List (Step V) → Prop
  | _, [] => True
  | depth, .push :: steps => Framed (depth + 1) steps
  | depth, .pop :: steps => depth ≠ 0 ∧ Framed (depth - 1) steps
  | depth, .declare _ _ :: steps => depth ≠ 0 ∧ Framed depth steps
  | depth, .lookup _ :: steps => Framed depth steps

/-- When each frame is opened by a push, a safe history has a frame for each pop and declaration. -/
theorem Safe.framed {s : Scopes V} {steps : List (Step V)} (h : Safe s steps) :
    Framed s.depth (opened s.depth steps) := by
  induction steps generalizing s with
  | nil => trivial
  | cons first steps ih =>
    cases first with
    | push => exact ih h
    | pop =>
      have rest := ih h.2
      rw [depth_pop] at rest
      exact ⟨h.1, rest⟩
    | declare name value =>
      have rest := ih h
      rw [depth_declare] at rest
      cases depth : s.depth with
      | zero =>
        rw [depth] at rest
        exact ⟨Nat.one_ne_zero, rest⟩
      | succ d =>
        rw [depth, Nat.max_eq_left (Nat.succ_le_succ (Nat.zero_le d))] at rest
        exact ⟨Nat.succ_ne_zero d, rest⟩
    | lookup name => exact ih h

/-- After a balanced sequence as many frames are open as before it. -/
theorem Balanced.framed {inner : List (Step V)} (h : Balanced inner) {depth : Nat}
    {steps : List (Step V)} (framed : Framed depth (inner ++ steps)) : Framed depth steps := by
  induction h generalizing depth steps with
  | nil => exact framed
  | declare name value _ ih => exact ih framed.2
  | lookup name _ ih => exact ih framed
  | segment _ _ ihInner ih =>
    rw [List.cons_append, List.append_assoc, List.cons_append] at framed
    exact ih (ihInner framed).2

/-- What remains has its frames without those that are closed. -/
theorem Remains.framed {steps left : List (Step V)} (h : Remains steps left) {depth : Nat}
    (framed : Framed depth steps) : Framed depth left := by
  induction h generalizing depth with
  | nil => trivial
  | declare name value _ ih => exact ⟨framed.1, ih framed.2⟩
  | lookup name _ ih => exact ih framed
  | segment hinner _ ih => exact ih (hinner.framed framed).2
  | unmatched _ ih => exact ih framed

/-- Something remains of a safe history. -/
theorem Safe.exists_remains {steps : List (Step V)} (h : Safe empty steps) :
    ∃ left, Remains (opened 0 steps) left := by
  rcases exists_remains_or_unmatched (opened 0 steps) with remains | ⟨inner, rest, balanced, split⟩
  · exact remains
  · have framed : Framed 0 (opened 0 steps) := h.framed
    rw [split] at framed
    exact absurd rfl (balanced.framed framed).1

/-- Where no frame is closed, one more is open for each push. -/
theorem depth_run {s : Scopes V} {steps : List (Step V)} (h : .pop ∉ steps)
    (framed : Framed s.depth steps) : (s.run steps).depth = s.depth + steps.countP Step.isPush := by
  induction steps generalizing s with
  | nil => rfl
  | cons first steps ih =>
    have others := List.not_mem_of_not_mem_cons h
    cases first with
    | push =>
      have rest := ih (s := s.push) others framed
      rw [depth_push] at rest
      rw [run_cons, List.countP_cons_of_pos rfl]
      exact rest.trans (by omega)
    | pop => exact absurd List.mem_cons_self h
    | declare name value =>
      have same : (s.declare name value).depth = s.depth := by
        rw [depth_declare, Nat.max_eq_left (Nat.pos_of_ne_zero framed.1)]
      have rest := ih (s := s.declare name value) others (by rw [same]; exact framed.2)
      rw [same] at rest
      exact rest
    | lookup name => exact ih others framed

/-- A name is bound to the value that was declared last for it outside of all closed frames, or not at all,
and as many frames are open as pushes are outside of them. To open a frame, run a balanced sequence and
close the frame makes no difference to anything later. -/
theorem lookup_last_remaining {steps : List (Step V)} (safe : Safe empty steps) :
    (∃ left, (∀ other, Remains (opened 0 steps) other ↔ other = left) ∧
      (∀ name, (empty.run steps).lookup name = left.reverse.findSome? (Step.declared? name)) ∧
      (empty.run steps).depth = left.countP Step.isPush) ∧
    ∀ inner later, Balanced inner →
      empty.run (steps ++ .push :: (inner ++ .pop :: later)) = empty.run (steps ++ later) := by
  constructor
  · obtain ⟨left, remains⟩ := safe.exists_remains
    have same : empty.run steps = empty.run left := by
      rw [← remains.run_eq, ← run_opened]
      rfl
    refine ⟨left, fun other ↦ ⟨remains.unique, ?_⟩, fun name ↦ ?_, ?_⟩
    · rintro rfl
      exact remains
    · rw [same, lookup_run remains.pop_notMem, lookup_empty, Option.or_none]
    · rw [same, depth_run remains.pop_notMem (remains.framed safe.framed)]
      exact Nat.zero_add _
  · intro inner later balanced
    rw [run_append, balanced.run_segment, run_append]

/-- A frame that a declaration opens is closed again, and so are two frames with declarations in them, the
inner one inside the outer one. -/
theorem lookup_last_remaining_after_closing :
    let history : List (Step Nat) := [.declare "X" 1, .push, .declare "X" 2, .push, .declare "Y" 3,
      .lookup "X", .pop, .declare "X" 4, .pop, .pop, .declare "X" 5, .push, .declare "Z" 6]
    Safe empty history ∧
      Remains (opened 0 history) [.push, .declare "X" 5, .push, .declare "Z" 6] ∧
      (empty.run history).lookup "X" = some 5 ∧ (empty.run history).lookup "Y" = none ∧
      (empty.run history).depth = 2 := by
  intro history
  have safe : Safe empty history := ⟨by decide, by decide, by decide, trivial⟩
  have inner : Balanced [.declare "Y" 3, .lookup "X"] := .declare _ _ (.lookup _ .nil)
  have outer : Balanced (.declare "X" 2 :: .push ::
      ([.declare "Y" 3, .lookup "X"] ++ .pop :: [.declare "X" 4])) :=
    .declare _ _ (.segment inner (.declare _ _ .nil))
  have segment : Balanced (.declare "X" 1 :: .push :: (_ ++ .pop :: [])) :=
    .declare _ _ (.segment outer .nil)
  have remains : Remains (opened 0 history) [.push, .declare "X" 5, .push, .declare "Z" 6] :=
    .segment segment (.unmatched (.declare _ _ (.unmatched (.declare _ _ .nil))))
  obtain ⟨⟨left, only, found, depth⟩, -⟩ := lookup_last_remaining safe
  obtain rfl := (only _).mp remains
  refine ⟨safe, remains, ?_, ?_, depth⟩
  · rw [found]
    rfl
  · rw [found]
    rfl

end Scopes

end FlatSheet
