/-!
# Scopes

Scopes are a stack of frames, innermost first, and a frame binds names to values. A name is looked up
in the innermost frame that binds it, and in a frame the last binding of a name counts. `enclosed` runs
a pass in a frame of its own, which is gone afterwards.
-/

namespace FlatSheet

/-- A stack of frames. In a frame the newest binding comes first. -/
structure Scopes (V : Type) where
  frames : List (List (String × V))
deriving DecidableEq

namespace Scopes

variable {V α : Type}

/-- No frame at all. -/
def empty : Scopes V := ⟨[]⟩

/-- The number of frames. -/
def depth (s : Scopes V) : Nat := s.frames.length

/-- Open a frame without bindings. -/
def push (s : Scopes V) : Scopes V := ⟨[] :: s.frames⟩

/-- Close the innermost frame. -/
def pop (s : Scopes V) : Scopes V := ⟨s.frames.tail⟩

/-- Bind a name in the innermost frame, which is opened first if there is none. -/
def declare (s : Scopes V) (name : String) (value : V) : Scopes V :=
  match s.frames with
  | [] => ⟨[[(name, value)]]⟩
  | frame :: frames => ⟨((name, value) :: frame) :: frames⟩

/-- The value that a name is bound to. -/
def lookup (s : Scopes V) (name : String) : Option V := s.frames.findSome? (·.lookup name)

/-- One frame with some bindings, of which the last of a name counts. -/
def ofGlobals (globals : List (String × V)) : Scopes V :=
  globals.foldl (fun s g ↦ s.declare g.1 g.2) empty.push

/-- Run a pass in a frame of its own. -/
def enclosed (s : Scopes V) (pass : Scopes V → α × Scopes V) : α × Scopes V :=
  ((pass s.push).1, (pass s.push).2.pop)

@[simp] theorem pop_push (s : Scopes V) : s.push.pop = s := rfl

@[simp] theorem depth_push (s : Scopes V) : s.push.depth = s.depth + 1 := rfl

@[simp] theorem lookup_empty (name : String) : (empty : Scopes V).lookup name = none := rfl

/-- A new frame binds nothing. -/
@[simp] theorem lookup_push (s : Scopes V) (name : String) : s.push.lookup name = s.lookup name :=
  rfl

/-- The name that is bound last is found with its value, and others as before. -/
theorem lookup_declare (s : Scopes V) (name other : String) (value : V) :
    (s.declare name value).lookup other = if other = name then some value else s.lookup other := by
  unfold declare lookup
  by_cases h : other = name
  · split <;> simp [h]
  · have hne : (other == name) = false := beq_eq_false_iff_ne.mpr h
    split <;> simp [*, List.findSome?_cons, List.lookup_cons]

/-- Closing the frame in which a name was bound undoes the binding. -/
@[simp] theorem pop_declare_push (s : Scopes V) (name : String) (value : V) :
    (s.push.declare name value).pop = s := rfl

end Scopes

end FlatSheet
