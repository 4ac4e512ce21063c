import FlatSheet.Folding.Flatten
import FlatSheet.Typing.Check

/-!
# Sessions

A session has a sheet and the scopes with which sheets are typed and flattened, and it answers one call
after the other. Typing and flattening change the sheet in its place. Flattening gathers the members
that it keeps in a list of their own; they take the place of those of the sheet once all of them are
there.
-/

namespace FlatSheet

/-- A sheet that calls work on, and the scopes with which they type and flatten it. -/
structure Session where
  types : TypeScopes
  values : ValueScopes
  sheet : Sheet
deriving DecidableEq

/-- What a session is asked to do. -/
inductive Call where
  | load (s : Sheet)
  | check
  | flatten
  | fold (e : Expr)

/-- What a session answers to a call. -/
inductive Answer where
  | done
  | flattened (result : Except FoldError Unit)
  | folded (value : Except FoldError Literal)

namespace Session

/-- Type the sheet. -/
def check (w : Session) : Session :=
  let typed := w.sheet.check w.types
  { w with sheet := typed.1, types := typed.2 }

/-- Flatten members in order and put the rules after those that are kept already. -/
def gather : List Member → List Member → Session → Except FoldError (List Member) × Session
  | [], kept, w => (.ok kept, w)
  | .rule r :: members, kept, w =>
    let flat := r.flatten w.values
    match flat.1 with
    | .error e => (.error e, { w with values := flat.2 })
    | .ok rule => gather members (kept ++ [.rule rule]) { w with values := flat.2 }
  | .assignment a :: members, kept, w =>
    match a.value.fold w.values with
    | .error e => (.error e, w)
    | .ok value => gather members kept { w with values := w.values.declare a.name value }

/-- Flatten the members of the sheet, in the frame that is open. -/
def rewrite (w : Session) : Except FoldError Unit × Session :=
  let gathered := gather w.sheet.members [] w
  match gathered.1 with
  | .error e => (.error e, gathered.2)
  | .ok members => (.ok (), { gathered.2 with sheet.members := members })

/-- Flatten the sheet, whose own variables have a frame. -/
def flatten (w : Session) : Except FoldError Unit × Session :=
  let rewritten := rewrite { w with values := w.values.push }
  (rewritten.1, { rewritten.2 with values := rewritten.2.values.pop })

/-- Answer a call. -/
def step (w : Session) : Call → Answer × Session
  | .load s => (.done, { w with sheet := s })
  | .check => (.done, w.check)
  | .flatten =>
    let flat := w.flatten
    (.flattened flat.1, flat.2)
  | .fold e => (.folded (e.fold w.values), w)

/-- Answer calls in order. Each answer has the session after its call beside it. -/
def run : Session → List Call → List (Answer × Session)
  | _, [] => []
  | w, c :: calls =>
    let after := w.step c
    after :: run after.2 calls

end Session

end FlatSheet
