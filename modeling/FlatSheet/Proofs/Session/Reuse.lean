import FlatSheet.Proofs.Scopes.Restored
import FlatSheet.Session

/-!
# Sessions can be used again

Flattening in place has the outcome of flattening: the sheet is the flat one, or the sheet as it was
with an error. A call leaves the scopes as it found them, on every path out of it. A session therefore
answers every call as one would that is built for that call alone.
-/

namespace FlatSheet

namespace Session

/-! ### Flattening in place -/

/-- Members are gathered as they are flattened, and the sheet is left alone meanwhile. -/
theorem gather_eq (members kept : List Member) (w : Session) :
    gather members kept w =
      ((Sheet.flattenMembers members w.values).1.map (kept ++ ·),
        { w with values := (Sheet.flattenMembers members w.values).2 }) := by
  induction members generalizing kept w with
  | nil => simp [gather, Sheet.flattenMembers, Except.map]
  | cons m members ih =>
    cases m with
    | rule r =>
      rw [gather, Sheet.flattenMembers]
      dsimp only
      cases (r.flatten w.values).1 with
      | error e => rfl
      | ok rule =>
        dsimp only
        rw [ih]
        cases (Sheet.flattenMembers members (r.flatten w.values).2).1 <;> simp [Except.map]
    | assignment a =>
      rw [gather, Sheet.flattenMembers]
      cases a.value.fold w.values with
      | error e => rfl
      | ok value => exact ih kept _

/-- Flattening in place leaves the flat sheet where there is one, and the sheet as it was where there is
none. The scopes are as they were in either case. -/
theorem flatten_eq (w : Session) :
    w.flatten =
      match (w.sheet.flatten w.values).1 with
      | .ok flat => (.ok (), { w with sheet := flat })
      | .error e => (.error e, w) := by
  have scopes := Sheet.pop_flattenMembers w.sheet.members w.values.push
  rw [flatten, rewrite, gather_eq, Sheet.flatten, Scopes.enclosed_fst]
  dsimp only
  cases (Sheet.flattenMembers w.sheet.members w.values.push).1 with
  | error e => simp [Except.map, scopes]
  | ok members => simp [Except.map, scopes]

/-- Flattening in place that fails leaves the session as it was, its sheet included. -/
theorem flatten_of_error {w : Session} {e : FoldError} (h : w.flatten.1 = .error e) :
    w.flatten.2 = w := by
  rw [flatten_eq] at h ⊢
  cases flat : (w.sheet.flatten w.values).1 with
  | error e => rfl
  | ok flat' =>
    rw [flat] at h
    cases h

/-! ### Calls in any order -/

/-- A call leaves the scopes as they were. -/
theorem step_scopes (w : Session) (c : Call) :
    (w.step c).2 = { w with sheet := (w.step c).2.sheet } := by
  cases c with
  | load s => rfl
  | check =>
    show w.check = _
    rw [check, Sheet.check_snd]
    rfl
  | flatten =>
    show w.flatten.2 = { w with sheet := w.flatten.2.sheet }
    rw [flatten_eq]
    split <;> rfl
  | fold e => rfl

/-- Answer calls in order, each in a session with the same scopes that is new but for the sheet. -/
def runAfresh (types : TypeScopes) (values : ValueScopes) :
    Sheet → List Call → List (Answer × Session)
  | _, [] => []
  | s, c :: calls =>
    let after := step ⟨types, values, s⟩ c
    after :: runAfresh types values after.2.sheet calls

/-- A session answers each of some calls as a new one would. -/
theorem run_eq_runAfresh (w : Session) (calls : List Call) :
    w.run calls = runAfresh w.types w.values w.sheet calls := by
  induction calls generalizing w with
  | nil => rfl
  | cons c calls ih =>
    rw [run, runAfresh, ih, step_scopes]

/-- The scopes after each of some calls are those before all of them. -/
theorem scopes_of_mem_run {w : Session} {calls : List Call} {after : Answer × Session}
    (h : after ∈ w.run calls) : after.2.types = w.types ∧ after.2.values = w.values := by
  induction calls generalizing w with
  | nil => cases h
  | cons c calls ih =>
    rw [run] at h
    cases h with
    | head => exact ⟨by rw [step_scopes], by rw [step_scopes]⟩
    | tail _ later =>
      have rest := ih later
      rwa [step_scopes] at rest

/-- Whatever is called in whatever order, the scopes after each call are those that the session was
built with, each answer and sheet is that of a new session, and flattening that fails changes nothing. -/
theorem run_reusable (types : TypeScopes) (values : ValueScopes) (s : Sheet) (calls : List Call) :
    (∀ after ∈ run ⟨types, values, s⟩ calls, after.2.types = types ∧ after.2.values = values) ∧
    run ⟨types, values, s⟩ calls = runAfresh types values s calls ∧
    ∀ (before after : Session) (e : FoldError),
      before.step .flatten = (.flattened (.error e), after) → after = before := by
  refine ⟨fun after h ↦ scopes_of_mem_run h, run_eq_runAfresh _ calls, fun before after e h ↦ ?_⟩
  obtain ⟨answer, rfl⟩ := Prod.mk.inj h
  exact flatten_of_error (Answer.flattened.inj answer)

/-- Flattening fails in two branches inside a rule, with a variable bound in each frame on the way, and
the calls after it are answered as if it had not been called. -/
theorem run_reusable_after_failure :
    let m := Mark.clean .unknown
    let reads (name : String) : Expr := .reference name m
    let yes : Expr := .literal (.bool true) m
    let width (value : Expr) : Block := .declaration ⟨"width", value, m⟩ .empty
    let unfit : Sheet := .ofMembers [.assignment ⟨"G", reads "W", m⟩,
      .rule ⟨[.tag "a"], .assignment ⟨"H", reads "G", m⟩
        (.ifThen yes (.assignment ⟨"W", reads "H", m⟩
          (.ifThen yes (.assignment ⟨"W", yes, m⟩ (width (reads "N"))) m .empty)) m .empty), m⟩]
    let four : Literal := .pixels ⟨4, by decide, by decide⟩
    let w : Session := ⟨.ofGlobals [("W", .bool true)], .ofGlobals [("W", four)], unfit⟩
    let calls : List Call := [.flatten, .fold (reads "W"), .fold (reads "H"), .check,
      .load (.ofMembers [.rule ⟨[.tag "b"], width (reads "W"), m⟩]), .flatten]
    (w.step .flatten).2 = w ∧ w.run calls = runAfresh w.types w.values unfit calls ∧
      (w.run calls).map Prod.fst = [.flattened (.error (.unboundVariable "N")), .folded (.ok four),
        .folded (.error (.unboundVariable "H")), .done, .done, .flattened (.ok ())] := by
  intro m reads yes width unfit four w calls
  obtain ⟨_, afresh, fails⟩ := run_reusable w.types w.values unfit calls
  have failed : w.step .flatten = (.flattened (.error (.unboundVariable "N")), (w.step .flatten).2) :=
    rfl
  exact ⟨fails w _ _ failed, afresh, rfl⟩

end Session

end FlatSheet
