import FlatSheet.Prelude.Updates
import FlatSheet.Proofs.Prelude.Bindings
import FlatSheet.Proofs.Prelude.Entries

/-!
# The history of a prelude

What a prelude holds after any changes follows from those that were made: a variable has the value of the
last definition of it since the last document, or else the one that the document gives. A change that is
refused leaves no trace.
-/

namespace FlatSheet

namespace Prelude

/-! ### Changes in place -/

/-- What a change makes of a prelude, or why it is refused. -/
def result (p : Prelude) : Update → Except PreludeError Prelude
  | .define name value => p.define name value
  | .load document => ofJson inline document

/-- The answer to a change and the prelude after it, from what it makes of the prelude. -/
def settle (p : Prelude) : Except PreludeError Prelude → Outcome × Prelude
  | .ok next => (.ok (), next)
  | .error e => (.error e, p)

theorem put_eq (p : Prelude) (name : String) (value : Literal) :
    p.put name value = p.settle (p.define name value) := by
  unfold put define
  split <;> rfl

/-- In place all values are given, or the same entry is refused, which may leave some of them. -/
theorem putTexts_cases (p : Prelude) (entries : Entries) :
    (∃ q, p.defineTexts entries = .ok q ∧ p.putTexts entries = (.ok (), q)) ∨
      ∃ e q, p.defineTexts entries = .error e ∧ p.putTexts entries = (.error e, q) := by
  induction entries generalizing p with
  | nil => exact .inl ⟨p, rfl, rfl⟩
  | cons entry entries ih =>
    obtain ⟨name, text⟩ := entry
    rw [defineTexts, putTexts]
    cases Literal.ofSource text with
    | error e => exact .inr ⟨_, p, rfl, rfl⟩
    | ok value =>
      simp only [put_eq]
      cases p.define name value with
      | error e => exact .inr ⟨e, p, rfl, rfl⟩
      | ok next => exact ih next

theorem replace_eq (p : Prelude) (document : String) :
    p.replace document = p.settle (ofJson inline document) := by
  unfold replace ofJson ofEntries
  cases entriesOf document with
  | error fault => rfl
  | ok entries =>
    dsimp only
    rcases putTexts_cases empty (Std.ExtTreeMap.ofList entries compare).toList with
      ⟨q, made, filled⟩ | ⟨e, q, made, filled⟩ <;>
    · rw [made, filled]
      rfl

/-- A change in place has the result of the change, and the prelude that there was if there is none. -/
theorem step_eq (p : Prelude) (u : Update) : p.step u = p.settle (p.result u) := by
  cases u with
  | define name value => exact put_eq p name value
  | load document => exact replace_eq p document

/-! ### What a change needs and does -/

/-- Whether a change can be made. What the prelude has is of no importance. -/
def Update.Succeeds : Update → Prop
  | .define name _ => IsName name
  | .load document => ∃ q, ofJson inline document = .ok q

/-- Whether a change decides on the value of a name. A document does so for every name. -/
def Update.Concerns (name : String) : Update → Prop
  | .define other _ => other = name
  | .load _ => True

/-- Whether a change gives a name a value. -/
def Update.Gives (name : String) (v : Literal) : Update → Prop
  | .define other value => other = name ∧ value = v
  | .load document => ∃ q, ofJson inline document = .ok q ∧ q.get? name = some v

theorem settle_fst {p : Prelude} {r : Except PreludeError Prelude} :
    (p.settle r).1 = .ok () ↔ ∃ q, r = .ok q := by
  cases r with
  | error e => simp [settle]
  | ok q => simp [settle]

theorem settle_snd_of_error {p : Prelude} {r : Except PreludeError Prelude} {e : PreludeError}
    (h : (p.settle r).1 = .error e) : (p.settle r).2 = p := by
  cases r with
  | error e => rfl
  | ok q => cases h

/-- A change is made when it can be. -/
theorem step_fst (p : Prelude) (u : Update) : (p.step u).1 = .ok () ↔ u.Succeeds := by
  rw [step_eq, settle_fst]
  cases u with
  | define name value =>
    by_cases named : IsName name
    · simp [result, Update.Succeeds, define_of_isName, named]
    · simp [result, Update.Succeeds, define_of_not_isName, named]
  | load document => rfl

/-- A change that is refused leaves the prelude as it was. -/
theorem step_snd_of_error {p : Prelude} {u : Update} {e : PreludeError}
    (h : (p.step u).1 = .error e) : (p.step u).2 = p := by
  rw [step_eq] at h ⊢
  exact settle_snd_of_error h

/-- After a change a name has the value that the change gives, or the one from before if the change is
refused or is about another name. -/
theorem get?_step {p : Prelude} {u : Update} {name : String} {v : Literal} :
    (p.step u).2.get? name = some v ↔
      (u.Succeeds ∧ u.Gives name v) ∨ ((u.Succeeds → ¬ u.Concerns name) ∧ p.get? name = some v) := by
  rw [step_eq]
  cases u with
  | define other value =>
    simp only [result, Update.Succeeds, Update.Gives, Update.Concerns]
    by_cases named : IsName other
    · rw [define_of_isName named, settle, get?]
      by_cases same : other = name
      · subst same
        rw [Std.ExtTreeMap.getElem?_insert_self]
        simp [named, eq_comm]
      · rw [Std.ExtTreeMap.getElem?_insert, if_neg (by simpa using same)]
        simp [named, same, get?]
    · rw [define_of_not_isName named]
      simp [named, settle]
  | load document =>
    simp only [result, Update.Succeeds, Update.Gives, Update.Concerns]
    cases ofJson inline document with
    | error e => simp [settle]
    | ok q => simp [settle]

/-! ### Runs -/

/-- No change that is made decides on the value of the name. -/
def Untouched (updates : List Update) (name : String) : Prop :=
  ∀ u ∈ updates, u.Succeeds → ¬ u.Concerns name

/-- After changes a name has the value that the last one about it gives, or the one from before all of
them if none is about it. -/
theorem get?_run {p : Prelude} {updates : List Update} {name : String} {v : Literal} :
    (p.run updates).get? name = some v ↔
      (∃ before u after, updates = before ++ u :: after ∧ u.Succeeds ∧ u.Gives name v ∧
        Untouched after name) ∨
      (Untouched updates name ∧ p.get? name = some v) := by
  induction updates generalizing p with
  | nil => simp [run, Untouched]
  | cons u updates ih =>
    have spared : Untouched (u :: updates) name ↔
        (u.Succeeds → ¬ u.Concerns name) ∧ Untouched updates name := List.forall_mem_cons
    rw [run, ih, get?_step, spared]
    constructor
    · rintro (⟨before, w, after, rfl, made, gives, rest⟩ | ⟨rest, ⟨made, gives⟩ | ⟨first, stored⟩⟩)
      · exact .inl ⟨u :: before, w, after, rfl, made, gives, rest⟩
      · exact .inl ⟨[], u, updates, rfl, made, gives, rest⟩
      · exact .inr ⟨⟨first, rest⟩, stored⟩
    · rintro (⟨before, w, after, split, made, gives, rest⟩ | ⟨⟨first, rest⟩, stored⟩)
      · cases before with
        | nil =>
          cases split
          exact .inr ⟨rest, .inl ⟨made, gives⟩⟩
        | cons _ before =>
          cases split
          exact .inl ⟨before, w, after, rfl, made, gives, rest⟩
      · exact .inr ⟨rest, .inr ⟨first, stored⟩⟩

/-- The names of all variables begin with a capital letter. -/
def Named (p : Prelude) : Prop := ∀ name v, p.get? name = some v → IsName name

theorem named_empty : empty.Named := by
  intro name v h
  cases h

/-- A document gives no other names. -/
theorem named_of_ofJson {path document : String} {q : Prelude} (h : ofJson path document = .ok q) :
    q.Named := by
  intro name v stored
  unfold ofJson at h
  cases read : entriesOf document with
  | error fault =>
    rw [read] at h
    cases h
  | ok entries =>
    rw [read] at h
    obtain ⟨text, counts, -⟩ := (get?_of_ofEntries h).mp stored
    obtain ⟨w, right⟩ := ofEntries_eq_ok_iff.mp ⟨q, h⟩ name text counts
    exact right.2

/-- A change that is made gives values to such names only. -/
theorem isName_of_gives {u : Update} {name : String} {v : Literal} (made : u.Succeeds)
    (gives : u.Gives name v) : IsName name := by
  cases u with
  | define other value =>
    obtain ⟨rfl, -⟩ := gives
    exact made
  | load document =>
    obtain ⟨q, h, stored⟩ := gives
    exact named_of_ofJson h name v stored

theorem Named.step {p : Prelude} (h : p.Named) (u : Update) : (p.step u).2.Named := by
  intro name v stored
  rcases get?_step.mp stored with ⟨made, gives⟩ | ⟨-, stored⟩
  · exact isName_of_gives made gives
  · exact h name v stored

theorem Named.run {p : Prelude} (h : p.Named) (updates : List Update) : (p.run updates).Named := by
  induction updates generalizing p with
  | nil => exact h
  | cons u updates ih => exact ih (h.step u)

/-- After any changes of a new prelude, made or refused, all names begin with a capital letter; the list
of the variables has each name once, in the order of the bytes, with the value that is found for the name,
and is as long as the prelude says. A change that is refused leaves the prelude as it was. A name has the
value of the last definition of it that was made since the last document that was loaded, or else the one
that the document gives. -/
theorem stored_after_updates (updates : List Update) :
    (∀ entry ∈ (empty.run updates).toList, IsName entry.1) ∧
      ((empty.run updates).toList.Pairwise fun a b ↦ bytesOf a.1 < bytesOf b.1) ∧
      (∀ name v, (name, v) ∈ (empty.run updates).toList ↔ (empty.run updates).get? name = some v) ∧
      (empty.run updates).toList.length = (empty.run updates).size ∧
      (∀ u, ((empty.run updates).step u).1 = .ok () ↔ u.Succeeds) ∧
      (∀ u e, ((empty.run updates).step u).1 = .error e →
        ((empty.run updates).step u).2 = empty.run updates) ∧
      ∀ name v, (empty.run updates).get? name = some v ↔
        (∃ before after, updates = before ++ .define name v :: after ∧ IsName name ∧
          Untouched after name) ∨
        ∃ before document after q, updates = before ++ .load document :: after ∧
          ofJson inline document = .ok q ∧ q.get? name = some v ∧ Untouched after name := by
  refine ⟨?_, ordered_toList _, fun name v ↦ mem_toList, Std.ExtTreeMap.length_toList, step_fst _,
    fun u e ↦ step_snd_of_error, fun name v ↦ ?_⟩
  · intro entry hentry
    exact named_empty.run updates entry.1 entry.2 (mem_toList.mp hentry)
  · rw [get?_run]
    constructor
    · rintro (⟨before, u, after, rfl, made, gives, rest⟩ | ⟨-, stored⟩)
      · cases u with
        | define other value =>
          obtain ⟨rfl, rfl⟩ := gives
          exact .inl ⟨before, after, rfl, made, rest⟩
        | load document =>
          obtain ⟨q, h, stored⟩ := gives
          exact .inr ⟨before, document, after, q, rfl, h, stored, rest⟩
      · cases stored
    · rintro (⟨before, after, rfl, named, rest⟩ | ⟨before, document, after, q, rfl, h, stored, rest⟩)
      · exact .inl ⟨before, .define name v, after, rfl, named, ⟨rfl, rfl⟩, rest⟩
      · exact .inl ⟨before, .load document, after, rfl, ⟨q, h⟩, ⟨q, h, stored⟩, rest⟩

-- The second document is refused for a name after its first variable is read.
example : (empty.run
    [.load "\x7b\"variables\":\x7b\"Gap\":\"1px\",\"Dark\":\"true\"\x7d\x7d",
      .define "Gap" (.color "#ffffff"),
      .load "\x7b\"variables\":\x7b\"Dark\":\"false\",\"b\":\"2px\"\x7d\x7d"]).toList =
    [("Dark", .bool true), ("Gap", .color "#ffffff")] := by
  with_unfolding_all rfl

end Prelude

end FlatSheet
