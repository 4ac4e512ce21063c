import FlatSheet.Token.Reading

/-!
# What readers promise

`Reads.Ensures` says what holds of all that a reader gives, and `Reads.Achieves` that it gives
something of which a property holds. Both follow the way readers are put together, so that a promise
of a reader is made from those of its parts. What is said of lexemes is said of their tokens.
-/

namespace FlatSheet

/-! ### Readers in general -/

namespace Reads

variable {ε α β τ : Type} {input : List τ}

/-- Whatever is read has a property, together with the input after it. -/
def Ensures (reads : Reads ε α input) (P : α → List τ → Prop) : Prop :=
  ∀ r, reads = .ok r → P r.value r.rest

/-- Something is read that has a property, together with the input after it. -/
def Achieves (reads : Reads ε α input) (P : α → List τ → Prop) : Prop :=
  ∃ r, reads = .ok r ∧ P r.value r.rest

/-- Where nothing is read nothing is promised. -/
theorem ensures_error {e : ε} {P : α → List τ → Prop} :
    Ensures (.error e : Reads ε α input) P :=
  nofun

@[simp] theorem ensures_done {value : α} {P : α → List τ → Prop} :
    Ensures (done value : Reads ε α input) P ↔ P value input := by
  constructor
  · intro h
    exact h _ rfl
  · rintro h r ⟨⟩
    exact h

@[simp] theorem ensures_past {first : τ} {reads : Reads ε α input} {P : α → List τ → Prop} :
    (past first reads).Ensures P ↔ reads.Ensures P := by
  cases reads with
  | error e => exact ⟨fun _ ↦ nofun, fun _ ↦ nofun⟩
  | ok r =>
    constructor
    · rintro h _ ⟨⟩
      exact h _ rfl
    · rintro h _ ⟨⟩
      exact h _ rfl

/-- What follows is promised under what the first reader promises. -/
theorem Ensures.andThen {first : Reads ε α input} {next : (r : Reading α input) → Reads ε β r.rest}
    {P : α → List τ → Prop} {Q : β → List τ → Prop} (hfirst : first.Ensures P)
    (hnext : ∀ r, P r.value r.rest → (next r).Ensures Q) : (first.andThen next).Ensures Q := by
  cases first with
  | error e => exact nofun
  | ok r =>
    intro t ht
    simp only [Reads.andThen] at ht
    cases hr : next r with
    | error e =>
      rw [hr] at ht
      cases ht
    | ok u =>
      rw [hr] at ht
      cases ht
      exact hnext r (hfirst r rfl) u hr

@[simp] theorem achieves_done {value : α} {P : α → List τ → Prop} :
    Achieves (done value : Reads ε α input) P ↔ P value input := by
  constructor
  · rintro ⟨r, ⟨⟩, h⟩
    exact h
  · intro h
    exact ⟨_, rfl, h⟩

@[simp] theorem achieves_past {first : τ} {reads : Reads ε α input} {P : α → List τ → Prop} :
    (past first reads).Achieves P ↔ reads.Achieves P := by
  cases reads with
  | error e =>
    constructor
    · rintro ⟨_, ⟨⟩, _⟩
    · rintro ⟨_, ⟨⟩, _⟩
  | ok r =>
    constructor
    · rintro ⟨_, ⟨⟩, h⟩
      exact ⟨_, rfl, h⟩
    · rintro ⟨_, ⟨⟩, h⟩
      exact ⟨_, rfl, h⟩

/-- What follows is achieved from what the first reader achieves. -/
theorem Achieves.andThen {first : Reads ε α input} {next : (r : Reading α input) → Reads ε β r.rest}
    {P : α → List τ → Prop} {Q : β → List τ → Prop} (hfirst : first.Achieves P)
    (hnext : ∀ r, P r.value r.rest → (next r).Achieves Q) : (first.andThen next).Achieves Q := by
  rcases hfirst with ⟨r, rfl, hr⟩
  rcases hnext r hr with ⟨t, ht, hQ⟩
  refine ⟨⟨t.value, t.rest, Nat.le_trans t.length_le r.length_le⟩, ?_, hQ⟩
  simp only [Reads.andThen, ht]

end Reads

/-! ### Readers of lexemes -/

/-- The tokens of some lexemes, without their positions. -/
def tokensOf (lexemes : List Lexeme) : List Token := lexemes.map Lexeme.token

@[simp] theorem tokensOf_nil : tokensOf [] = [] := rfl

@[simp] theorem tokensOf_cons (l : Lexeme) (lexemes : List Lexeme) :
    tokensOf (l :: lexemes) = l.token :: tokensOf lexemes := rfl

@[simp] theorem tokensOf_append (a b : List Lexeme) :
    tokensOf (a ++ b) = tokensOf a ++ tokensOf b := List.map_append

/-- Lexemes whose tokens begin with a token begin with a lexeme of it. -/
theorem exists_of_tokensOf_eq_cons {lexemes : List Lexeme} {t : Token} {following : List Token}
    (h : tokensOf lexemes = t :: following) :
    ∃ l rest, lexemes = l :: rest ∧ l.token = t ∧ tokensOf rest = following :=
  List.map_eq_cons_iff.mp h

/-- A symbol that is read was the first token. -/
theorem readSymbol_ensures (s : Symbol) (lexemes : List Lexeme) :
    (readSymbol s lexemes).Ensures fun _ rest ↦
      tokensOf lexemes = .symbol s :: tokensOf rest := by
  cases lexemes with
  | nil => exact nofun
  | cons l rest =>
    by_cases hl : l.token = .symbol s
    · simp [readSymbol, hl]
    · rw [readSymbol, if_neg hl]
      exact Reads.ensures_error

/-- A symbol that is the first token is read. -/
theorem readSymbol_achieves {s : Symbol} {lexemes : List Lexeme} {following : List Token}
    (h : tokensOf lexemes = .symbol s :: following) :
    (readSymbol s lexemes).Achieves fun _ rest ↦ tokensOf rest = following := by
  rcases exists_of_tokensOf_eq_cons h with ⟨l, rest, rfl, hl, hrest⟩
  simpa [readSymbol, hl] using hrest

/-- A symbol that is looked for was the first token, if it is read. -/
theorem readSymbol?_ensures (s : Symbol) (lexemes : List Lexeme) :
    (readSymbol? s lexemes).Ensures fun found rest ↦ match found with
      | some _ => tokensOf lexemes = .symbol s :: tokensOf rest
      | none => tokensOf lexemes = tokensOf rest := by
  cases lexemes with
  | nil => simp [readSymbol?]
  | cons l rest =>
    by_cases hl : l.token = .symbol s
    · simp [readSymbol?, hl]
    · simp [readSymbol?, hl]

/-- A symbol that is looked for is read, if it is the first token. -/
theorem readSymbol?_achieves_some {s : Symbol} {lexemes : List Lexeme} {following : List Token}
    (h : tokensOf lexemes = .symbol s :: following) :
    (readSymbol? s lexemes).Achieves fun found rest ↦
      (∃ position, found = some position) ∧ tokensOf rest = following := by
  rcases exists_of_tokensOf_eq_cons h with ⟨l, rest, rfl, hl, hrest⟩
  simpa [readSymbol?, hl] using hrest

/-- A symbol that is looked for is not read, if it is not the first token. -/
theorem readSymbol?_achieves_none {s : Symbol} {lexemes : List Lexeme}
    (h : (tokensOf lexemes).head? ≠ some (.symbol s)) :
    (readSymbol? s lexemes).Achieves fun found rest ↦
      found = none ∧ tokensOf rest = tokensOf lexemes := by
  cases lexemes with
  | nil => simp [readSymbol?]
  | cons l rest =>
    have hl : l.token ≠ .symbol s := by simpa using h
    simp [readSymbol?, hl]

end FlatSheet
