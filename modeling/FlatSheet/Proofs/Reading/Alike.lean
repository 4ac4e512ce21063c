import FlatSheet.Proofs.Reading.Sheets

/-!
# Reading looks at tokens only

Lexemes with the same tokens are read alike, wherever they stand: readers of both go equally far, and
where one is stuck the other is stuck at the same token for want of the same. `Reads.Alike` follows the
way readers are put together, as their promises do.
-/

namespace FlatSheet

/-! ### Readers that go alike -/

/-- Two readers want the same in front of the same tokens, or they read values that are related and leave
the same tokens. -/
inductive Reads.Alike {α : Type} (R : α → α → Prop) {a b : List Lexeme} :
    LexemeReads α a → LexemeReads α b → Prop
  | stuck {wanted : Wanted} {l r : List Lexeme} : tokensOf l = tokensOf r →
    Alike R (.error ⟨wanted, l⟩) (.error ⟨wanted, r⟩)
  | read {l : Reading α a} {r : Reading α b} : R l.value r.value →
    tokensOf l.rest = tokensOf r.rest → Alike R (.ok l) (.ok r)

namespace Reads.Alike

variable {α β : Type} {R : α → α → Prop} {S : β → β → Prop} {a b : List Lexeme}

/-- Nothing more is read alike. -/
theorem done {v w : α} (hvalues : R v w) (h : tokensOf a = tokensOf b) :
    Alike R (Reads.done v : LexemeReads α a) (Reads.done w : LexemeReads α b) :=
  .read hvalues h

/-- What goes alike does so after one more lexeme. -/
theorem past {first : LexemeReads α a} {second : LexemeReads α b} (h : Alike R first second)
    (l r : Lexeme) : Alike R (Reads.past l first) (Reads.past r second) := by
  cases h with
  | stuck tokens => exact .stuck tokens
  | read values tokens => exact .read values tokens

/-- What follows goes alike if it does so for related values in front of the same tokens. -/
theorem andThen {first : LexemeReads α a} {second : LexemeReads α b}
    {next : (r : Reading α a) → LexemeReads β r.rest}
    {after : (r : Reading α b) → LexemeReads β r.rest} (h : Alike R first second)
    (hnext : ∀ l r, R l.value r.value → tokensOf l.rest = tokensOf r.rest →
      Alike S (next l) (after r)) : Alike S (first.andThen next) (second.andThen after) := by
  cases h with
  | stuck tokens => exact .stuck tokens
  | @read l r values tokens =>
    have rest := hnext l r values tokens
    simp only [Reads.andThen]
    generalize next l = m at rest
    generalize after r = n at rest
    cases rest with
    | stuck tokens => exact .stuck tokens
    | read values tokens => exact .read values tokens

end Reads.Alike

/-- Values that need not be related: what is read next does not depend on them. -/
def Anyhow {α : Type} (_ _ : α) : Prop := True

/-- Without tokens there are no lexemes. -/
theorem eq_nil_of_tokensOf {b : List Lexeme} (h : tokensOf [] = tokensOf b) : b = [] :=
  List.map_eq_nil_iff.mp h.symm

/-- Lexemes with the same tokens as some others begin with the same token as these. -/
theorem exists_cons_of_tokensOf {l : Lexeme} {as b : List Lexeme}
    (h : tokensOf (l :: as) = tokensOf b) :
    ∃ r bs, b = r :: bs ∧ l.token = r.token ∧ tokensOf as = tokensOf bs := by
  cases b with
  | nil => cases h
  | cons r bs =>
    obtain ⟨token, rest⟩ := List.cons.inj h
    exact ⟨r, bs, rfl, token, rest⟩

/-! ### Symbols -/

/-- A symbol is read alike from the same tokens. -/
theorem readSymbol_alike (s : Symbol) {a b : List Lexeme} (h : tokensOf a = tokensOf b) :
    Reads.Alike Anyhow (readSymbol s a) (readSymbol s b) := by
  cases a with
  | nil =>
    obtain rfl := eq_nil_of_tokensOf h
    exact .stuck rfl
  | cons l as =>
    obtain ⟨r, bs, rfl, token, hrest⟩ := exists_cons_of_tokensOf h
    by_cases hl : l.token = .symbol s
    · rw [readSymbol, readSymbol, if_pos hl, if_pos (token ▸ hl)]
      exact (Reads.Alike.done (R := Anyhow) trivial hrest).past l r
    · rw [readSymbol, readSymbol, if_neg hl, if_neg (token ▸ hl)]
      exact .stuck h

/-- A symbol is looked for alike in front of the same tokens. -/
theorem readSymbol?_alike (s : Symbol) {a b : List Lexeme} (h : tokensOf a = tokensOf b) :
    Reads.Alike (fun found other ↦ found.isSome = other.isSome) (readSymbol? s a)
      (readSymbol? s b) := by
  cases a with
  | nil =>
    obtain rfl := eq_nil_of_tokensOf h
    exact .done rfl rfl
  | cons l as =>
    obtain ⟨r, bs, rfl, token, hrest⟩ := exists_cons_of_tokensOf h
    by_cases hl : l.token = .symbol s
    · rw [readSymbol?, readSymbol?, if_pos hl, if_pos (token ▸ hl)]
      apply Reads.Alike.past
      exact .done rfl hrest
    · rw [readSymbol?, readSymbol?, if_neg hl, if_neg (token ▸ hl)]
      exact .done rfl h

/-! ### Expressions -/

namespace Expr

private theorem ofLexeme?_isSome {l r : Lexeme} (h : l.token = r.token) :
    (ofLexeme? l).isSome = (ofLexeme? r).isSome := by
  unfold ofLexeme?
  rw [h]
  split
  · rfl
  · rw [Option.isSome_map, Option.isSome_map]

/-- An operand is read alike from the same tokens. -/
theorem readOperand_alike {a b : List Lexeme} (h : tokensOf a = tokensOf b) :
    Reads.Alike Anyhow (readOperand a) (readOperand b) := by
  cases a with
  | nil =>
    obtain rfl := eq_nil_of_tokensOf h
    exact .stuck rfl
  | cons l as =>
    obtain ⟨r, bs, rfl, token, hrest⟩ := exists_cons_of_tokensOf h
    have found := ofLexeme?_isSome token
    rw [readOperand, readOperand]
    cases hl : ofLexeme? l with
    | none =>
      cases hr : ofLexeme? r with
      | none => exact .stuck h
      | some e => simp [hl, hr] at found
    | some e =>
      cases hr : ofLexeme? r with
      | none => simp [hl, hr] at found
      | some e' => exact (Reads.Alike.done (R := Anyhow) trivial hrest).past l r

/-- The operands of a product are read alike from the same tokens. -/
theorem readFactors_alike (lhs other : Expr) {a b : List Lexeme} (h : tokensOf a = tokensOf b) :
    Reads.Alike Anyhow (readFactors lhs a) (readFactors other b) := by
  fun_induction readFactors lhs a generalizing other b with
  | case1 lhs =>
    obtain rfl := eq_nil_of_tokensOf h
    rw [readFactors]
    exact .done trivial rfl
  | case2 lhs l rest hstar ih =>
    obtain ⟨r, bs, rfl, token, hrest⟩ := exists_cons_of_tokensOf h
    rw [readFactors, if_pos (token ▸ hstar)]
    apply Reads.Alike.past
    apply (readOperand_alike hrest).andThen
    intro first second _ next
    exact ih first _ next
  | case3 lhs l rest hstar =>
    obtain ⟨r, bs, rfl, token, hrest⟩ := exists_cons_of_tokensOf h
    rw [readFactors, if_neg (token ▸ hstar)]
    exact .done trivial h

/-- A product is read alike from the same tokens. -/
theorem readProduct_alike {a b : List Lexeme} (h : tokensOf a = tokensOf b) :
    Reads.Alike Anyhow (readProduct a) (readProduct b) := by
  apply (readOperand_alike h).andThen
  intro first second _ next
  exact readFactors_alike _ _ next

/-- The products of a sum are read alike from the same tokens. -/
theorem readTerms_alike (lhs other : Expr) {a b : List Lexeme} (h : tokensOf a = tokensOf b) :
    Reads.Alike Anyhow (readTerms lhs a) (readTerms other b) := by
  fun_induction readTerms lhs a generalizing other b with
  | case1 lhs =>
    obtain rfl := eq_nil_of_tokensOf h
    rw [readTerms]
    exact .done trivial rfl
  | case2 lhs l rest op hop ih =>
    obtain ⟨r, bs, rfl, token, hrest⟩ := exists_cons_of_tokensOf h
    rw [token] at hop
    rw [readTerms, hop]
    apply Reads.Alike.past
    apply (readProduct_alike hrest).andThen
    intro first second _ next
    exact ih first _ next
  | case3 lhs l rest hop =>
    obtain ⟨r, bs, rfl, token, hrest⟩ := exists_cons_of_tokensOf h
    rw [token] at hop
    rw [readTerms, hop]
    exact .done trivial h

/-- An expression is read alike from the same tokens. -/
theorem read_alike {a b : List Lexeme} (h : tokensOf a = tokensOf b) :
    Reads.Alike Anyhow (read a) (read b) := by
  apply (readProduct_alike h).andThen
  intro first second _ next
  exact readTerms_alike _ _ next

end Expr

/-! ### Parts of a sheet -/

/-- A value is read alike from the same tokens. -/
theorem readValue_alike (s : Symbol) {a b : List Lexeme} (h : tokensOf a = tokensOf b) :
    Reads.Alike Anyhow (readValue s a) (readValue s b) := by
  apply (readSymbol_alike s h).andThen
  intro _ _ _ front
  apply (Expr.read_alike front).andThen
  intro _ _ _ value
  apply (readSymbol_alike .semicolon value).andThen
  intro _ _ _ semicolon
  exact .done trivial semicolon

/-- A declaration is read alike from the same tokens. -/
theorem Declaration.read_alike {l r : Lexeme} (token : l.token = r.token) {a b : List Lexeme}
    (h : tokensOf a = tokensOf b) :
    Reads.Alike Anyhow (Declaration.read l a) (Declaration.read r b) := by
  rw [Declaration.read, Declaration.read, token]
  split
  · apply (readValue_alike .colon h).andThen
    intro _ _ _ rest
    exact .done trivial rest
  · apply Reads.Alike.stuck
    rw [tokensOf_cons, tokensOf_cons, token, h]

/-- An assignment is read alike from the same tokens. -/
theorem Assignment.read_alike {l r : Lexeme} (token : l.token = r.token) {a b : List Lexeme}
    (h : tokensOf a = tokensOf b) :
    Reads.Alike Anyhow (Assignment.read l a) (Assignment.read r b) := by
  rw [Assignment.read, Assignment.read, token]
  split
  · apply (readValue_alike .assign h).andThen
    intro _ _ _ rest
    exact .done trivial rest
  · apply Reads.Alike.stuck
    rw [tokensOf_cons, tokensOf_cons, token, h]

/-- A condition is read alike from the same tokens. -/
theorem readCondition_alike {a b : List Lexeme} (h : tokensOf a = tokensOf b) :
    Reads.Alike Anyhow (readCondition a) (readCondition b) := by
  apply (readSymbol_alike .openBracket h).andThen
  intro _ _ _ bracket
  apply (Expr.read_alike bracket).andThen
  intro _ _ _ condition
  apply (readSymbol_alike .closeBracket condition).andThen
  intro _ _ _ close
  apply (readSymbol_alike .openBrace close).andThen
  intro _ _ _ brace
  exact .done trivial brace

/-- The items of a block are read alike from the same tokens. -/
theorem Block.read_alike {a b : List Lexeme} (h : tokensOf a = tokensOf b) :
    Reads.Alike Anyhow (Block.read a) (Block.read b) := by
  fun_induction Block.read a generalizing b with
  | case1 =>
    obtain rfl := eq_nil_of_tokensOf h
    rw [Block.read]
    exact .done trivial rfl
  | case2 l rest hl =>
    obtain ⟨r, bs, rfl, token, hrest⟩ := exists_cons_of_tokensOf h
    rw [token] at hl
    rw [Block.read, hl]
    exact .done trivial h
  | case3 l rest property hl ih =>
    obtain ⟨r, bs, rfl, token, hrest⟩ := exists_cons_of_tokensOf h
    rw [Block.read, ← token, hl]
    apply Reads.Alike.past
    apply (Declaration.read_alike token hrest).andThen
    intro d _ _ declaration
    apply (ih d declaration).andThen
    intro _ _ _ items
    exact .done trivial items
  | case4 l rest name hl ih =>
    obtain ⟨r, bs, rfl, token, hrest⟩ := exists_cons_of_tokensOf h
    rw [Block.read, ← token, hl]
    apply Reads.Alike.past
    apply (Assignment.read_alike token hrest).andThen
    intro a _ _ assignment
    apply (ih a assignment).andThen
    intro _ _ _ items
    exact .done trivial items
  | case5 l rest hl ihBody ihItems ihOther ihLast =>
    obtain ⟨r, bs, rfl, token, hrest⟩ := exists_cons_of_tokensOf h
    rw [token] at hl
    rw [Block.read, hl]
    apply Reads.Alike.past
    apply (readCondition_alike hrest).andThen
    intro c _ _ condition
    apply (ihBody c condition).andThen
    intro body _ _ items
    apply (readSymbol_alike .closeBrace items).andThen
    intro close _ _ brace
    apply (readSymbol?_alike .elseWord brace).andThen
    intro word word' found same
    split
    · next none =>
      split
      · apply (ihItems c body close word same).andThen
        intro _ _ _ others
        exact .done trivial others
      · next some => simp [none, some] at found
    · next some =>
      split
      · next none => simp [none, some] at found
      · apply (readSymbol_alike .openBrace same).andThen
        intro brace _ _ opened
        apply (ihOther c body close word brace opened).andThen
        intro other _ _ branch
        apply (readSymbol_alike .closeBrace branch).andThen
        intro last _ _ closed
        apply (ihLast c body close word brace other last closed).andThen
        intro _ _ _ others
        exact .done trivial others
  | case6 l rest notClose notProperty notName notIf =>
    obtain ⟨r, bs, rfl, token, hrest⟩ := exists_cons_of_tokensOf h
    rw [token] at notClose notProperty notName notIf
    have other : Block.read (r :: bs) = stuck .blockItem := by
      rw [Block.read]
      split <;> simp_all
    rw [other]
    exact .stuck h

/-- Selectors are read alike from the same tokens. -/
theorem Selector.readAll_alike {a b : List Lexeme} (h : tokensOf a = tokensOf b) :
    Reads.Alike Anyhow (Selector.readAll a) (Selector.readAll b) := by
  fun_induction Selector.readAll a generalizing b with
  | case1 =>
    obtain rfl := eq_nil_of_tokensOf h
    rw [Selector.readAll]
    exact .done trivial rfl
  | case2 l rest s hs ih =>
    obtain ⟨r, bs, rfl, token, hrest⟩ := exists_cons_of_tokensOf h
    rw [token] at hs
    rw [Selector.readAll, hs]
    apply Reads.Alike.past
    apply (ih hrest).andThen
    intro _ _ _ others
    exact .done trivial others
  | case3 l rest hs =>
    obtain ⟨r, bs, rfl, token, hrest⟩ := exists_cons_of_tokensOf h
    rw [token] at hs
    rw [Selector.readAll, hs]
    exact .done trivial h

/-- A rule is read alike from the same tokens. -/
theorem Rule.read_alike {l r : Lexeme} (token : l.token = r.token) {a b : List Lexeme}
    (h : tokensOf a = tokensOf b) : Reads.Alike Anyhow (Rule.read l a) (Rule.read r b) := by
  rw [Rule.read, Rule.read, token]
  cases Selector.ofToken? r.token with
  | none =>
    apply Reads.Alike.stuck
    rw [tokensOf_cons, tokensOf_cons, token, h]
  | some s =>
    apply (Selector.readAll_alike h).andThen
    intro _ _ _ others
    apply (readSymbol_alike .openBrace others).andThen
    intro _ _ _ brace
    apply (Block.read_alike brace).andThen
    intro _ _ _ body
    apply (readSymbol_alike .closeBrace body).andThen
    intro _ _ _ close
    exact .done trivial close

/-- A member is read alike from the same tokens. -/
theorem Member.read_alike {l r : Lexeme} (token : l.token = r.token) {a b : List Lexeme}
    (h : tokensOf a = tokensOf b) : Reads.Alike Anyhow (Member.read l a) (Member.read r b) := by
  rw [Member.read, Member.read, token]
  split
  · apply (Assignment.read_alike token h).andThen
    intro _ _ _ rest
    exact .done trivial rest
  · apply (Rule.read_alike token h).andThen
    intro _ _ _ rest
    exact .done trivial rest

/-! ### Sheets -/

namespace Sheet

/-- Where members are stuck, members of the same tokens are stuck alike. -/
theorem readMembers_stuck {a b : List Lexeme} (h : tokensOf a = tokensOf b) {e : Stuck}
    (he : readMembers a = .error e) :
    ∃ e', readMembers b = .error e' ∧ e'.wanted = e.wanted ∧ tokensOf e'.rest = tokensOf e.rest := by
  fun_induction readMembers a generalizing b with
  | case1 => cases he
  | case2 l rest first hfirst =>
    obtain ⟨r, bs, rfl, token, hrest⟩ := exists_cons_of_tokensOf h
    cases he
    have alike := Member.read_alike token hrest
    rw [hfirst] at alike
    cases hsecond : Member.read r bs with
    | ok m =>
      rw [hsecond] at alike
      cases alike
    | error e' =>
      rw [hsecond] at alike
      have stuck : readMembers (r :: bs) = .error e' := by simp only [readMembers, hsecond]
      cases alike with
      | stuck tokens => exact ⟨_, stuck, rfl, tokens.symm⟩
  | case3 l rest m hfirst others hothers ih =>
    obtain ⟨r, bs, rfl, token, hrest⟩ := exists_cons_of_tokensOf h
    cases he
    have alike := Member.read_alike token hrest
    rw [hfirst] at alike
    cases hsecond : Member.read r bs with
    | error e' =>
      rw [hsecond] at alike
      cases alike
    | ok m' =>
      rw [hsecond] at alike
      cases alike with
      | read _ tokens =>
        obtain ⟨e', he', same⟩ := ih tokens hothers
        exact ⟨e', by simp only [readMembers, hsecond, he'], same⟩
  | case4 l rest m hfirst others hothers ih => cases he

/-- Where two lists are stuck at the same tokens, the fault is the same. -/
private theorem fault_error {e e' : Stuck} (wanted : e'.wanted = e.wanted)
    (tokens : tokensOf e'.rest = tokensOf e.rest) (a b : List Lexeme) :
    (e'.error b).fault = (e.error a).fault := by
  have atEnd {e : Stuck} (all : List Lexeme) (h : e.rest = []) :
      (e.error all).fault = .unexpectedToken e.wanted none := by
    rw [Stuck.error, h]
    dsimp only
    split <;> rfl
  have atToken {e : Stuck} (all : List Lexeme) {l : Lexeme} {rest : List Lexeme}
      (h : e.rest = l :: rest) : (e.error all).fault = .unexpectedToken e.wanted (some l.token) := by
    rw [Stuck.error, h]
  cases left : e'.rest with
  | nil =>
    rw [left] at tokens
    rw [atEnd b left, atEnd a (eq_nil_of_tokensOf tokens), wanted]
  | cons l rest =>
    rw [left] at tokens
    obtain ⟨r, rest', right, token, -⟩ := exists_cons_of_tokensOf tokens
    rw [atToken b left, atToken a right, wanted, token]

/-- Where lexemes are not read, lexemes with the same tokens are not read for the same fault. -/
theorem ofLexemes_error_alike {a b : List Lexeme} (h : tokensOf a = tokensOf b) {e : ParseError}
    (he : ofLexemes a = .error e) : ∃ e', ofLexemes b = .error e' ∧ e'.fault = e.fault := by
  unfold ofLexemes at he
  cases hmembers : readMembers a with
  | ok members =>
    rw [hmembers] at he
    cases he
  | error stuck =>
    rw [hmembers] at he
    cases he
    obtain ⟨stuck', hstuck', wanted, tokens⟩ := readMembers_stuck h hmembers
    exact ⟨stuck'.error b, by rw [ofLexemes, hstuck'], fault_error wanted tokens a b⟩

/-- Lexemes with the same tokens are read into the same sheet, up to marks. -/
theorem ofLexemes_ok_alike {a b : List Lexeme} (h : tokensOf a = tokensOf b) {s : Sheet}
    (hs : ofLexemes a = .ok s) : ∃ t, ofLexemes b = .ok t ∧ t.bare = s.bare := by
  obtain ⟨-, canonical, writes⟩ := ofLexemes_sound hs
  rw [h] at writes
  exact ofLexemes_complete canonical writes

end Sheet

end FlatSheet
