import FlatSheet.Proofs.Reading.Follows

/-!
# Errors are at the earliest token

Where a sheet is not read, the tokens in front of the error begin a sheet and with the token at the error
they do not. At the end of the input all tokens together begin a sheet. What is missing is never the name
that a declaration or an assignment begins with. Text that is no token is reported before all that.
-/

namespace FlatSheet

open Grammar (Derives)

namespace Sheet

/-- Where members are stuck, the tokens that are gone begin a sheet, no name is wanted, and reading is
stuck there in front of all lexemes that begin alike. -/
theorem readMembers_follows {lexemes : List Lexeme} {e : Stuck} (h : readMembers lexemes = .error e) :
    ∃ gone, lexemes = gone ++ e.rest ∧ Begins (Derives .sheet) (tokensOf gone) ∧
      e.wanted.isName = false ∧
      ∀ other, other.head? = e.rest.head? → readMembers (gone ++ other) = .error ⟨e.wanted, other⟩ := by
  fun_induction readMembers lexemes with
  | case1 => cases h
  | case2 l rest e' hm =>
    cases h
    obtain follows | early := Member.read_follows l rest
    · obtain ⟨gone, split, ⟨_, following, sentence⟩, found, alike⟩ := follows.of_error hm
      have whole := sentence [] .noMembers
      rw [List.append_nil] at whole
      refine ⟨l :: gone, by rw [split, List.cons_append], ⟨following, whole⟩, found, ?_⟩
      intro other hother
      rw [List.cons_append, readMembers, alike other hother]
    · rw [early] at hm
      cases hm
      refine ⟨[], rfl, ⟨[], .noMembers⟩, rfl, forall_head?_cons fun others ↦ ?_⟩
      rw [List.nil_append, readMembers, early]
  | case3 l rest m hm e' hrest ih =>
    cases h
    obtain follows | early := Member.read_follows l rest
    · obtain ⟨gone, split, written, alike⟩ := follows.of_ok hm
      obtain ⟨gone', split', ⟨following, sentence⟩, found, alike'⟩ := ih hrest
      refine ⟨l :: (gone ++ gone'), ?_, ⟨following, ?_⟩, found, ?_⟩
      · rw [split, split', List.cons_append, List.append_assoc]
      · have whole := written _ sentence
        rwa [← List.append_assoc, List.cons_append, ← tokensOf_append] at whole
      · intro other hother
        obtain ⟨_, first⟩ := alike (gone' ++ other) (head?_eq_of_split split' hother)
        rw [List.cons_append, List.append_assoc, readMembers]
        simp only [first, alike' other hother]
    · rw [early] at hm
      cases hm
  | case4 l rest m hm members hrest ih => cases h

/-- If reading is stuck at a lexeme whatever comes behind it, the tokens in front of it do not begin a sheet
together with its own. -/
theorem not_begins_of_stuck {gone : List Lexeme} {l : Lexeme} {wanted : Wanted}
    (stuck : ∀ rest, readMembers (gone ++ l :: rest) = .error ⟨wanted, l :: rest⟩) :
    ¬Begins (Derives .sheet) (tokensOf gone ++ [l.token]) := by
  rintro ⟨following, sentence⟩
  obtain ⟨s, canonical, writes⟩ := derives_sheet_iff.mp sentence
  have tokens : tokensOf (gone ++ l :: following.map (⟨·, .unknown⟩)) =
      tokensOf gone ++ [l.token] ++ following := by
    simp [tokensOf, Function.comp_def]
  rw [← tokens] at writes
  obtain ⟨s', read, -⟩ := ofLexemes_complete canonical writes
  rw [ofLexemes, stuck] at read
  cases read

/-- The token at `n` is the first that does not begin a sheet together with those in front of it. -/
structure FirstUnfit (tokens : List Token) (n : Nat) : Prop where
  fits : ∀ m ≤ n, Begins (Derives .sheet) (tokens.take m)
  unfit : ¬Begins (Derives .sheet) (tokens.take (n + 1))

/-- The first token that does not fit is the one behind some that fit. -/
theorem firstUnfit_of_append {gone : List Token} (rest : List Token) {t : Token}
    (fits : Begins (Derives .sheet) gone) (unfit : ¬Begins (Derives .sheet) (gone ++ [t])) :
    FirstUnfit (gone ++ t :: rest) gone.length := by
  constructor
  · intro m hm
    rw [List.take_append_of_le_length hm]
    rw [← List.take_append_drop m gone] at fits
    exact fits.of_append
  · rw [List.take_length_add_append]
    exact unfit

/-- Where lexemes are not read, either the error names the first token that does not fit, at its position,
or all of them begin a sheet and the error is at the last one and names the end of the input. -/
theorem ofLexemes_error_earliest {lexemes : List Lexeme} {e : ParseError}
    (h : ofLexemes lexemes = .error e) :
    ∃ wanted, wanted.isName = false ∧
      ((∃ n l, lexemes[n]? = some l ∧ FirstUnfit (tokensOf lexemes) n ∧
          e = ⟨.unexpectedToken wanted (some l.token), l.position⟩) ∨
        (Begins (Derives .sheet) (tokensOf lexemes) ∧ ¬Derives .sheet (tokensOf lexemes) ∧
          ∃ l, lexemes.getLast? = some l ∧ e = ⟨.unexpectedToken wanted none, l.position⟩)) := by
  have unread : ¬Derives .sheet (tokensOf lexemes) := by
    intro sentence
    obtain ⟨s, canonical, writes⟩ := derives_sheet_iff.mp sentence
    obtain ⟨s', read, -⟩ := ofLexemes_complete canonical writes
    rw [h] at read
    cases read
  rw [ofLexemes] at h
  cases hmembers : readMembers lexemes with
  | ok members =>
    rw [hmembers] at h
    cases h
  | error stuck =>
    rw [hmembers] at h
    obtain rfl := (Except.error.inj h).symm
    obtain ⟨gone, split, begins, found, alike⟩ := readMembers_follows hmembers
    obtain ⟨wanted, rest⟩ := stuck
    refine ⟨wanted, found, ?_⟩
    cases rest with
    | cons l rest =>
      have unfit := not_begins_of_stuck fun others ↦ alike (l :: others) rfl
      refine .inl ⟨gone.length, l, by rw [split]; simp, ?_, rfl⟩
      have first := firstUnfit_of_append (tokensOf rest) begins unfit
      have length : (tokensOf gone).length = gone.length := List.length_map _
      rwa [← tokensOf_cons, ← tokensOf_append, ← split, length] at first
    | nil =>
      obtain rfl : lexemes = gone := by rw [split, List.append_nil]
      refine .inr ⟨begins, unread, ?_⟩
      cases hlast : lexemes.getLast? with
      | none =>
        obtain rfl := List.getLast?_eq_none_iff.mp hlast
        exact absurd .noMembers unread
      | some l =>
        refine ⟨l, rfl, ?_⟩
        simp only [Stuck.error, hlast]

end Sheet

/-! ### Messages -/

/-- The message for a missing name says nothing of what was found, so it has no comma and no quotation
mark. -/
private theorem ne_missing {text : String} {c : Char} (h : c ∈ text.toList) (mark : c = ',' ∨ c = '\'')
    {wanted : Wanted} (name : wanted.isName = true) : text ≠ "Expected " ++ wanted.text := by
  rintro rfl
  obtain rfl | rfl := mark <;>
    cases wanted <;> simp [Wanted.isName] at name <;> simp [Wanted.text] at h

/-- Lexemes are missing only because of text that is no token. -/
theorem unexpectedInput_of_lexemesOf {lines : Lines} {rest : List Char} {offset : Nat}
    {pieces : List Piece} {e : ParseError} (h : lexemesOf lines rest offset pieces = .error e) :
    ∃ text, e.fault = .unexpectedInput text := by
  induction pieces generalizing offset with
  | nil =>
    rw [lexemesOf] at h
    split at h
    · cases h
    · cases h
      exact ⟨_, rfl⟩
  | cons p pieces ih =>
    rw [lexemesOf] at h
    split at h
    · exact ih h
    · split at h
      · cases h
      · next found =>
        cases h
        exact ih found
    · cases h
      exact ⟨_, rfl⟩

namespace Sheet

/-- A source with text that is no token has the error for that text. -/
theorem ofSource_of_untokenized {source : String} {e : ParseError} (h : tokenize source = .error e) :
    ofSource source = .error e ∧ ∃ text, e.fault = .unexpectedInput text :=
  ⟨by rw [ofSource, h], unexpectedInput_of_lexemesOf h⟩

/-- The message of the error of any other source that is not read says what was found at the earliest
token. -/
theorem ofSource_of_tokenized {source : String} {lexemes : List Lexeme} {e : ParseError}
    (h : tokenize source = .ok lexemes) (he : ofSource source = .error e) :
    ∃ wanted : Wanted,
      (∃ n l, lexemes[n]? = some l ∧ FirstUnfit (tokensOf lexemes) n ∧ e.position = l.position ∧
        e.text = "Expected " ++ wanted.text ++ ", found " ++ l.token.text) ∨
      (Begins (Derives .sheet) (tokensOf lexemes) ∧ ¬Derives .sheet (tokensOf lexemes) ∧
        ∃ l, lexemes.getLast? = some l ∧ e.position = l.position ∧
          e.text = "Expected " ++ wanted.text ++ ", found end of input") := by
  rw [ofSource, h] at he
  obtain ⟨wanted, found, ⟨n, l, hl, first, rfl⟩ | ⟨begins, proper, l, hl, rfl⟩⟩ :=
    ofLexemes_error_earliest he
  · exact ⟨wanted, .inl ⟨n, l, hl, first, rfl, Wanted.message_some found _⟩⟩
  · exact ⟨wanted, .inr ⟨begins, proper, l, hl, rfl, Wanted.message_none found⟩⟩

/-- No error of a source has the message for a missing name. -/
theorem text_ne_of_isName {source : String} {e : ParseError} (he : ofSource source = .error e)
    (wanted : Wanted) (name : wanted.isName = true) : e.text ≠ "Expected " ++ wanted.text := by
  cases h : tokenize source with
  | error e' =>
    obtain ⟨same, text, fault⟩ := ofSource_of_untokenized h
    obtain rfl := Except.error.inj (same.symm.trans he)
    have message : e'.text = "Unexpected input '" ++ text ++ "'" := congrArg ParseFault.text fault
    exact ne_missing (c := '\'') (by simp [message]) (.inr rfl) name
  | ok lexemes =>
    obtain ⟨_, ⟨_, l, _, _, _, text⟩ | ⟨_, _, _, _, _, text⟩⟩ := ofSource_of_tokenized h he
    · exact ne_missing (c := ',') (by simp [text]) (.inl rfl) name
    · exact ne_missing (c := ',') (by simp [text]) (.inl rfl) name

/-- A source with text that is no token has the error for that text, whatever comes before it. The error of
any other source that is not read is at the first token that does not begin a sheet with those before it,
and names it; if all tokens begin a sheet it is at the last one and names the end of the input. No
message asks for the name of a property or of a variable. -/
theorem ofSource_error_earliest (source : String) :
    (∀ e, tokenize source = .error e →
      ofSource source = .error e ∧ ∃ text, e.fault = .unexpectedInput text) ∧
    (∀ lexemes e, tokenize source = .ok lexemes → ofSource source = .error e →
      ∃ wanted : Wanted,
        (∃ n l, lexemes[n]? = some l ∧ FirstUnfit (tokensOf lexemes) n ∧ e.position = l.position ∧
          e.text = "Expected " ++ wanted.text ++ ", found " ++ l.token.text) ∨
        (Begins (Derives .sheet) (tokensOf lexemes) ∧ ¬Derives .sheet (tokensOf lexemes) ∧
          ∃ l, lexemes.getLast? = some l ∧ e.position = l.position ∧
            e.text = "Expected " ++ wanted.text ++ ", found end of input")) ∧
    ∀ e, ofSource source = .error e →
      e.text ≠ "Expected property name" ∧ e.text ≠ "Expected variable name" := by
  refine ⟨fun e h ↦ ofSource_of_untokenized h, fun lexemes e h he ↦ ofSource_of_tokenized h he, ?_⟩
  intro e he
  have property := text_ne_of_isName he .propertyName rfl
  have variableName := text_ne_of_isName he .variableName rfl
  exact ⟨by simpa [Wanted.text] using property, by simpa [Wanted.text] using variableName⟩

/-- The operand behind a `+` is missing in the first source. In the second one the text at the end is
reported, though a colon cannot follow the brace. -/
theorem ofSource_error_earliest_at_operand :
    (∃ lexemes e, tokenize "a\x7bwidth:1px+;\x7d" = .ok lexemes ∧
      ofSource "a\x7bwidth:1px+;\x7d" = .error e ∧ e.text = "Expected expression, found ';'" ∧
      e.position = ⟨1, 13⟩ ∧ FirstUnfit (tokensOf lexemes) 6) ∧
    ∃ e, tokenize "a\x7b:$" = .error e ∧ e.position = ⟨1, 4⟩ ∧ ofSource "a\x7b:$" = .error e := by
  constructor
  · have tokens : tokenize "a\x7bwidth:1px+;\x7d" = .ok [⟨.identifier "a", ⟨1, 1⟩⟩,
        ⟨.symbol .openBrace, ⟨1, 2⟩⟩, ⟨.identifier "width", ⟨1, 3⟩⟩, ⟨.symbol .colon, ⟨1, 8⟩⟩,
        ⟨.pixels ⟨1, by decide, by decide⟩, ⟨1, 9⟩⟩, ⟨.symbol .plus, ⟨1, 12⟩⟩,
        ⟨.symbol .semicolon, ⟨1, 13⟩⟩, ⟨.symbol .closeBrace, ⟨1, 14⟩⟩] := by with_unfolding_all rfl
    have error : ofSource "a\x7bwidth:1px+;\x7d" =
        .error ⟨.unexpectedToken .expression (some (.symbol .semicolon)), ⟨1, 13⟩⟩ := by
      with_unfolding_all rfl
    refine ⟨_, _, tokens, error, by decide, rfl, ?_⟩
    obtain ⟨_, ⟨n, l, hl, first, position, -⟩ | ⟨-, -, l, hl, position, -⟩⟩ :=
      (ofSource_error_earliest _).2.1 _ _ tokens error
    · have index : n = 6 := by
        rcases n with _ | _ | _ | _ | _ | _ | _ | _ | n <;> simp at hl <;> subst hl <;>
          simp at position
        rfl
      rwa [index] at first
    · simp at hl
      subst hl
      simp at position
  · have error : tokenize "a\x7b:$" = .error ⟨.unexpectedInput "$", ⟨1, 4⟩⟩ := by
      with_unfolding_all rfl
    exact ⟨_, error, rfl, ((ofSource_error_earliest _).1 _ error).1⟩

end Sheet

end FlatSheet
