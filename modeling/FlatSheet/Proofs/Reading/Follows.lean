import FlatSheet.Proofs.Grammar.Trees
import FlatSheet.Proofs.Reading.Sheets

/-!
# Readers follow the grammar

A reader goes on as long as the tokens that are gone begin something that it reads, and what it does is
decided by these and by the next lexeme. `Reads.Follows` says so of one reader and its language, which
has the tokens that write each value. It goes the way readers are put together: what is read after a part
follows the language that this part leaves.
-/

namespace FlatSheet

open Grammar (Category Derives)

/-- Some tokens begin a sentence of a language. -/
def Begins (L : List Token → Prop) (ts : List Token) : Prop := ∃ following, L (ts ++ following)

/-- What begins the beginning of a sentence begins it too. -/
theorem Begins.of_append {L : List Token → Prop} {a b : List Token} (h : Begins L (a ++ b)) :
    Begins L a := by
  obtain ⟨following, sentence⟩ := h
  exact ⟨b ++ following, by rwa [← List.append_assoc]⟩

/-! ### Readers in general -/

/-- What a reader does with some lexemes. Either it reads a value that is written by the tokens that are
gone, or it is stuck, and these tokens begin something that it reads. It would do the same in front of
any other lexemes that begin alike. -/
inductive Reads.Follows {α : Type} (reads : (lexemes : List Lexeme) → LexemeReads α lexemes)
    (lexemes : List Lexeme) (L : α → List Token → Prop) : Prop
  | read (gone rest : List Lexeme) {value : α} (split : lexemes = gone ++ rest)
    (written : L value (tokensOf gone))
    (alike : ∀ other, other.head? = rest.head? →
      ∃ h, reads (gone ++ other) = .ok ⟨value, other, h⟩)
  | stuck (gone rest : List Lexeme) {wanted : Wanted} (split : lexemes = gone ++ rest)
    (begins : ∃ value, Begins (L value) (tokensOf gone)) (found : wanted.isName = false)
    (alike : ∀ other, other.head? = rest.head? → reads (gone ++ other) = .error ⟨wanted, other⟩)

/-- What holds of the empty list holds of all lists that begin like it. -/
theorem forall_head?_nil {P : List Lexeme → Prop} (h : P []) :
    ∀ other : List Lexeme, other.head? = ([] : List Lexeme).head? → P other := by
  intro other same
  obtain rfl := List.head?_eq_none_iff.mp same
  exact h

/-- What holds of all lists with a lexeme in front holds of all that begin like one of them. -/
theorem forall_head?_cons {P : List Lexeme → Prop} {l : Lexeme} {rest : List Lexeme}
    (h : ∀ others, P (l :: others)) :
    ∀ other : List Lexeme, other.head? = (l :: rest).head? → P other := by
  intro other same
  obtain ⟨others, rfl⟩ := List.head?_eq_some_iff.mp same
  exact h others

/-- What begins alike does so with the same lexemes in front: the next reader has its lexeme of lookahead
where the one before it ended, or further on. -/
theorem head?_eq_of_split {lexemes gone rest other : List Lexeme} (split : lexemes = gone ++ rest)
    (same : other.head? = rest.head?) : (gone ++ other).head? = lexemes.head? := by
  rw [split, List.head?_append, List.head?_append, same]

namespace Reads.Follows

variable {α β : Type} {L : α → List Token → Prop} {M : β → List Token → Prop}
  {reads : (lexemes : List Lexeme) → LexemeReads α lexemes} {lexemes : List Lexeme}

/-- Nothing more is read. -/
theorem done (value : α) (written : L value [])
    (alike : ∀ other, other.head? = lexemes.head? → reads other = .done value) :
    Follows reads lexemes L :=
  .read [] _ rfl written fun other same ↦ ⟨Nat.le_refl _, alike other same⟩

/-- The reader is stuck at once, where it could read something else. -/
theorem here (wanted : Wanted) (some : ∃ value ts, L value ts) (found : wanted.isName = false)
    (alike : ∀ other, other.head? = lexemes.head? → reads other = FlatSheet.stuck wanted) :
    Follows reads lexemes L :=
  .stuck [] _ rfl some found alike

/-- After one lexeme the language is what that lexeme leaves. -/
theorem past {l : Lexeme} {after : (lexemes : List Lexeme) → LexemeReads α lexemes}
    (unfolds : ∀ others, reads (l :: others) = Reads.past l (after others))
    (h : Follows after lexemes fun value ts ↦ L value (l.token :: ts)) :
    Follows reads (l :: lexemes) L := by
  cases h with
  | read gone rest split written alike =>
    refine .read (l :: gone) rest (by rw [split, List.cons_append]) written ?_
    intro other same
    obtain ⟨h, hread⟩ := alike other same
    refine ⟨Nat.le_succ_of_le h, (unfolds (gone ++ other)).trans ?_⟩
    rw [hread]
    rfl
  | stuck gone rest split begins found alike =>
    refine .stuck (l :: gone) rest (by rw [split, List.cons_append]) begins found ?_
    intro other same
    rw [List.cons_append, unfolds, alike other same]
    rfl

/-- A reader follows any larger language. -/
theorem mono {L' : α → List Token → Prop} (h : Follows reads lexemes L)
    (larger : ∀ value ts, L value ts → L' value ts) : Follows reads lexemes L' := by
  cases h with
  | read gone rest split written alike => exact .read gone rest split (larger _ _ written) alike
  | stuck gone rest split begins found alike =>
    obtain ⟨value, following, h⟩ := begins
    exact .stuck gone rest split ⟨value, following, larger _ _ h⟩ found alike

/-- What a reader follows has a sentence. -/
theorem inhabited (h : Follows reads lexemes L) : ∃ value ts, L value ts := by
  cases h with
  | read _ _ _ written _ => exact ⟨_, _, written⟩
  | stuck _ _ _ begins _ _ =>
    obtain ⟨value, following, sentence⟩ := begins
    exact ⟨value, _, sentence⟩

/-- A reader of two parts follows a language if the second reader follows what each first part leaves of
it. -/
theorem andThen {first : (lexemes : List Lexeme) → LexemeReads α lexemes}
    {next : (lexemes : List Lexeme) → (r : Reading α lexemes) → LexemeReads β r.rest}
    (hfirst : Follows first lexemes L)
    (same : ∀ lexemes (r : Reading α lexemes),
      next lexemes r = next r.rest ⟨r.value, r.rest, Nat.le_refl _⟩)
    (hnext : ∀ value ts rest, rest.length ≤ lexemes.length → L value ts →
      Follows (fun rest ↦ next rest ⟨value, rest, Nat.le_refl _⟩) rest
        fun value' ts' ↦ M value' (ts ++ ts')) :
    Follows (fun lexemes ↦ (first lexemes).andThen (next lexemes)) lexemes M := by
  cases hfirst with
  | stuck gone rest split begins found alike =>
    obtain ⟨value, following, h⟩ := begins
    -- The first part can be finished, and what it leaves has a sentence.
    obtain ⟨value', ts', sentence⟩ := (hnext _ _ [] (Nat.zero_le _) h).inhabited
    refine .stuck gone rest split ⟨value', Begins.of_append ⟨ts', sentence⟩⟩ found ?_
    intro other hother
    rw [alike other hother]
    rfl
  | @read gone rest value split written alike =>
    have shorter : rest.length ≤ lexemes.length := by
      rw [split, List.length_append]
      omega
    cases hnext _ _ _ shorter written with
    | read gone' rest' split' written' alike' =>
      refine .read (gone ++ gone') rest' (by rw [split, split', List.append_assoc])
        (by rwa [tokensOf_append]) ?_
      intro other hother
      obtain ⟨h, hread⟩ := alike (gone' ++ other) (head?_eq_of_split split' hother)
      obtain ⟨h', hread'⟩ := alike' other hother
      rw [List.append_assoc]
      refine ⟨Nat.le_trans h' h, ?_⟩
      simp only [hread, Reads.andThen, same _ ⟨value, gone' ++ other, h⟩, hread']
    | stuck gone' rest' split' begins' found' alike' =>
      obtain ⟨value', following, sentence⟩ := begins'
      refine .stuck (gone ++ gone') rest' (by rw [split, split', List.append_assoc])
        ⟨value', following, by rwa [tokensOf_append, List.append_assoc]⟩ found' ?_
      intro other hother
      obtain ⟨h, hread⟩ := alike (gone' ++ other) (head?_eq_of_split split' hother)
      rw [List.append_assoc]
      simp only [hread, Reads.andThen, same _ ⟨value, gone' ++ other, h⟩, alike' other hother]

/-- A reader whose value is made into another one follows the same language. -/
theorem map {first : (lexemes : List Lexeme) → LexemeReads α lexemes} (f : α → β)
    (hfirst : Follows first lexemes L) (larger : ∀ value ts, L value ts → M (f value) ts) :
    Follows (fun lexemes ↦ (first lexemes).andThen fun r ↦ .done (f r.value)) lexemes M := by
  refine hfirst.andThen (fun _ _ ↦ rfl) ?_
  intro value ts rest _ hts
  exact .done _ (by rw [List.append_nil]; exact larger _ _ hts) fun _ _ ↦ rfl

/-- Readers that are equal follow the same language. -/
theorem of_eq {other : (lexemes : List Lexeme) → LexemeReads α lexemes}
    (h : ∀ lexemes, reads lexemes = other lexemes) (hother : Follows other lexemes L) :
    Follows reads lexemes L := by
  obtain rfl : reads = other := funext h
  exact hother

/-- A value that is read is written by the tokens that are gone, and is read in front of all lexemes that
begin alike. -/
theorem of_ok (h : Follows reads lexemes L) {r : Reading α lexemes} (hr : reads lexemes = .ok r) :
    ∃ gone, lexemes = gone ++ r.rest ∧ L r.value (tokensOf gone) ∧
      ∀ other, other.head? = r.rest.head? →
        ∃ h, reads (gone ++ other) = .ok ⟨r.value, other, h⟩ := by
  cases h with
  | read gone rest split written alike =>
    have same := alike _ rfl
    rw [← split, hr] at same
    obtain ⟨_, ⟨⟩⟩ := same
    exact ⟨gone, split, written, alike⟩
  | stuck _ _ split _ _ alike =>
    have same := alike _ rfl
    rw [← split, hr] at same
    cases same

/-- Where a reader is stuck, the tokens that are gone begin something that it reads, no name is wanted, and
the reader is stuck there in front of all lexemes that begin alike. -/
theorem of_error (h : Follows reads lexemes L) {e : Stuck} (he : reads lexemes = .error e) :
    ∃ gone, lexemes = gone ++ e.rest ∧ (∃ value, Begins (L value) (tokensOf gone)) ∧
      e.wanted.isName = false ∧
      ∀ other, other.head? = e.rest.head? → reads (gone ++ other) = .error ⟨e.wanted, other⟩ := by
  cases h with
  | read _ _ split _ alike =>
    have same := alike _ rfl
    rw [← split, he] at same
    obtain ⟨_, ⟨⟩⟩ := same
  | stuck gone rest split begins found alike =>
    have same := alike _ rfl
    rw [← split, he] at same
    cases same
    exact ⟨gone, split, begins, found, alike⟩

end Reads.Follows

/-! ### Symbols -/

/-- A reader of a symbol follows the language of its token. -/
theorem readSymbol_follows (s : Symbol) (lexemes : List Lexeme) :
    Reads.Follows (readSymbol s) lexemes fun _ ts ↦ ts = [.symbol s] := by
  cases lexemes with
  | nil => exact .here (.symbol s) ⟨.unknown, _, rfl⟩ rfl (forall_head?_nil rfl)
  | cons l rest =>
    by_cases hl : l.token = .symbol s
    · apply Reads.Follows.past
      · intro others
        rw [readSymbol, if_pos hl]
      · exact .done _ (by rw [hl]) fun _ _ ↦ rfl
    · refine .here (.symbol s) ⟨.unknown, _, rfl⟩ rfl (forall_head?_cons fun others ↦ ?_)
      rw [readSymbol, if_neg hl]

/-- A reader that looks for a symbol follows the language of its token and of no token. -/
theorem readSymbol?_follows (s : Symbol) (lexemes : List Lexeme) :
    Reads.Follows (readSymbol? s) lexemes fun found ts ↦
      ts = if found.isSome then [.symbol s] else [] := by
  cases lexemes with
  | nil => exact .done none rfl (forall_head?_nil rfl)
  | cons l rest =>
    by_cases hl : l.token = .symbol s
    · apply Reads.Follows.past
      · intro others
        rw [readSymbol?, if_pos hl]
      · exact .done _ (by rw [hl]; rfl) fun _ _ ↦ rfl
    · refine .done none rfl (forall_head?_cons fun others ↦ ?_)
      rw [readSymbol?, if_neg hl]

/-! ### Expressions -/

namespace Expr

/-- A reader of an operand follows the grammar of expressions. -/
theorem readOperand_follows (lexemes : List Lexeme) :
    Reads.Follows readOperand lexemes fun _ ↦ Derives .expression := by
  have something : ∃ (_ : Expr) (ts : List Token), Derives .expression ts :=
    ⟨.literal (.bool true) (.clean .unknown), _, .literal .trueWord⟩
  cases lexemes with
  | nil => exact .here .expression something rfl (forall_head?_nil rfl)
  | cons l rest =>
    cases hl : ofLexeme? l with
    | none =>
      refine .here .expression something rfl (forall_head?_cons fun others ↦ ?_)
      rw [readOperand, hl]
    | some e =>
      apply Reads.Follows.past
      · intro others
        rw [readOperand, hl]
      · refine .done _ ?_ fun _ _ ↦ rfl
        rw [← (of_ofLexeme? hl).2.2]
        exact e.derives

/-- What can stand after an expression so that an expression is written again. -/
def Extends (ts : List Token) : Prop := ∀ a, Derives .expression a → Derives .expression (a ++ ts)

private theorem extends_nil : Extends [] := fun a ha ↦ by rwa [List.append_nil]

private theorem Extends.operation (op : Operator) {a ts : List Token} (ha : Derives .expression a)
    (h : Extends ts) : Extends (.symbol op.symbol :: (a ++ ts)) := by
  intro front hfront
  have both := h _ (hfront.joined op ha)
  rwa [List.append_assoc, List.cons_append] at both

/-- A reader of the operands of a product follows what extends expressions. -/
theorem readFactors_follows (lhs : Expr) (lexemes : List Lexeme) :
    Reads.Follows (readFactors lhs) lexemes fun _ ↦ Extends := by
  fun_induction readFactors lhs lexemes with
  | case1 lhs => exact .done lhs extends_nil (forall_head?_nil (by rw [readFactors]))
  | case2 lhs l rest hl ih =>
    apply Reads.Follows.past
    · intro others
      rw [readFactors, if_pos hl]
    rw [hl]
    refine (readOperand_follows rest).andThen (fun _ _ ↦ rfl) ?_
    intro value ts rest' shorter hts
    exact (ih ⟨value, rest', shorter⟩).mono fun _ _ h ↦ .operation .multiply hts h
  | case3 lhs l rest hl =>
    refine .done lhs extends_nil (forall_head?_cons fun others ↦ ?_)
    rw [readFactors, if_neg hl]

/-- A reader of a product follows the grammar of expressions. -/
theorem readProduct_follows (lexemes : List Lexeme) :
    Reads.Follows readProduct lexemes fun _ ↦ Derives .expression := by
  refine (readOperand_follows lexemes).andThen (fun _ _ ↦ rfl) ?_
  intro value ts rest _ hts
  exact (readFactors_follows value rest).mono fun _ _ h ↦ h ts hts

/-- A reader of the products of a sum follows what extends expressions. -/
theorem readTerms_follows (lhs : Expr) (lexemes : List Lexeme) :
    Reads.Follows (readTerms lhs) lexemes fun _ ↦ Extends := by
  fun_induction readTerms lhs lexemes with
  | case1 lhs => exact .done lhs extends_nil (forall_head?_nil (by rw [readTerms]))
  | case2 lhs l rest op hop ih =>
    apply Reads.Follows.past
    · intro others
      rw [readTerms, hop]
    rw [(sumOperator?_eq_some_iff.mp hop).1]
    refine (readProduct_follows rest).andThen (fun _ _ ↦ rfl) ?_
    intro value ts rest' shorter hts
    exact (ih ⟨value, rest', shorter⟩).mono fun _ _ h ↦ .operation op hts h
  | case3 lhs l rest hop =>
    refine .done lhs extends_nil (forall_head?_cons fun others ↦ ?_)
    rw [readTerms, hop]

/-- A reader of an expression follows the grammar of expressions. -/
theorem read_follows (lexemes : List Lexeme) :
    Reads.Follows Expr.read lexemes fun _ ↦ Derives .expression := by
  refine (readProduct_follows lexemes).andThen (fun _ _ ↦ rfl) ?_
  intro value ts rest _ hts
  exact (readTerms_follows value rest).mono fun _ _ h ↦ h ts hts

end Expr

/-! ### Parts of a sheet -/

/-- A reader of a value follows the grammar, between the symbol and a semicolon. -/
theorem readValue_follows (s : Symbol) (lexemes : List Lexeme) :
    Reads.Follows (readValue s) lexemes fun _ ts ↦
      ∃ e, Derives .expression e ∧ ts = .symbol s :: (e ++ [.symbol .semicolon]) := by
  refine (readSymbol_follows s lexemes).andThen (fun _ _ ↦ rfl) ?_
  rintro _ _ rest _ rfl
  refine (Expr.read_follows rest).andThen (fun _ _ ↦ rfl) ?_
  intro value e rest _ he
  refine (readSymbol_follows .semicolon rest).andThen (fun _ _ ↦ rfl) ?_
  rintro _ _ rest _ rfl
  exact .done value ⟨e, he, rfl⟩ fun _ _ ↦ rfl

/-- A reader of a declaration follows the grammar from after the property. -/
theorem Declaration.read_follows {l : Lexeme} {property : String}
    (hl : l.token = .identifier property) (lexemes : List Lexeme) :
    Reads.Follows (Declaration.read l) lexemes fun _ ts ↦ Derives .declaration (l.token :: ts) := by
  refine .of_eq (fun rest ↦ by rw [Declaration.read, hl]) ?_
  refine (readValue_follows .colon lexemes).map (Declaration.mk property · (.clean l.position)) ?_
  rintro _ _ ⟨e, he, rfl⟩
  rw [hl]
  exact .declaration property he

/-- A reader of an assignment follows the grammar from after the variable's name. -/
theorem Assignment.read_follows {l : Lexeme} {name : String}
    (hl : l.token = .variableName name) (lexemes : List Lexeme) :
    Reads.Follows (Assignment.read l) lexemes fun _ ts ↦ Derives .assignment (l.token :: ts) := by
  refine .of_eq (fun rest ↦ by rw [Assignment.read, hl]) ?_
  refine (readValue_follows .assign lexemes).map (Assignment.mk name · (.clean l.position)) ?_
  rintro _ _ ⟨e, he, rfl⟩
  rw [hl]
  exact .assignment name he

/-- A reader of a condition follows the grammar. -/
theorem readCondition_follows (lexemes : List Lexeme) :
    Reads.Follows readCondition lexemes fun _ ts ↦ ∃ e, Derives .expression e ∧
      ts = .symbol .openBracket :: (e ++ [.symbol .closeBracket, .symbol .openBrace]) := by
  refine (readSymbol_follows .openBracket lexemes).andThen (fun _ _ ↦ rfl) ?_
  rintro _ _ rest _ rfl
  refine (Expr.read_follows rest).andThen (fun _ _ ↦ rfl) ?_
  intro value e rest _ he
  refine (readSymbol_follows .closeBracket rest).andThen (fun _ _ ↦ rfl) ?_
  rintro _ _ rest _ rfl
  refine (readSymbol_follows .openBrace rest).andThen (fun _ _ ↦ rfl) ?_
  rintro _ _ rest _ rfl
  exact .done value ⟨e, he, rfl⟩ fun _ _ ↦ rfl

/-- A reader of the items of a block follows the grammar. -/
theorem Block.read_follows (lexemes : List Lexeme) :
    Reads.Follows Block.read lexemes fun _ ↦ Derives .items := by
  fun_induction Block.read lexemes with
  | case1 => exact .done empty .noItems (forall_head?_nil (by rw [Block.read]))
  | case2 l rest hl =>
    refine .done empty .noItems (forall_head?_cons fun others ↦ ?_)
    rw [Block.read, hl]
  | case3 l rest property hl ih =>
    apply Reads.Follows.past
    · intro others
      rw [Block.read, hl]
    refine (Declaration.read_follows hl rest).andThen (fun _ _ ↦ rfl) ?_
    intro d ts rest' shorter hts
    refine (ih ⟨d, rest', shorter⟩).map (declaration d) ?_
    intro _ items hitems
    exact .declarationItem hts hitems
  | case4 l rest name hl ih =>
    apply Reads.Follows.past
    · intro others
      rw [Block.read, hl]
    refine (Assignment.read_follows hl rest).andThen (fun _ _ ↦ rfl) ?_
    intro a ts rest' shorter hts
    refine (ih ⟨a, rest', shorter⟩).map (assignment a) ?_
    intro _ items hitems
    exact .assignmentItem hts hitems
  | case5 l rest hl ihBody ihItems ihOther ihLast =>
    apply Reads.Follows.past
    · intro others
      rw [Block.read, hl]
    refine (readCondition_follows rest).andThen (fun _ _ ↦ rfl) ?_
    rintro c _ atBody shorterBody ⟨e, he, rfl⟩
    have hbody := ihBody ⟨c, atBody, shorterBody⟩
    refine hbody.andThen (fun _ _ ↦ rfl) ?_
    intro body b atClose shorterClose hb
    refine (readSymbol_follows .closeBrace atClose).andThen (fun _ _ ↦ rfl) ?_
    rintro close _ atWord shorterWord rfl
    refine (readSymbol?_follows .elseWord atWord).andThen (fun _ _ ↦ rfl) ?_
    rintro (_ | position) _ atNext shorterNext rfl
    · have hitems := ihItems ⟨c, atBody, shorterBody⟩ ⟨body, atClose, shorterClose⟩
        ⟨close, atWord, shorterWord⟩ ⟨none, atNext, shorterNext⟩
      refine hitems.map (ifThen c body (.clean l.position)) ?_
      intro _ i hi
      have sentence := Derives.conditionalItem (.ifThen he hb) hi
      simpa [hl] using sentence
    · refine (readSymbol_follows .openBrace atNext).andThen (fun _ _ ↦ rfl) ?_
      rintro brace _ atOther shorterOther rfl
      have hother := ihOther ⟨c, atBody, shorterBody⟩ ⟨body, atClose, shorterClose⟩
        ⟨close, atWord, shorterWord⟩ ⟨some position, atNext, shorterNext⟩
        ⟨brace, atOther, shorterOther⟩
      refine hother.andThen (fun _ _ ↦ rfl) ?_
      intro other o atLast shorterLast ho
      refine (readSymbol_follows .closeBrace atLast).andThen (fun _ _ ↦ rfl) ?_
      rintro last _ atItems shorterItems rfl
      have hitems := ihLast ⟨c, atBody, shorterBody⟩ ⟨body, atClose, shorterClose⟩
        ⟨close, atWord, shorterWord⟩ ⟨some position, atNext, shorterNext⟩
        ⟨brace, atOther, shorterOther⟩ ⟨other, atLast, shorterLast⟩ ⟨last, atItems, shorterItems⟩
      refine hitems.map (ifElse c body (.clean l.position) other (.clean position)) ?_
      intro _ i hi
      have sentence := Derives.conditionalItem (.ifElse he hb (.otherwise ho)) hi
      simpa [hl] using sentence
  | case6 l rest notClose notProperty notName notIf =>
    refine .here .blockItem ⟨.empty, _, .noItems⟩ rfl (forall_head?_cons fun others ↦ ?_)
    rw [Block.read]
    split <;> simp_all

/-- A reader of selectors follows what extends one selector. -/
theorem Selector.readAll_follows (lexemes : List Lexeme) :
    Reads.Follows Selector.readAll lexemes fun _ ts ↦
      ∀ a, Derives .selector a → Derives .selectors (a ++ ts) := by
  have alone : ∀ a, Derives .selector a → Derives .selectors (a ++ []) := by
    intro a ha
    rw [List.append_nil]
    exact .lastSelector ha
  fun_induction Selector.readAll lexemes with
  | case1 => exact .done [] alone (forall_head?_nil (by rw [Selector.readAll]))
  | case2 l rest s hs ih =>
    apply Reads.Follows.past
    · intro others
      rw [Selector.readAll, hs]
    refine ih.map (List.cons s) ?_
    intro _ ts hts a ha
    exact .moreSelectors ha (hts [l.token] (Selector.derives (ofToken?_eq_some_iff.mp hs)))
  | case3 l rest hs =>
    refine .done [] alone (forall_head?_cons fun others ↦ ?_)
    rw [Selector.readAll, hs]

/-- A reader of a rule follows the grammar from after the first selector. -/
theorem Rule.read_follows {l : Lexeme} {s : Selector} (hl : Selector.ofToken? l.token = some s)
    (lexemes : List Lexeme) :
    Reads.Follows (Rule.read l) lexemes fun _ ts ↦ Derives .rule (l.token :: ts) := by
  have first := Selector.derives (Selector.ofToken?_eq_some_iff.mp hl)
  apply Reads.Follows.of_eq
  · intro rest
    rw [Rule.read, hl]
  refine (Selector.readAll_follows lexemes).andThen (fun _ _ ↦ rfl) ?_
  intro others head rest _ hhead
  refine (readSymbol_follows .openBrace rest).andThen (fun _ _ ↦ rfl) ?_
  rintro _ _ rest _ rfl
  refine (Block.read_follows rest).andThen (fun _ _ ↦ rfl) ?_
  intro body b rest _ hb
  refine (readSymbol_follows .closeBrace rest).andThen (fun _ _ ↦ rfl) ?_
  rintro _ _ rest _ rfl
  refine .done ⟨s :: others, body, .clean l.position⟩ ?_ fun _ _ ↦ rfl
  have sentence := Derives.rule (hhead _ first) hb
  simpa using sentence

/-- A reader of a member follows the grammar from after the lexeme that it begins with, or it is stuck at
that lexeme, which no member begins with. -/
theorem Member.read_follows (l : Lexeme) (lexemes : List Lexeme) :
    (Reads.Follows (Member.read l) lexemes fun _ ts ↦
      ∀ b, Derives .sheet b → Derives .sheet (l.token :: ts ++ b)) ∨
    ∀ rest, Member.read l rest = .error ⟨.selector, l :: rest⟩ := by
  by_cases name : ∃ name, l.token = .variableName name
  · obtain ⟨name, hl⟩ := name
    refine .inl (.of_eq (fun rest ↦ by rw [Member.read, hl]) ?_)
    refine (Assignment.read_follows hl lexemes).map Member.assignment ?_
    intro _ ts hts b hb
    exact .assignmentMember hts hb
  · have rule (rest : List Lexeme) :
        Member.read l rest = (Rule.read l rest).andThen fun r ↦ .done (.rule r.value) := by
      rw [Member.read]
      split
      · next found hl => exact absurd ⟨found, hl⟩ name
      · rfl
    cases hl : Selector.ofToken? l.token with
    | some s =>
      refine .inl (.of_eq rule ?_)
      refine (Rule.read_follows hl lexemes).map Member.rule ?_
      intro _ ts hts b hb
      exact .ruleMember hts hb
    | none =>
      refine .inr fun rest ↦ ?_
      rw [rule, Rule.read, hl]
      rfl

end FlatSheet
