import FlatSheet.Proofs.Reading.Expressions
import FlatSheet.Sheet.Reading

/-!
# Sheets are read exactly

As for expressions, what is read is canonical and was written by the tokens that are gone, and a
canonical tree that is written is read. A block is followed by its closing brace, at which its
reader stops.
-/

namespace FlatSheet

/-! ### What is read was written -/

/-- A canonical block without problems, as a reader makes it. -/
structure Block.WellRead (b : Block) : Prop where
  canonical : b.Canonical
  unreported : Unreported b.preorder

/-- A value that is read was written by the tokens that are gone, between the symbol and a semicolon. -/
theorem readValue_ensures (s : Symbol) (lexemes : List Lexeme) :
    (readValue s lexemes).Ensures fun e rest ↦ e.WellRead ∧
      tokensOf lexemes = .symbol s :: (e.tokens ++ .symbol .semicolon :: tokensOf rest) := by
  refine (readSymbol_ensures s lexemes).andThen ?_
  intro front hfront
  refine (Expr.read_ensures front.rest).andThen ?_
  rintro value ⟨hvalue, htokens⟩
  refine (readSymbol_ensures .semicolon value.rest).andThen ?_
  intro semicolon hsemicolon
  rw [Reads.ensures_done]
  exact ⟨hvalue, by rw [hfront, htokens, hsemicolon]⟩

/-- A declaration that is read was written by its first token and those that are gone. -/
theorem Declaration.read_ensures (l : Lexeme) (lexemes : List Lexeme) :
    (Declaration.read l lexemes).Ensures fun d rest ↦
      d.value.WellRead ∧ d.mark.problem = none ∧
        l.token :: tokensOf lexemes = d.tokens ++ tokensOf rest := by
  unfold Declaration.read
  split
  · next property hl =>
    refine (readValue_ensures .colon lexemes).andThen ?_
    rintro value ⟨hvalue, htokens⟩
    rw [Reads.ensures_done]
    refine ⟨hvalue, rfl, ?_⟩
    simp [Declaration.tokens, hl, htokens]
  · exact Reads.ensures_error

/-- An assignment that is read was written by its first token and those that are gone. -/
theorem Assignment.read_ensures (l : Lexeme) (lexemes : List Lexeme) :
    (Assignment.read l lexemes).Ensures fun a rest ↦
      a.value.WellRead ∧ a.mark.problem = none ∧
        l.token :: tokensOf lexemes = a.tokens ++ tokensOf rest := by
  unfold Assignment.read
  split
  · next name hl =>
    refine (readValue_ensures .assign lexemes).andThen ?_
    rintro value ⟨hvalue, htokens⟩
    rw [Reads.ensures_done]
    refine ⟨hvalue, rfl, ?_⟩
    simp [Assignment.tokens, hl, htokens]
  · exact Reads.ensures_error

/-- A condition that is read was written by the tokens that are gone. -/
theorem readCondition_ensures (lexemes : List Lexeme) :
    (readCondition lexemes).Ensures fun c rest ↦
      c.WellRead ∧ tokensOf lexemes = c.conditionTokens ++ tokensOf rest := by
  refine (readSymbol_ensures .openBracket lexemes).andThen ?_
  intro bracket hbracket
  refine (Expr.read_ensures bracket.rest).andThen ?_
  rintro condition ⟨hcondition, htokens⟩
  refine (readSymbol_ensures .closeBracket condition.rest).andThen ?_
  intro close hclose
  refine (readSymbol_ensures .openBrace close.rest).andThen ?_
  intro brace hbrace
  rw [Reads.ensures_done]
  refine ⟨hcondition, ?_⟩
  simp [Expr.conditionTokens, hbracket, htokens, hclose, hbrace]

namespace Block

private theorem wellRead_empty : empty.WellRead := ⟨trivial, unreported_nil⟩

private theorem WellRead.declaration {d : Declaration} {items : Block} (hd : d.value.WellRead)
    (hmark : d.mark.problem = none) (hitems : items.WellRead) :
    (declaration d items).WellRead :=
  ⟨⟨hd.canonical, hitems.canonical⟩,
    by simp [preorder, Node.problem?, hmark, hd.unreported, hitems.unreported]⟩

private theorem WellRead.assignment {a : Assignment} {items : Block} (ha : a.value.WellRead)
    (hmark : a.mark.problem = none) (hitems : items.WellRead) : (assignment a items).WellRead :=
  ⟨⟨ha.canonical, hitems.canonical⟩,
    by simp [preorder, Node.problem?, hmark, ha.unreported, hitems.unreported]⟩

private theorem WellRead.ifThen {c : Expr} {body items : Block} (hc : c.WellRead)
    (hbody : body.WellRead) (hitems : items.WellRead) (position : Position) :
    (ifThen c body (.clean position) items).WellRead :=
  ⟨⟨hc.canonical, hbody.canonical, hitems.canonical⟩,
    by simp [preorder, Node.problem?, hc.unreported, hbody.unreported, hitems.unreported]⟩

private theorem WellRead.ifElse {c : Expr} {body other items : Block} (hc : c.WellRead)
    (hbody : body.WellRead) (hother : other.WellRead) (hitems : items.WellRead)
    (position otherPosition : Position) :
    (ifElse c body (.clean position) other (.clean otherPosition) items).WellRead :=
  ⟨⟨hc.canonical, hbody.canonical, hother.canonical, hitems.canonical⟩,
    by simp [preorder, Node.problem?, hc.unreported, hbody.unreported, hother.unreported,
      hitems.unreported]⟩

/-- A block that is read was written by the tokens that are gone. -/
theorem read_ensures (lexemes : List Lexeme) :
    (Block.read lexemes).Ensures fun b rest ↦
      b.WellRead ∧ tokensOf lexemes = b.tokens ++ tokensOf rest := by
  fun_induction Block.read lexemes with
  | case1 => simp [wellRead_empty, tokens]
  | case2 l rest hl => simp [wellRead_empty, tokens]
  | case3 l rest property hl ih =>
    rw [Reads.ensures_past]
    refine (Declaration.read_ensures l rest).andThen ?_
    rintro d ⟨hd, hmark, htokens⟩
    refine (ih d).andThen ?_
    rintro items ⟨hitems, hrest⟩
    rw [Reads.ensures_done]
    refine ⟨.declaration hd hmark hitems, ?_⟩
    rw [tokensOf_cons, htokens, hrest, tokens, List.append_assoc]
  | case4 l rest name hl ih =>
    rw [Reads.ensures_past]
    refine (Assignment.read_ensures l rest).andThen ?_
    rintro a ⟨ha, hmark, htokens⟩
    refine (ih a).andThen ?_
    rintro items ⟨hitems, hrest⟩
    rw [Reads.ensures_done]
    refine ⟨.assignment ha hmark hitems, ?_⟩
    rw [tokensOf_cons, htokens, hrest, tokens, List.append_assoc]
  | case5 l rest hl ihBody ihItems ihOther ihLast =>
    rw [Reads.ensures_past]
    refine (readCondition_ensures rest).andThen ?_
    rintro c ⟨hc, hcondition⟩
    refine (ihBody c).andThen ?_
    rintro body ⟨hbody, htokens⟩
    refine (readSymbol_ensures .closeBrace body.rest).andThen ?_
    intro close hclose
    refine (readSymbol?_ensures .elseWord close.rest).andThen ?_
    intro word hword
    split
    · next hnone =>
      rw [hnone] at hword
      refine (ihItems c body close word).andThen ?_
      rintro items ⟨hitems, hrest⟩
      rw [Reads.ensures_done]
      refine ⟨.ifThen hc hbody hitems l.position, ?_⟩
      simp [tokens, hl, hcondition, htokens, hclose, hword, hrest]
    · next position hsome =>
      rw [hsome] at hword
      refine (readSymbol_ensures .openBrace word.rest).andThen ?_
      intro brace hbrace
      refine (ihOther c body close word brace).andThen ?_
      rintro other ⟨hother, hothers⟩
      refine (readSymbol_ensures .closeBrace other.rest).andThen ?_
      intro last hlast
      refine (ihLast c body close word brace other last).andThen ?_
      rintro items ⟨hitems, hrest⟩
      rw [Reads.ensures_done]
      refine ⟨.ifElse hc hbody hother hitems l.position position, ?_⟩
      simp [tokens, hl, hcondition, htokens, hclose, hword, hbrace, hothers, hlast, hrest]
  | case6 l rest => exact Reads.ensures_error

end Block

/-- A token writes a selector exactly when it is among the tokens of the selector. -/
theorem Selector.ofToken?_eq_some_iff {t : Token} {s : Selector} :
    ofToken? t = some s ↔ t ∈ s.tokens := by
  constructor
  · intro h
    unfold ofToken? at h
    split at h <;> cases h <;> simp [tokens]
  · intro h
    cases s <;> simp [tokens] at h
    · rw [h]
      rfl
    · rw [h]
      rfl
    · rcases h with rfl | rfl
      · rfl
      · rfl

/-- Selectors that are read were written by the tokens that are gone. -/
theorem Selector.readAll_ensures (lexemes : List Lexeme) :
    (readAll lexemes).Ensures fun selectors rest ↦
      ∃ head, Write selectors head ∧ tokensOf lexemes = head ++ tokensOf rest := by
  fun_induction readAll lexemes with
  | case1 => simpa using Write.nil
  | case2 l rest s hs ih =>
    rw [Reads.ensures_past]
    refine ih.andThen ?_
    rintro others ⟨head, hhead, htokens⟩
    rw [Reads.ensures_done]
    refine ⟨l.token :: head, .cons (ofToken?_eq_some_iff.mp hs) hhead, ?_⟩
    rw [tokensOf_cons, htokens, List.cons_append]
  | case3 l rest hl =>
    rw [Reads.ensures_done]
    exact ⟨[], .nil, rfl⟩

/-- A rule that is read has a selector and was written by its first token and those that are
gone. -/
theorem Rule.read_ensures (l : Lexeme) (lexemes : List Lexeme) :
    (Rule.read l lexemes).Ensures fun r rest ↦
      (r.selectors ≠ [] ∧ r.body.WellRead ∧ r.mark.problem = none) ∧
        ∃ ts, r.Writes ts ∧ l.token :: tokensOf lexemes = ts ++ tokensOf rest := by
  unfold Rule.read
  split
  · exact Reads.ensures_error
  · next s hs =>
    refine (Selector.readAll_ensures lexemes).andThen ?_
    rintro others ⟨head, hhead, htokens⟩
    refine (readSymbol_ensures .openBrace others.rest).andThen ?_
    intro brace hbrace
    refine (Block.read_ensures brace.rest).andThen ?_
    rintro body ⟨hbody, hitems⟩
    refine (readSymbol_ensures .closeBrace body.rest).andThen ?_
    intro close hclose
    rw [Reads.ensures_done]
    refine ⟨⟨List.cons_ne_nil _ _, hbody, rfl⟩, _,
      ⟨l.token :: head, .cons (Selector.ofToken?_eq_some_iff.mp hs) hhead, rfl⟩, ?_⟩
    simp [htokens, hbrace, hitems, hclose]

/-- A canonical member without problems, as a reader makes it. -/
structure Member.WellRead (m : Member) : Prop where
  canonical : m.Canonical
  unreported : Unreported m.preorder

/-- A member that is read was written by its first token and those that are gone. -/
theorem Member.read_ensures (l : Lexeme) (lexemes : List Lexeme) :
    (Member.read l lexemes).Ensures fun m rest ↦
      m.WellRead ∧ ∃ ts, m.Writes ts ∧ l.token :: tokensOf lexemes = ts ++ tokensOf rest := by
  unfold Member.read
  split
  · refine (Assignment.read_ensures l lexemes).andThen ?_
    rintro a ⟨ha, hmark, htokens⟩
    rw [Reads.ensures_done]
    refine ⟨⟨ha.canonical, ?_⟩, _, rfl, htokens⟩
    simp [preorder, Node.problem?, hmark, ha.unreported]
  · refine (Rule.read_ensures l lexemes).andThen ?_
    rintro r ⟨⟨hselectors, hbody, hmark⟩, ts, hts, htokens⟩
    rw [Reads.ensures_done]
    refine ⟨⟨⟨hselectors, hbody.canonical⟩, ?_⟩, ts, hts, htokens⟩
    simp [preorder, Node.problem?, hmark, hbody.unreported]

/-- Members that are read were written by the tokens. -/
theorem Sheet.readMembers_sound {lexemes : List Lexeme} {members : List Member}
    (h : readMembers lexemes = .ok members) :
    (∀ m ∈ members, m.WellRead) ∧ Member.Write members (tokensOf lexemes) := by
  fun_induction readMembers lexemes generalizing members with
  | case1 =>
    cases h
    exact ⟨nofun, .nil⟩
  | case2 l rest e hm => cases h
  | case3 l rest m hm e hrest ih => cases h
  | case4 l rest m hm others hrest ih =>
    cases h
    rcases Member.read_ensures l rest m hm with ⟨hwell, ts, hts, htokens⟩
    have hothers := ih hrest
    refine ⟨List.forall_mem_cons.mpr ⟨hwell, hothers.1⟩, ?_⟩
    rw [tokensOf_cons, htokens]
    exact .cons hts hothers.2

/-! ### What is written is read -/

private theorem head?_ne_operator {s : Symbol} (hs : s ∉ [.plus, .minus, .star])
    (following : List Token) (op : Operator) :
    (Token.symbol s :: following).head? ≠ some (.symbol op.symbol) := by
  rintro ⟨⟩
  cases op <;> simp [Operator.symbol] at hs

/-- A canonical value that is written between the symbol and a semicolon is read, up to marks. -/
theorem readValue_achieves {s : Symbol} {e : Expr} (he : e.Canonical)
    {lexemes : List Lexeme} {following : List Token}
    (h : tokensOf lexemes = .symbol s :: (e.tokens ++ .symbol .semicolon :: following)) :
    (readValue s lexemes).Achieves fun e' rest ↦ e'.bare = e.bare ∧ tokensOf rest = following := by
  apply (readSymbol_achieves h).andThen
  intro front hfront
  apply (Expr.read_achieves he hfront (head?_ne_operator (by decide) _)).andThen
  rintro value ⟨hvalue, hrest⟩
  apply (readSymbol_achieves hrest).andThen
  intro semicolon hsemicolon
  rw [Reads.achieves_done]
  exact ⟨hvalue, hsemicolon⟩

/-- A canonical declaration that is written is read, up to marks. -/
theorem Declaration.read_achieves {d : Declaration} (hd : d.value.Canonical) {l : Lexeme}
    {lexemes : List Lexeme} {following : List Token}
    (h : l.token :: tokensOf lexemes = d.tokens ++ following) :
    (Declaration.read l lexemes).Achieves fun d' rest ↦
      d'.bare = d.bare ∧ tokensOf rest = following := by
  simp only [tokens, List.cons_append, List.append_assoc, List.cons.injEq] at h
  obtain ⟨hl, h⟩ := h
  rw [Declaration.read, hl]
  apply (readValue_achieves hd h).andThen
  rintro value ⟨hvalue, hrest⟩
  rw [Reads.achieves_done]
  refine ⟨?_, hrest⟩
  rw [bare, bare, hvalue]

/-- A canonical assignment that is written is read, up to marks. -/
theorem Assignment.read_achieves {a : Assignment} (ha : a.value.Canonical) {l : Lexeme}
    {lexemes : List Lexeme} {following : List Token}
    (h : l.token :: tokensOf lexemes = a.tokens ++ following) :
    (Assignment.read l lexemes).Achieves fun a' rest ↦
      a'.bare = a.bare ∧ tokensOf rest = following := by
  simp only [tokens, List.cons_append, List.append_assoc, List.cons.injEq] at h
  obtain ⟨hl, h⟩ := h
  rw [Assignment.read, hl]
  apply (readValue_achieves ha h).andThen
  rintro value ⟨hvalue, hrest⟩
  rw [Reads.achieves_done]
  refine ⟨?_, hrest⟩
  rw [bare, bare, hvalue]

/-- A canonical condition that is written is read, up to marks. -/
theorem readCondition_achieves {c : Expr} (hc : c.Canonical) {lexemes : List Lexeme}
    {following : List Token} (h : tokensOf lexemes = c.conditionTokens ++ following) :
    (readCondition lexemes).Achieves fun c' rest ↦
      c'.bare = c.bare ∧ tokensOf rest = following := by
  simp only [Expr.conditionTokens, List.cons_append, List.append_assoc] at h
  apply (readSymbol_achieves h).andThen
  intro bracket hbracket
  apply (Expr.read_achieves hc hbracket (head?_ne_operator (by decide) _)).andThen
  rintro condition ⟨hcondition, hrest⟩
  apply (readSymbol_achieves hrest).andThen
  intro close hclose
  apply (readSymbol_achieves hclose).andThen
  intro brace hbrace
  rw [Reads.achieves_done]
  exact ⟨hcondition, hbrace⟩

-- No item begins with the word that a second branch begins with, so an `else` is never left to be
-- read as an item and never taken from what follows.
private theorem Block.head?_tokens_ne_else (b : Block) (following : List Token) :
    (b.tokens ++ .symbol .closeBrace :: following).head? ≠ some (.symbol .elseWord) := by
  cases b <;> simp [tokens, Declaration.tokens, Assignment.tokens]

/-- A canonical block that is written before its closing brace is read, up to marks. -/
theorem Block.read_achieves {b : Block} (hb : b.Canonical) {lexemes : List Lexeme}
    {following : List Token}
    (h : tokensOf lexemes = b.tokens ++ .symbol .closeBrace :: following) :
    (Block.read lexemes).Achieves fun b' rest ↦
      b'.bare = b.bare ∧ tokensOf rest = .symbol .closeBrace :: following := by
  induction b generalizing lexemes following with
  | empty =>
    rcases exists_of_tokensOf_eq_cons h with ⟨l, rest, rfl, hl, hrest⟩
    simp [Block.read, hl, hrest]
  | declaration d items ih =>
    rw [tokens, List.append_assoc] at h
    rcases exists_of_tokensOf_eq_cons h with ⟨l, rest, rfl, hl, hrest⟩
    rw [Block.read, hl, Reads.achieves_past]
    apply (Declaration.read_achieves hb.1 (by rw [hl, hrest]; rfl)).andThen
    rintro d' ⟨hd, hitems⟩
    apply (ih hb.2 hitems).andThen
    rintro items' ⟨hitems', hclose⟩
    rw [Reads.achieves_done]
    refine ⟨?_, hclose⟩
    rw [bare, bare, hd, hitems']
  | assignment a items ih =>
    rw [tokens, List.append_assoc] at h
    rcases exists_of_tokensOf_eq_cons h with ⟨l, rest, rfl, hl, hrest⟩
    rw [Block.read, hl, Reads.achieves_past]
    apply (Assignment.read_achieves hb.1 (by rw [hl, hrest]; rfl)).andThen
    rintro a' ⟨ha, hitems⟩
    apply (ih hb.2 hitems).andThen
    rintro items' ⟨hitems', hclose⟩
    rw [Reads.achieves_done]
    refine ⟨?_, hclose⟩
    rw [bare, bare, ha, hitems']
  | ifThen c body m items ihBody ih =>
    simp only [tokens, List.cons_append, List.append_assoc] at h
    rcases exists_of_tokensOf_eq_cons h with ⟨l, rest, rfl, hl, hrest⟩
    rw [Block.read, hl, Reads.achieves_past]
    apply (readCondition_achieves hb.1 hrest).andThen
    rintro c' ⟨hc, hbody⟩
    apply (ihBody hb.2.1 hbody).andThen
    rintro body' ⟨hbody', hclose⟩
    apply (readSymbol_achieves hclose).andThen
    intro close hitems
    have hword : (tokensOf close.rest).head? ≠ some (.symbol .elseWord) := by
      rw [hitems]
      exact items.head?_tokens_ne_else following
    apply (readSymbol?_achieves_none hword).andThen
    rintro word ⟨hnone, hsame⟩
    rw [hnone]
    apply (ih hb.2.2 (hsame.trans hitems)).andThen
    rintro items' ⟨hitems', hclose⟩
    rw [Reads.achieves_done]
    refine ⟨?_, hclose⟩
    rw [bare, bare, hc, hbody', hitems']
  | ifElse c body m other om items ihBody ihOther ih =>
    simp only [tokens, List.cons_append, List.append_assoc] at h
    rcases exists_of_tokensOf_eq_cons h with ⟨l, rest, rfl, hl, hrest⟩
    rw [Block.read, hl, Reads.achieves_past]
    apply (readCondition_achieves hb.1 hrest).andThen
    rintro c' ⟨hc, hbody⟩
    apply (ihBody hb.2.1 hbody).andThen
    rintro body' ⟨hbody', hclose⟩
    apply (readSymbol_achieves hclose).andThen
    intro close helse
    apply (readSymbol?_achieves_some helse).andThen
    rintro word ⟨⟨position, hsome⟩, hbrace⟩
    rw [hsome]
    apply (readSymbol_achieves hbrace).andThen
    intro brace hother
    apply (ihOther hb.2.2.1 hother).andThen
    rintro other' ⟨hother', hclose⟩
    apply (readSymbol_achieves hclose).andThen
    intro last hitems
    apply (ih hb.2.2.2 hitems).andThen
    rintro items' ⟨hitems', hclose⟩
    rw [Reads.achieves_done]
    refine ⟨?_, hclose⟩
    rw [bare, bare, hc, hbody', hother', hitems']

/-- Selectors that are written before an opening brace are read. -/
theorem Selector.readAll_achieves {selectors : List Selector} {head : List Token}
    (hw : Write selectors head) {lexemes : List Lexeme} {following : List Token}
    (h : tokensOf lexemes = head ++ .symbol .openBrace :: following) :
    (readAll lexemes).Achieves fun selectors' rest ↦
      selectors' = selectors ∧ tokensOf rest = .symbol .openBrace :: following := by
  induction hw generalizing lexemes with
  | nil =>
    rcases exists_of_tokensOf_eq_cons h with ⟨l, rest, rfl, hl, hrest⟩
    simp [readAll, hl, ofToken?, hrest]
  | @cons s t selectors ts ht hw ih =>
    rcases exists_of_tokensOf_eq_cons h with ⟨l, rest, rfl, rfl, hrest⟩
    rw [readAll, ofToken?_eq_some_iff.mpr ht, Reads.achieves_past]
    apply (ih hrest).andThen
    rintro others ⟨hothers, hbrace⟩
    rw [Reads.achieves_done]
    refine ⟨?_, hbrace⟩
    rw [hothers]

/-- A canonical rule that is written is read, up to marks. -/
theorem Rule.read_achieves {r : Rule} (hr : (Member.rule r).Canonical) {l : Lexeme}
    {lexemes : List Lexeme} {ts following : List Token} (hw : r.Writes ts)
    (h : l.token :: tokensOf lexemes = ts ++ following) :
    (Rule.read l lexemes).Achieves fun r' rest ↦
      (Member.rule r').bare = (Member.rule r).bare ∧ tokensOf rest = following := by
  rcases r with ⟨selectors, body, m⟩
  rcases hw with ⟨head, hhead, rfl⟩
  cases hhead with
  | nil => exact absurd rfl hr.1
  | @cons s t selectors head ht hhead =>
    simp only [List.cons_append, List.append_assoc, List.cons.injEq] at h
    rcases h with ⟨rfl, htokens⟩
    simp only [Rule.read, Selector.ofToken?_eq_some_iff.mpr ht]
    apply (Selector.readAll_achieves hhead htokens).andThen
    rintro others ⟨hothers, hbrace⟩
    apply (readSymbol_achieves hbrace).andThen
    intro brace hbody
    apply (Block.read_achieves hr.2 hbody).andThen
    rintro body' ⟨hbody', hclose⟩
    apply (readSymbol_achieves hclose).andThen
    intro close hrest
    rw [Reads.achieves_done]
    refine ⟨?_, hrest⟩
    simp only [Member.bare, hothers, hbody']

private theorem Selector.ne_variableName {s : Selector} {t : Token} (h : t ∈ s.tokens)
    (name : String) : t ≠ .variableName name := by
  rintro rfl
  cases s <;> simp [tokens] at h

private theorem Rule.Writes.head_ne_variableName {r : Rule} {t : Token} {ts a b : List Token}
    (hw : r.Writes a) (hr : r.selectors ≠ []) (h : t :: ts = a ++ b) (name : String) :
    t ≠ .variableName name := by
  rcases r with ⟨selectors, body, m⟩
  rcases hw with ⟨head, hhead, rfl⟩
  cases hhead with
  | nil => exact absurd rfl hr
  | cons ht hhead =>
    rw [(List.cons.inj h).1]
    exact Selector.ne_variableName ht name

/-- A canonical member that is written is read, up to marks. -/
theorem Member.read_achieves {m : Member} (hm : m.Canonical) {l : Lexeme} {lexemes : List Lexeme}
    {ts following : List Token} (hw : m.Writes ts)
    (h : l.token :: tokensOf lexemes = ts ++ following) :
    (Member.read l lexemes).Achieves fun m' rest ↦
      m'.bare = m.bare ∧ tokensOf rest = following := by
  cases m with
  | rule r =>
    have hl := hw.head_ne_variableName hm.1 h
    unfold Member.read
    split
    · next name hname => exact absurd hname (hl name)
    · apply (Rule.read_achieves hm hw h).andThen
      intro r' hr'
      rw [Reads.achieves_done]
      exact hr'
  | assignment a =>
    rw [hw] at h
    have hl : l.token = .variableName a.name := (List.cons.inj h).1
    simp only [Member.read, hl]
    apply (Assignment.read_achieves hm h).andThen
    rintro a' ⟨ha, hrest⟩
    rw [Reads.achieves_done]
    refine ⟨?_, hrest⟩
    rw [bare, bare, ha]

private theorem Member.Writes.ne_nil {m : Member} {ts : List Token} (h : m.Writes ts) :
    ts ≠ [] := by
  cases m with
  | rule r =>
    rcases h with ⟨head, hhead, rfl⟩
    simp
  | assignment a =>
    rw [h]
    exact List.cons_ne_nil _ _

/-- Canonical members that are written are read, up to marks. -/
theorem Sheet.readMembers_complete {members : List Member} {ts : List Token}
    (hw : Member.Write members ts) (hm : ∀ m ∈ members, m.Canonical) {lexemes : List Lexeme}
    (h : tokensOf lexemes = ts) :
    ∃ members', readMembers lexemes = .ok members' ∧
      members'.map Member.bare = members.map Member.bare := by
  induction hw generalizing lexemes with
  | nil =>
    rw [tokensOf, List.map_eq_nil_iff] at h
    subst h
    exact ⟨[], by rw [readMembers], rfl⟩
  | @cons m members a b ha hb ih =>
    have hm' := List.forall_mem_cons.mp hm
    cases lexemes with
    | nil => exact absurd (List.append_eq_nil_iff.mp h.symm).1 ha.ne_nil
    | cons l rest =>
      rcases Member.read_achieves hm'.1 ha h with ⟨r, hr, hbare, hrest⟩
      rcases ih hm'.2 hrest with ⟨others, hothers, hbares⟩
      refine ⟨r.value :: others, ?_, ?_⟩
      · rw [readMembers, hr]
        simp only [hothers]
      · rw [List.map_cons, List.map_cons, hbare, hbares]

/-! ### The reader and the grammar -/

namespace Sheet

/-- A sheet that is read is canonical and without problems, and is written by the tokens it was read
from. -/
theorem ofLexemes_sound {lexemes : List Lexeme} {s : Sheet} (h : ofLexemes lexemes = .ok s) :
    s.diagnostics = [] ∧ s.Canonical ∧ s.Writes (tokensOf lexemes) := by
  unfold ofLexemes at h
  split at h
  · next members hread =>
    cases h
    have hsound := readMembers_sound hread
    refine ⟨?_, fun m hm ↦ (hsound.1 m hm).canonical, hsound.2⟩
    rw [diagnostics_eq_nil_iff, preorder, unreported_cons]
    refine ⟨rfl, ?_⟩
    intro n hn
    rcases List.mem_flatMap.mp hn with ⟨m, hm, hn⟩
    exact (hsound.1 m hm).unreported n hn
  · cases h

/-- A canonical sheet is read, up to marks, from all lexemes whose tokens write it. -/
theorem ofLexemes_complete {s : Sheet} (hs : s.Canonical) {lexemes : List Lexeme}
    (hw : s.Writes (tokensOf lexemes)) : ∃ s', ofLexemes lexemes = .ok s' ∧ s'.bare = s.bare := by
  rcases readMembers_complete hw hs rfl with ⟨members, hread, hbare⟩
  refine ⟨.ofMembers members, ?_, ?_⟩
  · rw [ofLexemes, hread]
  · rw [bare, bare, ← hbare]
    rfl

/-- A source is read into the sheet of its lexemes. -/
theorem ofSource_eq_ok_iff {source : String} {s : Sheet} :
    ofSource source = .ok s ↔
      ∃ lexemes, tokenize source = .ok lexemes ∧ ofLexemes lexemes = .ok s := by
  unfold ofSource
  cases tokenize source <;> simp

/-- A sheet that is read has nothing wrong. -/
theorem diagnostics_ofSource {source : String} {s : Sheet} (h : ofSource source = .ok s) :
    s.diagnostics = [] := by
  obtain ⟨lexemes, -, read⟩ := ofSource_eq_ok_iff.mp h
  exact (ofLexemes_sound read).1

end Sheet

end FlatSheet
