import FlatSheet.Proofs.Reading.Sheets

/-!
# Where nodes are marked

The lexemes of a tree are the tokens that write it, at the positions in its marks: an operation is marked
at its operator, a declaration, an assignment, a conditional block and its second branch at their first
token. What is read has the lexemes that are gone; those that mark nothing stand anywhere between.
-/

namespace FlatSheet

/-! ### Lexemes of trees -/

namespace Expr

/-- The lexeme at the root of an expression: its only one, or its operator. -/
def rootLexeme : Expr → Lexeme
  | literal value m => ⟨value.token, m.position⟩
  | reference name m => ⟨.variableName name, m.position⟩
  | operation op _ _ m => ⟨.symbol op.symbol, m.position⟩

/-- The lexemes of an expression: operands in order, their operator between them. -/
def lexemes : Expr → List Lexeme
  | literal value m => [⟨value.token, m.position⟩]
  | reference name m => [⟨.variableName name, m.position⟩]
  | operation op lhs rhs m => lhs.lexemes ++ ⟨.symbol op.symbol, m.position⟩ :: rhs.lexemes

/-- The lexeme at the root is among those of the expression. -/
theorem rootLexeme_mem (e : Expr) : e.rootLexeme ∈ e.lexemes := by
  cases e <;> simp [rootLexeme, lexemes]

@[simp] theorem position_rootLexeme (e : Expr) : e.rootLexeme.position = e.mark.position := by
  cases e <;> rfl

/-- The lexemes of a condition, with the keyword and the brackets around it. -/
def IsCondition (c : Expr) (ls : List Lexeme) : Prop :=
  ∃ word left right : Position, ls = ⟨.symbol .ifWord, word⟩ :: ⟨.symbol .openBracket, left⟩ ::
    (c.lexemes ++ [⟨.symbol .closeBracket, right⟩])

end Expr

/-- The lexemes of a declaration. -/
def Declaration.Placed (d : Declaration) (ls : List Lexeme) : Prop :=
  ∃ colon semicolon : Position, ls = ⟨.identifier d.property, d.mark.position⟩ ::
    ⟨.symbol .colon, colon⟩ :: (d.value.lexemes ++ [⟨.symbol .semicolon, semicolon⟩])

/-- The lexemes of an assignment. -/
def Assignment.Placed (a : Assignment) (ls : List Lexeme) : Prop :=
  ∃ assign semicolon : Position, ls = ⟨.variableName a.name, a.mark.position⟩ ::
    ⟨.symbol .assign, assign⟩ :: (a.value.lexemes ++ [⟨.symbol .semicolon, semicolon⟩])

/-- The lexemes of the items of a block. -/
inductive Block.Placed : Block → List Lexeme → Prop
  | empty : Placed empty []
  | declaration {d : Declaration} {rest : Block} {own others : List Lexeme} :
    d.Placed own → Placed rest others → Placed (declaration d rest) (own ++ others)
  | assignment {a : Assignment} {rest : Block} {own others : List Lexeme} :
    a.Placed own → Placed rest others → Placed (assignment a rest) (own ++ others)
  | ifThen {c : Expr} {body rest : Block} {m : Mark} {front inner others : List Lexeme}
    (left right : Position) : c.IsCondition front → Placed body inner → Placed rest others →
    Placed (ifThen c body m rest) (front ++ ⟨.symbol .openBrace, left⟩ ::
      (inner ++ ⟨.symbol .closeBrace, right⟩ :: others))
  | ifElse {c : Expr} {body other rest : Block} {m om : Mark} {front inner last others : List Lexeme}
    (left right otherLeft otherRight : Position) : c.IsCondition front → Placed body inner →
    Placed other last → Placed rest others →
    Placed (ifElse c body m other om rest) (front ++ ⟨.symbol .openBrace, left⟩ ::
      (inner ++ ⟨.symbol .closeBrace, right⟩ :: ⟨.symbol .elseWord, om.position⟩ ::
        ⟨.symbol .openBrace, otherLeft⟩ :: (last ++ ⟨.symbol .closeBrace, otherRight⟩ :: others)))

/-- The lexemes of a member. Selectors have no marks of their own. -/
inductive Member.Placed : Member → List Lexeme → Prop
  | rule {r : Rule} {inner : List Lexeme} (head : List Lexeme) (left right : Position) :
    r.body.Placed inner →
    Placed (.rule r) (head ++ ⟨.symbol .openBrace, left⟩ ::
      (inner ++ [⟨.symbol .closeBrace, right⟩]))
  | assignment {a : Assignment} {ls : List Lexeme} : a.Placed ls → Placed (.assignment a) ls

/-- The lexemes of members, one after the other. -/
inductive Sheet.Placed : List Member → List Lexeme → Prop
  | nil : Placed [] []
  | cons {m : Member} {members : List Member} {own others : List Lexeme} :
    m.Placed own → Placed members others → Placed (m :: members) (own ++ others)

/-! ### What is read is placed -/

/-- A symbol that is read was the first lexeme. -/
theorem readSymbol_placed (s : Symbol) (lexemes : List Lexeme) :
    (readSymbol s lexemes).Ensures fun position rest ↦ lexemes = ⟨.symbol s, position⟩ :: rest := by
  cases lexemes with
  | nil => exact Reads.ensures_error
  | cons l rest =>
    by_cases hl : l.token = .symbol s
    · rw [readSymbol, if_pos hl, Reads.ensures_past, Reads.ensures_done, ← hl]
    · rw [readSymbol, if_neg hl]
      exact Reads.ensures_error

/-- A symbol that is looked for was the first lexeme, if it is read. -/
theorem readSymbol?_placed (s : Symbol) (lexemes : List Lexeme) :
    (readSymbol? s lexemes).Ensures fun found rest ↦ match found with
      | some position => lexemes = ⟨.symbol s, position⟩ :: rest
      | none => lexemes = rest := by
  cases lexemes with
  | nil => simp [readSymbol?]
  | cons l rest =>
    by_cases hl : l.token = .symbol s
    · rw [readSymbol?, if_pos hl, Reads.ensures_past, Reads.ensures_done, ← hl]
    · rw [readSymbol?, if_neg hl, Reads.ensures_done]

namespace Expr

private theorem lexemes_of_ofLexeme? {l : Lexeme} {e : Expr} (h : ofLexeme? l = some e) :
    e.lexemes = [l] := by
  unfold ofLexeme? at h
  split at h
  · next name hl =>
    cases h
    rw [lexemes, ← hl]
    rfl
  · obtain ⟨v, hv, rfl⟩ := Option.map_eq_some_iff.mp h
    rw [lexemes, ← Literal.ofToken?_eq_some_iff.mp hv]
    rfl

/-- An operand that is read has the first lexeme. -/
theorem readOperand_placed (all : List Lexeme) :
    (readOperand all).Ensures fun e rest ↦ all = e.lexemes ++ rest := by
  cases all with
  | nil => exact Reads.ensures_error
  | cons l rest =>
    cases h : ofLexeme? l with
    | none =>
      simp only [readOperand, h]
      exact Reads.ensures_error
    | some e =>
      simp only [readOperand, h]
      rw [Reads.ensures_past, Reads.ensures_done, lexemes_of_ofLexeme? h]
      rfl

/-- A product that is read has the lexemes of its first part and those that are gone. -/
theorem readFactors_placed (lhs : Expr) (all : List Lexeme) :
    (readFactors lhs all).Ensures fun e rest ↦ lhs.lexemes ++ all = e.lexemes ++ rest := by
  fun_induction readFactors lhs all with
  | case1 lhs => simp
  | case2 lhs l rest hstar ih =>
    rw [Reads.ensures_past]
    refine (readOperand_placed rest).andThen ?_
    intro r hr t ht
    have star : l = ⟨.symbol (Operator.symbol .multiply), (Mark.clean l.position).position⟩ := by
      rw [Operator.symbol, ← hstar]
      rfl
    have next := ih r t ht
    rw [lexemes, ← star, List.append_assoc, List.cons_append, ← hr] at next
    exact next
  | case3 lhs l rest hstar => simp

/-- A product that is read has the lexemes that are gone. -/
theorem readProduct_placed (all : List Lexeme) :
    (readProduct all).Ensures fun e rest ↦ all = e.lexemes ++ rest := by
  refine (readOperand_placed all).andThen ?_
  intro r hr t ht
  exact hr.trans (readFactors_placed r.value r.rest t ht)

/-- A sum that is read has the lexemes of its first part and those that are gone. -/
theorem readTerms_placed (lhs : Expr) (all : List Lexeme) :
    (readTerms lhs all).Ensures fun e rest ↦ lhs.lexemes ++ all = e.lexemes ++ rest := by
  fun_induction readTerms lhs all with
  | case1 lhs => simp
  | case2 lhs l rest op hop ih =>
    rw [Reads.ensures_past]
    refine (readProduct_placed rest).andThen ?_
    intro r hr t ht
    have sign : l = ⟨.symbol op.symbol, (Mark.clean l.position).position⟩ := by
      rw [← (sumOperator?_eq_some_iff.mp hop).1]
      rfl
    have next := ih r t ht
    rw [lexemes, ← sign, List.append_assoc, List.cons_append, ← hr] at next
    exact next
  | case3 lhs l rest hop => simp

/-- An expression that is read has the lexemes that are gone. -/
theorem read_placed (all : List Lexeme) :
    (read all).Ensures fun e rest ↦ all = e.lexemes ++ rest := by
  refine (readProduct_placed all).andThen ?_
  intro r hr t ht
  exact hr.trans (readTerms_placed r.value r.rest t ht)

end Expr

/-- A value that is read has the lexemes that are gone, between the symbol and a semicolon. -/
theorem readValue_placed (s : Symbol) (all : List Lexeme) :
    (readValue s all).Ensures fun e rest ↦ ∃ front semicolon : Position,
      all = ⟨.symbol s, front⟩ :: (e.lexemes ++ ⟨.symbol .semicolon, semicolon⟩ :: rest) := by
  refine (readSymbol_placed s all).andThen ?_
  intro front hfront
  refine (Expr.read_placed front.rest).andThen ?_
  intro value hvalue
  refine (readSymbol_placed .semicolon value.rest).andThen ?_
  intro semicolon hsemicolon
  rw [Reads.ensures_done]
  exact ⟨front.value, semicolon.value, hfront.trans (by rw [← hsemicolon, ← hvalue])⟩

/-- A declaration that is read has its property's lexeme and those that are gone. -/
theorem Declaration.read_placed (l : Lexeme) (all : List Lexeme) :
    (Declaration.read l all).Ensures fun d rest ↦
      ∃ ls, d.Placed ls ∧ l :: all = ls ++ rest := by
  unfold Declaration.read
  split
  · next property hl =>
    refine (readValue_placed .colon all).andThen ?_
    rintro value ⟨colon, semicolon, hvalue⟩
    rw [Reads.ensures_done]
    refine ⟨_, ⟨colon, semicolon, rfl⟩, ?_⟩
    conv => lhs; rw [hvalue]
    simp [Mark.clean, ← hl]
  · exact Reads.ensures_error

/-- An assignment that is read has its name's lexeme and those that are gone. -/
theorem Assignment.read_placed (l : Lexeme) (all : List Lexeme) :
    (Assignment.read l all).Ensures fun a rest ↦
      ∃ ls, a.Placed ls ∧ l :: all = ls ++ rest := by
  unfold Assignment.read
  split
  · next name hl =>
    refine (readValue_placed .assign all).andThen ?_
    rintro value ⟨assign, semicolon, hvalue⟩
    rw [Reads.ensures_done]
    refine ⟨_, ⟨assign, semicolon, rfl⟩, ?_⟩
    conv => lhs; rw [hvalue]
    simp [Mark.clean, ← hl]
  · exact Reads.ensures_error

/-- A condition that is read has the keyword's lexeme and those that are gone. -/
theorem readCondition_placed (word : Position) (all : List Lexeme) :
    (readCondition all).Ensures fun c rest ↦
      ∃ front brace, c.IsCondition front ∧
        ⟨.symbol .ifWord, word⟩ :: all = front ++ ⟨.symbol .openBrace, brace⟩ :: rest := by
  refine (readSymbol_placed .openBracket all).andThen ?_
  intro bracket hbracket
  refine (Expr.read_placed bracket.rest).andThen ?_
  intro condition hcondition
  refine (readSymbol_placed .closeBracket condition.rest).andThen ?_
  intro close hclose
  refine (readSymbol_placed .openBrace close.rest).andThen ?_
  intro brace hbrace
  rw [Reads.ensures_done]
  refine ⟨_, brace.value, ⟨word, bracket.value, close.value, rfl⟩, ?_⟩
  conv => lhs; rw [hbracket, hcondition, hclose, hbrace]
  simp

/-- A block that is read has the lexemes that are gone. -/
theorem Block.read_placed (all : List Lexeme) :
    (Block.read all).Ensures fun b rest ↦ ∃ ls, b.Placed ls ∧ all = ls ++ rest := by
  fun_induction Block.read all with
  | case1 =>
    rw [Reads.ensures_done]
    exact ⟨[], .empty, rfl⟩
  | case2 l rest hl =>
    rw [Reads.ensures_done]
    exact ⟨[], .empty, rfl⟩
  | case3 l rest property hl ih =>
    rw [Reads.ensures_past]
    refine (Declaration.read_placed l rest).andThen ?_
    rintro d ⟨own, hd, hown⟩
    refine (ih d).andThen ?_
    rintro items ⟨others, hitems, hothers⟩
    rw [Reads.ensures_done]
    refine ⟨_, .declaration hd hitems, ?_⟩
    rw [List.append_assoc, ← hothers, ← hown]
  | case4 l rest name hl ih =>
    rw [Reads.ensures_past]
    refine (Assignment.read_placed l rest).andThen ?_
    rintro a ⟨own, ha, hown⟩
    refine (ih a).andThen ?_
    rintro items ⟨others, hitems, hothers⟩
    rw [Reads.ensures_done]
    refine ⟨_, .assignment ha hitems, ?_⟩
    rw [List.append_assoc, ← hothers, ← hown]
  | case5 l rest hl ihBody ihItems ihOther ihLast =>
    rw [Reads.ensures_past]
    refine (readCondition_placed l.position rest).andThen ?_
    rintro c ⟨front, left, hc, hfront⟩
    refine (ihBody c).andThen ?_
    rintro body ⟨inner, hbody, hinner⟩
    refine (readSymbol_placed .closeBrace body.rest).andThen ?_
    intro close hclose
    refine (readSymbol?_placed .elseWord close.rest).andThen ?_
    intro word hword
    have start : l :: rest = front ++ ⟨.symbol .openBrace, left⟩ :: c.rest := by
      rw [← hfront, ← hl]
    split
    · next hnone =>
      rw [hnone] at hword
      refine (ihItems c body close word).andThen ?_
      rintro items ⟨others, hitems, hothers⟩
      rw [Reads.ensures_done]
      refine ⟨_, .ifThen left close.value hc hbody hitems, ?_⟩
      conv => lhs; rw [start, hinner, hclose, hword, hothers]
      simp
    · next position hsome =>
      rw [hsome] at hword
      refine (readSymbol_placed .openBrace word.rest).andThen ?_
      intro brace hbrace
      refine (ihOther c body close word brace).andThen ?_
      rintro other ⟨last, hother, hlast⟩
      refine (readSymbol_placed .closeBrace other.rest).andThen ?_
      intro closed hclosed
      refine (ihLast c body close word brace other closed).andThen ?_
      rintro items ⟨others, hitems, hothers⟩
      rw [Reads.ensures_done]
      refine ⟨_, .ifElse left close.value brace.value closed.value hc hbody hother hitems, ?_⟩
      conv => lhs; rw [start, hinner, hclose, hword, hbrace, hlast, hclosed, hothers]
      simp [Mark.clean]
  | case6 l rest => exact Reads.ensures_error

/-- Selectors that are read have the lexemes that are gone. -/
theorem Selector.readAll_placed (all : List Lexeme) :
    (Selector.readAll all).Ensures fun _ rest ↦ ∃ head, all = head ++ rest := by
  fun_induction Selector.readAll all with
  | case1 =>
    rw [Reads.ensures_done]
    exact ⟨[], rfl⟩
  | case2 l rest s hs ih =>
    rw [Reads.ensures_past]
    refine ih.andThen ?_
    rintro others ⟨head, hhead⟩
    rw [Reads.ensures_done]
    refine ⟨l :: head, ?_⟩
    conv => lhs; rw [hhead]
    rfl
  | case3 l rest hs =>
    rw [Reads.ensures_done]
    exact ⟨[], rfl⟩

/-- A rule that is read has its first lexeme and those that are gone. -/
theorem Rule.read_placed (l : Lexeme) (all : List Lexeme) :
    (Rule.read l all).Ensures fun r rest ↦
      ∃ ls, Member.Placed (.rule r) ls ∧ l :: all = ls ++ rest := by
  unfold Rule.read
  split
  · exact Reads.ensures_error
  · refine (Selector.readAll_placed all).andThen ?_
    rintro others ⟨head, hhead⟩
    refine (readSymbol_placed .openBrace others.rest).andThen ?_
    intro brace hbrace
    refine (Block.read_placed brace.rest).andThen ?_
    rintro body ⟨inner, hbody, hinner⟩
    refine (readSymbol_placed .closeBrace body.rest).andThen ?_
    intro close hclose
    rw [Reads.ensures_done]
    have first : l :: all = (l :: head) ++ others.rest := congrArg (l :: ·) hhead
    refine ⟨_, .rule (l :: head) brace.value close.value hbody, first.trans ?_⟩
    conv => lhs; rw [hbrace, hinner, hclose]
    simp

/-- A member that is read has its first lexeme and those that are gone. -/
theorem Member.read_placed (l : Lexeme) (all : List Lexeme) :
    (Member.read l all).Ensures fun m rest ↦ ∃ ls, m.Placed ls ∧ l :: all = ls ++ rest := by
  unfold Member.read
  split
  · refine (Assignment.read_placed l all).andThen ?_
    rintro a ⟨ls, ha, hls⟩
    rw [Reads.ensures_done]
    exact ⟨ls, .assignment ha, hls⟩
  · exact (Rule.read_placed l all).andThen fun r hr ↦ Reads.ensures_done.mpr hr

/-- Members that are read have the lexemes. -/
theorem Sheet.readMembers_placed {all : List Lexeme} {members : List Member}
    (h : readMembers all = .ok members) : Placed members all := by
  fun_induction readMembers all generalizing members with
  | case1 =>
    cases h
    exact .nil
  | case2 l rest e hm => cases h
  | case3 l rest m hm e hrest ih => cases h
  | case4 l rest m hm others hrest ih =>
    cases h
    obtain ⟨own, hown, hall⟩ := Member.read_placed l rest m hm
    rw [hall]
    exact .cons hown (ih hrest)

/-- A sheet that is read has the lexemes. -/
theorem Sheet.ofLexemes_placed {all : List Lexeme} {s : Sheet} (h : ofLexemes all = .ok s) :
    Placed s.members all := by
  unfold ofLexemes at h
  split at h
  · next members hread =>
    cases h
    exact readMembers_placed hread
  · cases h

end FlatSheet
