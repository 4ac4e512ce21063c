import FlatSheet.Expr.Reading
import FlatSheet.Proofs.Grammar.Canonical
import FlatSheet.Proofs.Reading.Contracts
import FlatSheet.Proofs.Sheet.Preorder

/-!
# Expressions are read exactly

What is read is canonical and was written by the tokens that are gone. A canonical expression that
is written is read in turn, as long as no operator comes after it that would take it as an operand.
-/

namespace FlatSheet

/-- A token writes a value exactly when it is the token of the value. -/
theorem Literal.ofToken?_eq_some_iff {t : Token} {v : Literal} :
    ofToken? t = some v ↔ t = v.token := by
  constructor
  · intro h
    unfold ofToken? at h
    split at h <;> cases h <;> rfl
  · rintro rfl
    rcases v with ⟨_ | _⟩ | _ | _ | _ | _ <;> rfl

@[simp] theorem Mark.problem_clean (position : Position) : (clean position).problem = none := rfl

namespace Expr

/-- A canonical expression without problems, as a reader makes it. -/
structure WellRead (e : Expr) : Prop where
  canonical : e.Canonical
  unreported : Unreported e.preorder

/-! ### What is read was written -/

/-- An operand of one lexeme is a leaf, as a reader makes it, and is written by the token. -/
theorem of_ofLexeme? {l : Lexeme} {e : Expr} (h : ofLexeme? l = some e) :
    e.isLeaf = true ∧ e.WellRead ∧ e.tokens = [l.token] := by
  unfold ofLexeme? at h
  split at h
  · next name hl =>
    cases h
    exact ⟨rfl, ⟨trivial, by simp [preorder, Node.problem?, mark]⟩, by rw [hl]; rfl⟩
  · rcases Option.map_eq_some_iff.mp h with ⟨v, hv, rfl⟩
    rw [Literal.ofToken?_eq_some_iff.mp hv]
    exact ⟨rfl, ⟨trivial, by simp [preorder, Node.problem?, mark]⟩, rfl⟩

/-- An operand that is read is a leaf and was written by the first token. -/
theorem readOperand_ensures (lexemes : List Lexeme) :
    (readOperand lexemes).Ensures fun e rest ↦
      e.isLeaf = true ∧ e.WellRead ∧ tokensOf lexemes = e.tokens ++ tokensOf rest := by
  cases lexemes with
  | nil => exact Reads.ensures_error
  | cons l rest =>
    cases h : ofLexeme? l with
    | none =>
      simp only [readOperand, h]
      exact Reads.ensures_error
    | some e =>
      have he := of_ofLexeme? h
      simp [readOperand, h, he]

private theorem isSum_of_isLeaf {e : Expr} (h : e.isLeaf = true) : e.isSum = false := by
  cases e with
  | literal value m => rfl
  | reference name m => rfl
  | operation op lhs rhs m => cases h

private theorem WellRead.multiply {lhs rhs : Expr} (hl : lhs.WellRead) (hs : lhs.isSum = false)
    (hr : rhs.WellRead) (hleaf : rhs.isLeaf = true) (position : Position) :
    (operation .multiply lhs rhs (.clean position)).WellRead :=
  ⟨⟨hl.canonical, hs, hleaf⟩,
    by simp [preorder, Node.problem?, mark, hl.unreported, hr.unreported]⟩

/-- The product that is read was written by its first part and the tokens that are gone. -/
theorem readFactors_ensures {lhs : Expr} (hl : lhs.WellRead) (hs : lhs.isSum = false)
    (lexemes : List Lexeme) :
    (readFactors lhs lexemes).Ensures fun e rest ↦
      e.WellRead ∧ e.isSum = false ∧
        lhs.tokens ++ tokensOf lexemes = e.tokens ++ tokensOf rest := by
  fun_induction readFactors lhs lexemes with
  | case1 lhs => simp [hl, hs]
  | case2 lhs l rest hstar ih =>
    rw [Reads.ensures_past]
    refine (readOperand_ensures rest).andThen ?_
    rintro r ⟨hleaf, hr, htokens⟩ t ht
    have h := ih r (hl.multiply hs hr hleaf l.position) rfl t ht
    refine ⟨h.1, h.2.1, ?_⟩
    rw [← h.2.2, tokensOf_cons, htokens, hstar]
    simp [tokens, Operator.symbol]
  | case3 lhs l rest hstar => simp [hl, hs]

/-- A product that is read was written by the tokens that are gone. -/
theorem readProduct_ensures (lexemes : List Lexeme) :
    (readProduct lexemes).Ensures fun e rest ↦
      e.WellRead ∧ e.isSum = false ∧ tokensOf lexemes = e.tokens ++ tokensOf rest := by
  refine (readOperand_ensures lexemes).andThen ?_
  rintro r ⟨hleaf, hr, htokens⟩
  rw [htokens]
  exact readFactors_ensures hr (isSum_of_isLeaf hleaf) r.rest

/-- A token writes an operator of sums exactly when it is its symbol. -/
theorem sumOperator?_eq_some_iff {t : Token} {op : Operator} :
    sumOperator? t = some op ↔ t = .symbol op.symbol ∧ op ≠ .multiply := by
  constructor
  · intro h
    unfold sumOperator? at h
    split at h <;> cases h <;> exact ⟨rfl, nofun⟩
  · rintro ⟨rfl, h⟩
    cases op with
    | add => rfl
    | subtract => rfl
    | multiply => exact absurd rfl h

private theorem WellRead.sum {lhs rhs : Expr} {op : Operator} (hop : op ≠ .multiply)
    (hl : lhs.WellRead) (hr : rhs.WellRead) (hs : rhs.isSum = false) (position : Position) :
    (operation op lhs rhs (.clean position)).WellRead := by
  refine ⟨?_, by simp [preorder, Node.problem?, mark, hl.unreported, hr.unreported]⟩
  cases op with
  | add => exact ⟨hl.canonical, hr.canonical, hs⟩
  | subtract => exact ⟨hl.canonical, hr.canonical, hs⟩
  | multiply => exact absurd rfl hop

/-- The sum that is read was written by its first part and the tokens that are gone. -/
theorem readTerms_ensures {lhs : Expr} (hl : lhs.WellRead) (lexemes : List Lexeme) :
    (readTerms lhs lexemes).Ensures fun e rest ↦
      e.WellRead ∧ lhs.tokens ++ tokensOf lexemes = e.tokens ++ tokensOf rest := by
  fun_induction readTerms lhs lexemes with
  | case1 lhs => simp [hl]
  | case2 lhs l rest op hop ih =>
    rw [Reads.ensures_past]
    refine (readProduct_ensures rest).andThen ?_
    rintro r ⟨hr, hs, htokens⟩ t ht
    have hl' := sumOperator?_eq_some_iff.mp hop
    have h := ih r (hl.sum hl'.2 hr hs l.position) t ht
    refine ⟨h.1, ?_⟩
    rw [← h.2, tokensOf_cons, htokens, hl'.1]
    simp [tokens]
  | case3 lhs l rest hop => simp [hl]

/-- An expression that is read was written by the tokens that are gone. -/
theorem read_ensures (lexemes : List Lexeme) :
    (read lexemes).Ensures fun e rest ↦
      e.WellRead ∧ tokensOf lexemes = e.tokens ++ tokensOf rest := by
  refine (readProduct_ensures lexemes).andThen ?_
  rintro r ⟨hr, hs, htokens⟩
  rw [htokens]
  exact readTerms_ensures hr r.rest

/-! ### What is written is read -/

/-- A leaf that is written is read, up to its mark. -/
theorem readOperand_achieves {e : Expr} (he : e.isLeaf = true) {lexemes : List Lexeme}
    {following : List Token} (h : tokensOf lexemes = e.tokens ++ following) :
    (readOperand lexemes).Achieves fun e' rest ↦ e'.bare = e.bare ∧ tokensOf rest = following := by
  cases e with
  | literal value m =>
    rcases exists_of_tokensOf_eq_cons h with ⟨l, rest, rfl, hl, hrest⟩
    have hread : ofLexeme? l = some (literal value (.clean l.position)) := by
      unfold ofLexeme?
      rcases value with ⟨_ | _⟩ | _ | _ | _ | _ <;> rw [hl] <;> rfl
    simp [readOperand, hread, bare, hrest]
  | reference name m =>
    rcases exists_of_tokensOf_eq_cons h with ⟨l, rest, rfl, hl, hrest⟩
    have hread : ofLexeme? l = some (reference name (.clean l.position)) := by
      unfold ofLexeme?
      rw [hl]
    simp [readOperand, hread, bare, hrest]
  | operation op lhs rhs m => cases he

/-- The first part of a product is the whole of it, unless a `*` follows. -/
theorem readFactors_eq_done {lhs : Expr} {lexemes : List Lexeme}
    (h : (tokensOf lexemes).head? ≠ some (.symbol .star)) :
    readFactors lhs lexemes = .done lhs := by
  cases lexemes with
  | nil => rw [readFactors]
  | cons l rest =>
    have hl : l.token ≠ .symbol .star := by simpa using h
    rw [readFactors, if_neg hl]

/-- The first part of a sum is the whole of it, unless a `+` or a `-` follows. -/
theorem readTerms_eq_done {lhs : Expr} {lexemes : List Lexeme}
    (h : ∀ op, (tokensOf lexemes).head? ≠ some (.symbol (Operator.symbol op))) :
    readTerms lhs lexemes = .done lhs := by
  cases lexemes with
  | nil => rw [readTerms]
  | cons l rest =>
    have hl : sumOperator? l.token = none := by
      rw [Option.eq_none_iff_forall_ne_some]
      intro op hop
      exact h op (by simp [(sumOperator?_eq_some_iff.mp hop).1])
    rw [readTerms, hl]

-- Reading a product comes to the same as going on from the product of its first operands. The
-- induction is on the tree, whose last operator is read last, so it needs the statement for all
-- that may follow.
private theorem readProduct_achieves_of_factors {e : Expr} (he : e.Canonical)
    (hs : e.isSum = false) {Q : Expr → List Lexeme → Prop} {lexemes : List Lexeme}
    {following : List Token} (h : tokensOf lexemes = e.tokens ++ following)
    (hnext : ∀ e' rest, e'.bare = e.bare → tokensOf rest = following →
      (readFactors e' rest).Achieves Q) : (readProduct lexemes).Achieves Q := by
  induction e generalizing lexemes following with
  | literal value m =>
    apply (readOperand_achieves rfl h).andThen
    rintro r ⟨hbare, hrest⟩
    exact hnext r.value r.rest hbare hrest
  | reference name m =>
    apply (readOperand_achieves rfl h).andThen
    rintro r ⟨hbare, hrest⟩
    exact hnext r.value r.rest hbare hrest
  | operation op lhs rhs m ihl ihr =>
    cases op with
    | add => cases hs
    | subtract => cases hs
    | multiply =>
      rw [tokens, List.append_assoc, List.cons_append] at h
      apply ihl he.1 he.2.1 h
      intro lhs' rest hlhs hrest
      rcases exists_of_tokensOf_eq_cons hrest with ⟨l, rest, rfl, hl, hrest⟩
      rw [Operator.symbol] at hl
      rw [readFactors, if_pos hl, Reads.achieves_past]
      apply (readOperand_achieves he.2.2 hrest).andThen
      rintro r ⟨hbare, hrest⟩
      exact hnext _ r.rest (by rw [bare, bare, hlhs, hbare]) hrest

/-- A canonical product that is written is read, up to marks, unless a `*` follows. -/
theorem readProduct_achieves {e : Expr} (he : e.Canonical) (hs : e.isSum = false)
    {lexemes : List Lexeme} {following : List Token}
    (h : tokensOf lexemes = e.tokens ++ following)
    (hstop : following.head? ≠ some (.symbol .star)) :
    (readProduct lexemes).Achieves fun e' rest ↦ e'.bare = e.bare ∧ tokensOf rest = following := by
  apply readProduct_achieves_of_factors he hs h
  intro e' rest hbare hrest
  rw [readFactors_eq_done (by rwa [hrest]), Reads.achieves_done]
  exact ⟨hbare, hrest⟩

private theorem Canonical.of_sum {op : Operator} (hop : op ≠ .multiply) {lhs rhs : Expr} {m : Mark}
    (h : (operation op lhs rhs m).Canonical) :
    lhs.Canonical ∧ rhs.Canonical ∧ rhs.isSum = false := by
  cases op with
  | add => exact h
  | subtract => exact h
  | multiply => exact absurd rfl hop

private theorem read_achieves_of_product {e : Expr} (he : e.Canonical) (hs : e.isSum = false)
    {Q : Expr → List Lexeme → Prop} {lexemes : List Lexeme} {following : List Token}
    (h : tokensOf lexemes = e.tokens ++ following)
    (hstop : following.head? ≠ some (.symbol .star))
    (hnext : ∀ e' rest, e'.bare = e.bare → tokensOf rest = following →
      (readTerms e' rest).Achieves Q) : (read lexemes).Achieves Q := by
  apply (readProduct_achieves he hs h hstop).andThen
  rintro r ⟨hbare, hrest⟩
  exact hnext r.value r.rest hbare hrest

-- The same for a sum and its first products; each of these ends where an operator of sums follows.
private theorem read_achieves_of_terms {e : Expr} (he : e.Canonical)
    {Q : Expr → List Lexeme → Prop} {lexemes : List Lexeme} {following : List Token}
    (h : tokensOf lexemes = e.tokens ++ following)
    (hstop : following.head? ≠ some (.symbol .star))
    (hnext : ∀ e' rest, e'.bare = e.bare → tokensOf rest = following →
      (readTerms e' rest).Achieves Q) : (read lexemes).Achieves Q := by
  induction e generalizing lexemes following with
  | literal value m => exact read_achieves_of_product he rfl h hstop hnext
  | reference name m => exact read_achieves_of_product he rfl h hstop hnext
  | operation op lhs rhs m ihl ihr =>
    by_cases hop : op = .multiply
    · subst hop
      exact read_achieves_of_product he rfl h hstop hnext
    · have hparts := he.of_sum hop
      rw [tokens, List.append_assoc, List.cons_append] at h
      apply ihl hparts.1 h
      · cases op with
        | add => simp [Operator.symbol]
        | subtract => simp [Operator.symbol]
        | multiply => exact absurd rfl hop
      · intro lhs' rest hlhs hrest
        rcases exists_of_tokensOf_eq_cons hrest with ⟨l, rest, rfl, hl, hrest⟩
        have hread : sumOperator? l.token = some op := sumOperator?_eq_some_iff.mpr ⟨hl, hop⟩
        rw [readTerms, hread, Reads.achieves_past]
        apply (readProduct_achieves hparts.2.1 hparts.2.2 hrest hstop).andThen
        rintro r ⟨hbare, hrest⟩
        exact hnext _ r.rest (by rw [bare, bare, hlhs, hbare]) hrest

/-- A canonical expression that is written is read, up to marks, unless an operator follows. -/
theorem read_achieves {e : Expr} (he : e.Canonical) {lexemes : List Lexeme}
    {following : List Token} (h : tokensOf lexemes = e.tokens ++ following)
    (hstop : ∀ op, following.head? ≠ some (.symbol (Operator.symbol op))) :
    (read lexemes).Achieves fun e' rest ↦ e'.bare = e.bare ∧ tokensOf rest = following := by
  apply read_achieves_of_terms he h (hstop .multiply)
  intro e' rest hbare hrest
  rw [readTerms_eq_done (by rwa [hrest]), Reads.achieves_done]
  exact ⟨hbare, hrest⟩

end Expr

end FlatSheet
