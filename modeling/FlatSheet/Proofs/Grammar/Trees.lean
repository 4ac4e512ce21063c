import FlatSheet.Proofs.Grammar.Canonical

/-!
# The grammar derives what canonical trees write

One direction is by recursion on trees and holds of all of them, for the grammar does not say how
operations group. In the other, a derivation is turned into a tree from below: `Expr.joined` puts an
operator between two canonical expressions and moves it down the right one to where its strength
places it.
-/

namespace FlatSheet

open Grammar (Category Derives)

/-! ### From trees to derivations -/

/-- A value is derived. -/
theorem Literal.derives (v : Literal) : Derives .literal [v.token] := by
  rcases v with ⟨_ | _⟩ | _ | _ | _ | _ <;> constructor

/-- An operator joins two expressions. -/
theorem Grammar.Derives.joined {a b : List Token} (op : Operator) (ha : Derives .expression a)
    (hb : Derives .expression b) : Derives .expression (a ++ .symbol op.symbol :: b) := by
  cases op with
  | add => exact .sum ha hb
  | subtract => exact .difference ha hb
  | multiply => exact .product ha hb

/-- An expression is derived, however its operations group. -/
theorem Expr.derives (e : Expr) : Derives .expression e.tokens := by
  induction e with
  | literal value m => exact .literal value.derives
  | reference name m => exact .reference name
  | operation op lhs rhs m ihl ihr => exact ihl.joined op ihr

/-- The items of a block are derived. -/
theorem Block.derives (b : Block) : Derives .items b.tokens := by
  induction b with
  | empty => exact .noItems
  | declaration d rest ih => exact .declarationItem (.declaration d.property d.value.derives) ih
  | assignment a rest ih => exact .assignmentItem (.assignment a.name a.value.derives) ih
  | ifThen c body m rest ihBody ih =>
    have h := Derives.conditionalItem (.ifThen c.derives ihBody) ih
    simpa [tokens, Expr.conditionTokens] using h
  | ifElse c body m other om rest ihBody ihOther ih =>
    have h := Derives.conditionalItem (.ifElse c.derives ihBody (.otherwise ihOther)) ih
    simpa [tokens, Expr.conditionTokens] using h

/-- Each token that writes a selector is derived. -/
theorem Selector.derives {s : Selector} {t : Token} (h : t ∈ s.tokens) : Derives .selector [t] := by
  cases s with
  | tag text =>
    rw [List.mem_singleton.mp h]
    exact .tag text
  | cls text =>
    rw [List.mem_singleton.mp h]
    exact .cls text
  | id text =>
    rcases List.mem_cons.mp h with rfl | h
    · exact .id text
    · rw [List.mem_singleton.mp h]
      exact .colorId text

/-- At least one selector is derived. -/
theorem Selector.Write.derives {selectors : List Selector} {ts : List Token}
    (h : Write selectors ts) (hs : selectors ≠ []) : Derives .selectors ts := by
  induction h with
  | nil => exact absurd rfl hs
  | @cons s t selectors ts ht hw ih =>
    cases hw with
    | nil => exact .lastSelector (Selector.derives ht)
    | cons => exact .moreSelectors (Selector.derives ht) (ih (List.cons_ne_nil _ _))

/-- Members are derived, if each rule has a selector. -/
theorem Member.Write.derives {members : List Member} {ts : List Token} (h : Write members ts)
    (hm : ∀ m ∈ members, m.Canonical) : Derives .sheet ts := by
  induction h with
  | nil => exact .noMembers
  | @cons m members a b ha hb ih =>
    have hfirst := (List.forall_mem_cons.mp hm).1
    have hothers := (List.forall_mem_cons.mp hm).2
    cases m with
    | rule r =>
      rcases ha with ⟨head, hhead, rfl⟩
      exact .ruleMember (.rule (hhead.derives hfirst.1) r.body.derives) (ih hothers)
    | assignment x =>
      subst ha
      exact .assignmentMember (.assignment x.name x.value.derives) (ih hothers)

/-! ### Joining canonical expressions -/

namespace Expr

/-- A canonical expression times a leaf, which goes to the last product of a sum. -/
def timesLeaf (leaf : Expr) : Expr → Expr
  | operation .add a b m => operation .add a (operation .multiply b leaf (.clean .unknown)) m
  | operation .subtract a b m =>
    operation .subtract a (operation .multiply b leaf (.clean .unknown)) m
  | e => operation .multiply e leaf (.clean .unknown)

/-- The canonical expression that is written as two canonical ones with an operator between them. -/
def joined (op : Operator) (lhs : Expr) : Expr → Expr
  | operation .multiply a b _ => timesLeaf b (joined op lhs a)
  | operation inner a b m => operation inner (joined op lhs a) b m
  | leaf => if op = .multiply then timesLeaf leaf lhs else operation op lhs leaf (.clean .unknown)

private theorem tokens_timesLeaf (leaf e : Expr) :
    (timesLeaf leaf e).tokens = e.tokens ++ .symbol .star :: leaf.tokens := by
  fun_cases timesLeaf leaf e <;> simp [tokens, Operator.symbol]

private theorem canonical_timesLeaf {leaf e : Expr} (he : e.Canonical)
    (hl : leaf.isLeaf = true) : (timesLeaf leaf e).Canonical := by
  cases e with
  | literal value m => exact ⟨he, rfl, hl⟩
  | reference name m => exact ⟨he, rfl, hl⟩
  | operation op a b m =>
    cases op with
    | add => exact ⟨he.1, ⟨he.2.1, he.2.2, hl⟩, rfl⟩
    | subtract => exact ⟨he.1, ⟨he.2.1, he.2.2, hl⟩, rfl⟩
    | multiply => exact ⟨he, rfl, hl⟩

private theorem tokens_joined (op : Operator) (lhs rhs : Expr) :
    (joined op lhs rhs).tokens = lhs.tokens ++ .symbol op.symbol :: rhs.tokens := by
  induction rhs with
  | literal value m =>
    cases op with
    | add => rfl
    | subtract => rfl
    | multiply => exact tokens_timesLeaf (literal value m) lhs
  | reference name m =>
    cases op with
    | add => rfl
    | subtract => rfl
    | multiply => exact tokens_timesLeaf (reference name m) lhs
  | operation inner a b m iha ihb =>
    cases inner with
    | add => simp [joined, tokens, iha]
    | subtract => simp [joined, tokens, iha]
    | multiply => simp [joined, tokens_timesLeaf, tokens, iha, Operator.symbol]

private theorem canonical_joined (op : Operator) {lhs rhs : Expr} (hl : lhs.Canonical)
    (hr : rhs.Canonical) : (joined op lhs rhs).Canonical := by
  induction rhs with
  | literal value m =>
    cases op with
    | add => exact ⟨hl, hr, rfl⟩
    | subtract => exact ⟨hl, hr, rfl⟩
    | multiply => exact canonical_timesLeaf hl rfl
  | reference name m =>
    cases op with
    | add => exact ⟨hl, hr, rfl⟩
    | subtract => exact ⟨hl, hr, rfl⟩
    | multiply => exact canonical_timesLeaf hl rfl
  | operation inner a b m iha ihb =>
    cases inner with
    | add => exact ⟨iha hr.1, hr.2⟩
    | subtract => exact ⟨iha hr.1, hr.2⟩
    | multiply => exact canonical_timesLeaf (iha hr.1) hr.2.2

/-- Two canonical expressions with an operator between them are written as one canonical
expression. -/
theorem exists_joined (op : Operator) {lhs rhs : Expr} (hl : lhs.Canonical) (hr : rhs.Canonical) :
    ∃ e : Expr, e.Canonical ∧ e.tokens = lhs.tokens ++ .symbol op.symbol :: rhs.tokens :=
  ⟨joined op lhs rhs, canonical_joined op hl hr, tokens_joined op lhs rhs⟩

end Expr

/-! ### From derivations to trees -/

@[simp] theorem Block.tokens_append (a b : Block) : (a ++ b).tokens = a.tokens ++ b.tokens := by
  induction a <;> simp_all [tokens]

/-- The items of canonical blocks are those of a canonical block. -/
theorem Block.Canonical.append {a b : Block} (ha : a.Canonical) (hb : b.Canonical) :
    (a ++ b).Canonical := by
  induction a with
  | empty => exact hb
  | declaration d rest ih => exact ⟨ha.1, ih ha.2⟩
  | assignment x rest ih => exact ⟨ha.1, ih ha.2⟩
  | ifThen c body m rest ihBody ih => exact ⟨ha.1, ha.2.1, ih ha.2.2⟩
  | ifElse c body m other om rest ihBody ihOther ih =>
    exact ⟨ha.1, ha.2.1, ha.2.2.1, ih ha.2.2.2⟩

/-- Some canonical tree of a category is written in a list of tokens. A conditional is a block of
one item. -/
def Grammar.Category.Written : Category → List Token → Prop
  | sheet, ts => ∃ s : Sheet, s.Canonical ∧ s.Writes ts
  | rule, ts => ∃ r : Rule, (Member.rule r).Canonical ∧ r.Writes ts
  | selectors, ts => ∃ selectors, selectors ≠ [] ∧ Selector.Write selectors ts
  | selector, ts => ∃ (s : Selector) (t : Token), t ∈ s.tokens ∧ ts = [t]
  | items, ts => ∃ b : Block, b.Canonical ∧ b.tokens = ts
  | declaration, ts => ∃ d : Declaration, d.value.Canonical ∧ d.tokens = ts
  | assignment, ts => ∃ a : Assignment, a.value.Canonical ∧ a.tokens = ts
  | conditional, ts => ∃ b : Block, b.Canonical ∧ b.tokens = ts
  | otherwise, ts => ∃ b : Block, b.Canonical ∧
      ts = .symbol .elseWord :: .symbol .openBrace :: (b.tokens ++ [.symbol .closeBrace])
  | expression, ts => ∃ e : Expr, e.Canonical ∧ e.tokens = ts
  | literal, ts => ∃ v : Literal, [v.token] = ts

/-- What is derived is written by a canonical tree. -/
theorem Grammar.Derives.written {c : Category} {ts : List Token} (h : Derives c ts) :
    c.Written ts := by
  induction h with
  | noMembers => exact ⟨.ofMembers [], nofun, .nil⟩
  | ruleMember _ _ iha ihb =>
    rcases iha with ⟨r, hr, hwr⟩
    rcases ihb with ⟨s, hs, hws⟩
    exact ⟨.ofMembers (.rule r :: s.members), List.forall_mem_cons.mpr ⟨hr, hs⟩, .cons hwr hws⟩
  | assignmentMember _ _ iha ihb =>
    rcases iha with ⟨x, hx, rfl⟩
    rcases ihb with ⟨s, hs, hws⟩
    exact ⟨.ofMembers (.assignment x :: s.members), List.forall_mem_cons.mpr ⟨hx, hs⟩,
      .cons rfl hws⟩
  | rule _ _ iha ihb =>
    rcases iha with ⟨selectors, hne, hw⟩
    rcases ihb with ⟨body, hbody, rfl⟩
    exact ⟨⟨selectors, body, .clean .unknown⟩, ⟨hne, hbody⟩, _, hw, rfl⟩
  | lastSelector _ iha =>
    rcases iha with ⟨s, t, ht, rfl⟩
    exact ⟨[s], List.cons_ne_nil _ _, .cons ht .nil⟩
  | moreSelectors _ _ iha ihb =>
    rcases iha with ⟨s, t, ht, rfl⟩
    rcases ihb with ⟨selectors, hne, hw⟩
    exact ⟨s :: selectors, List.cons_ne_nil _ _, .cons ht hw⟩
  | tag name => exact ⟨.tag name, _, List.mem_singleton.mpr rfl, rfl⟩
  | cls text => exact ⟨.cls text, _, List.mem_singleton.mpr rfl, rfl⟩
  | id text => exact ⟨.id text, _, List.mem_cons_self, rfl⟩
  | colorId text => exact ⟨.id text, _, List.mem_cons_of_mem _ (List.mem_singleton.mpr rfl), rfl⟩
  | noItems => exact ⟨.empty, trivial, rfl⟩
  | declarationItem _ _ iha ihb =>
    rcases iha with ⟨d, hd, rfl⟩
    rcases ihb with ⟨b, hb, rfl⟩
    exact ⟨.declaration d b, ⟨hd, hb⟩, rfl⟩
  | assignmentItem _ _ iha ihb =>
    rcases iha with ⟨a, ha, rfl⟩
    rcases ihb with ⟨b, hb, rfl⟩
    exact ⟨.assignment a b, ⟨ha, hb⟩, rfl⟩
  | conditionalItem _ _ iha ihb =>
    rcases iha with ⟨a, ha, rfl⟩
    rcases ihb with ⟨b, hb, rfl⟩
    exact ⟨a ++ b, ha.append hb, Block.tokens_append a b⟩
  | declaration name _ ihe =>
    rcases ihe with ⟨e, he, rfl⟩
    exact ⟨⟨name, e, .clean .unknown⟩, he, rfl⟩
  | assignment name _ ihe =>
    rcases ihe with ⟨e, he, rfl⟩
    exact ⟨⟨name, e, .clean .unknown⟩, he, rfl⟩
  | ifThen _ _ ihc ihb =>
    rcases ihc with ⟨c, hc, rfl⟩
    rcases ihb with ⟨b, hb, rfl⟩
    exact ⟨.ifThen c b (.clean .unknown) .empty, ⟨hc, hb, trivial⟩,
      by simp [Block.tokens, Expr.conditionTokens]⟩
  | ifElse _ _ _ ihc ihb iho =>
    rcases ihc with ⟨c, hc, rfl⟩
    rcases ihb with ⟨b, hb, rfl⟩
    rcases iho with ⟨o, ho, rfl⟩
    exact ⟨.ifElse c b (.clean .unknown) o (.clean .unknown) .empty, ⟨hc, hb, ho, trivial⟩,
      by simp [Block.tokens, Expr.conditionTokens]⟩
  | otherwise _ ihb =>
    rcases ihb with ⟨b, hb, rfl⟩
    exact ⟨b, hb, rfl⟩
  | literal _ ihl =>
    rcases ihl with ⟨v, rfl⟩
    exact ⟨.literal v (.clean .unknown), trivial, rfl⟩
  | reference name => exact ⟨.reference name (.clean .unknown), trivial, rfl⟩
  | sum _ _ iha ihb =>
    rcases iha with ⟨a, ha, rfl⟩
    rcases ihb with ⟨b, hb, rfl⟩
    exact Expr.exists_joined .add ha hb
  | difference _ _ iha ihb =>
    rcases iha with ⟨a, ha, rfl⟩
    rcases ihb with ⟨b, hb, rfl⟩
    exact Expr.exists_joined .subtract ha hb
  | product _ _ iha ihb =>
    rcases iha with ⟨a, ha, rfl⟩
    rcases ihb with ⟨b, hb, rfl⟩
    exact Expr.exists_joined .multiply ha hb
  | color text => exact ⟨.color text, rfl⟩
  | pixels n => exact ⟨.pixels n, rfl⟩
  | percentage n => exact ⟨.percentage n, rfl⟩
  | scalar n => exact ⟨.scalar n, rfl⟩
  | trueWord => exact ⟨.bool true, rfl⟩
  | falseWord => exact ⟨.bool false, rfl⟩

/-- The sentences of the grammar are what canonical sheets write. -/
theorem derives_sheet_iff {ts : List Token} :
    Derives .sheet ts ↔ ∃ s : Sheet, s.Canonical ∧ s.Writes ts := by
  constructor
  · intro h
    exact h.written
  · rintro ⟨s, hs, hw⟩
    exact hw.derives hs

end FlatSheet
