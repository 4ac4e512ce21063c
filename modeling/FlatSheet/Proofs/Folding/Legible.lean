import FlatSheet.Proofs.Folding.Flat
import FlatSheet.Proofs.Folding.Outcome
import FlatSheet.Proofs.Folding.Resolved
import FlatSheet.Proofs.Reading.Sheets
import FlatSheet.Proofs.Sheet.Preorder
import FlatSheet.Proofs.Token.Spelling

/-!
# What flattening leaves can be spelled

A value is legible if its token is spelled, unless it is a negative number. The values of a sheet
that was read are legible, and arithmetic gives numbers only, so whatever flattening leaves of the
sheet is made of spelled names and legible values.
-/

namespace FlatSheet

/-! ### Legible values -/

namespace Literal

/-- No number below zero. -/
def NonNegative : Literal → Prop
  | pixels n => 0 ≤ n.value
  | percentage n => 0 ≤ n.value
  | scalar n => 0 ≤ n.value
  | _ => True

instance : DecidablePred NonNegative
  | bool _ => inferInstanceAs (Decidable True)
  | color _ => inferInstanceAs (Decidable True)
  | pixels n => inferInstanceAs (Decidable (0 ≤ n.value))
  | percentage n => inferInstanceAs (Decidable (0 ≤ n.value))
  | scalar n => inferInstanceAs (Decidable (0 ≤ n.value))

/-- The token of a value is spelled, unless the value is a negative number. -/
def Legible (v : Literal) : Prop := v.NonNegative → v.token.Spelled

/-- Only a color may be illegible. -/
theorem legible_of_type {v : Literal} (h : v.type ≠ .color) : v.Legible := by
  intro nonNegative
  cases v with
  | bool b => cases b <;> exact Token.spelled_symbol _
  | color t => exact absurd rfl h
  | pixels n => exact ⟨_, Token.spelledAs_number rfl nonNegative .pixels⟩
  | percentage n => exact ⟨_, Token.spelledAs_number rfl nonNegative .percentage⟩
  | scalar n => exact ⟨_, Token.spelledAs_number rfl nonNegative .scalar⟩

end Literal

/-- The result of an operation is a number. -/
theorem Operator.legible_apply {op : Operator} {lhs rhs v : Literal} (h : op.apply lhs rhs = .ok v) :
    v.Legible := by
  obtain ⟨left, right, result⟩ := typeOf_eq_ok (typeOf_of_apply h)
  apply Literal.legible_of_type
  by_cases product : op = .multiply
  · rw [if_pos product] at result
    obtain ⟨-, same⟩ | ⟨-, same⟩ := result
    · rw [same]
      exact right.1
    · rw [same]
      exact left.1
  · rw [if_neg product] at result
    rw [result.2]
    exact left.1

/-- Every value that is bound is legible. -/
def Environment.Legible (env : Environment Literal) : Prop :=
  ∀ name v, env name = some v → v.Legible

/-- To bind a legible value keeps an environment legible. -/
theorem Environment.Legible.bind {env : Environment Literal} (h : env.Legible) (name : String)
    {v : Literal} (hv : v.Legible) : (Environment.bind env name v).Legible := by
  intro other found hfound
  unfold Environment.bind at hfound
  split at hfound
  · cases hfound
    exact hv
  · exact h other found hfound

/-- The value of an expression of spelled tokens is legible. -/
theorem Expr.legible_valueIn {e : Expr} {env : Environment Literal} {v : Literal}
    (spelled : ∀ t ∈ e.tokens, t.Spelled) (henv : env.Legible) (h : e.valueIn env = .ok v) :
    v.Legible := by
  cases e with
  | literal value m =>
    cases h
    intro _
    exact spelled _ List.mem_cons_self
  | reference name m =>
    unfold valueIn at h
    split at h
    · next found =>
      cases h
      exact henv name v found
    · cases h
  | operation op lhs rhs m =>
    -- Whatever the operands are, arithmetic makes no color.
    unfold valueIn at h
    cases hl : lhs.valueIn env with
    | error e =>
      rw [hl] at h
      cases h
    | ok l =>
      cases hr : rhs.valueIn env with
      | error e =>
        rw [hl, hr] at h
        cases h
      | ok r =>
        rw [hl, hr] at h
        exact Operator.legible_apply h

/-! ### Plain rules -/

/-- A declaration of a legible value with a spelled property, and with nothing wrong. -/
structure Declaration.Plain (d : Declaration) : Prop where
  property : (Token.identifier d.property).Spelled
  value : ∃ v position, d.value = .literal v (.clean position) ∧ v.Legible
  mark : d.mark.problem = none

/-- A rule of spelled selectors and plain declarations, with nothing wrong. -/
structure Rule.Plain (r : Rule) : Prop where
  selected : r.selectors ≠ []
  selectors : ∃ head, Selector.Write r.selectors head ∧ ∀ t ∈ head, t.Spelled
  body : ∃ declarations, r.body = .ofDeclarations declarations ∧ ∀ d ∈ declarations, d.Plain
  mark : r.mark.problem = none

/-- A sheet of plain rules, with nothing wrong. -/
def Sheet.Plain (s : Sheet) : Prop :=
  ∃ rules : List Rule, s = .ofMembers (rules.map .rule) ∧ ∀ r ∈ rules, r.Plain

/-- What is kept of a declaration of spelled tokens is plain. -/
theorem Declaration.plain_resolve {d : Declaration} {env : Environment Literal}
    (spelled : ∀ t ∈ d.tokens, t.Spelled) (mark : d.mark.problem = none) (henv : env.Legible) :
    ∀ kept ∈ (d.resolve env).kept, kept.Plain := by
  simp only [tokens, List.forall_mem_cons, List.forall_mem_append] at spelled
  obtain ⟨property, -, value, -⟩ := spelled
  unfold resolve
  split
  · next v hv =>
    intro kept hkept
    rw [List.mem_singleton.mp hkept]
    exact ⟨property, ⟨v, _, rfl, Expr.legible_valueIn value henv hv⟩, mark⟩
  · exact List.forall_mem_nil _

/-- What is kept of a block of spelled tokens is plain. -/
theorem Block.plain_resolve {b : Block} {env : Environment Literal}
    (spelled : ∀ t ∈ b.tokens, t.Spelled) (unreported : Unreported b.preorder)
    (henv : env.Legible) : ∀ kept ∈ (b.resolve env).kept, kept.Plain := by
  -- The items after an assignment see a larger environment, which is legible again.
  induction b generalizing env with
  | empty => exact List.forall_mem_nil _
  | declaration d rest ih =>
    obtain ⟨first, others⟩ := List.forall_mem_append.mp spelled
    simp only [preorder, unreported_cons, unreported_append] at unreported
    obtain ⟨mark, -, clean⟩ := unreported
    exact List.forall_mem_append.mpr ⟨d.plain_resolve first mark henv, ih others clean henv⟩
  | assignment a rest ih =>
    obtain ⟨first, others⟩ := List.forall_mem_append.mp spelled
    simp only [Assignment.tokens, List.forall_mem_cons, List.forall_mem_append] at first
    simp only [preorder, unreported_cons, unreported_append] at unreported
    obtain ⟨-, -, clean⟩ := unreported
    unfold resolve
    split
    · next v hv =>
      have value : v.Legible := Expr.legible_valueIn first.2.2.1 henv hv
      exact ih others clean (henv.bind a.name value)
    · exact ih others clean henv
  | ifThen c body m rest ihBody ih =>
    simp only [tokens, List.forall_mem_cons, List.forall_mem_append] at spelled
    obtain ⟨-, -, inBody, -, others⟩ := spelled
    simp only [preorder, unreported_cons, unreported_append] at unreported
    obtain ⟨-, ⟨-, cleanBody⟩, clean⟩ := unreported
    unfold resolve
    refine List.forall_mem_append.mpr ⟨?_, ih others clean henv⟩
    split
    · exact ihBody inBody cleanBody henv
    · exact List.forall_mem_nil _
    · exact List.forall_mem_nil _
    · exact List.forall_mem_nil _
  | ifElse c body m other om rest ihBody ihOther ih =>
    simp only [tokens, List.forall_mem_cons, List.forall_mem_append] at spelled
    obtain ⟨-, -, inBody, -, -, -, inOther, -, others⟩ := spelled
    simp only [preorder, unreported_cons, unreported_append] at unreported
    obtain ⟨-, ⟨⟨-, cleanBody⟩, -, cleanOther⟩, clean⟩ := unreported
    unfold resolve
    refine List.forall_mem_append.mpr ⟨?_, ih others clean henv⟩
    split
    · exact ihBody inBody cleanBody henv
    · exact ihOther inOther cleanOther henv
    · exact List.forall_mem_nil _
    · exact List.forall_mem_nil _

/-- What is kept of members of spelled tokens is plain. -/
theorem Sheet.plain_resolveMembers {members : List Member} {ts : List Token}
    (h : Member.Write members ts) (spelled : ∀ t ∈ ts, t.Spelled)
    (canonical : ∀ m ∈ members, m.Canonical)
    (unreported : Unreported (members.flatMap Member.preorder)) {env : Environment Literal}
    (henv : env.Legible) : ∀ kept ∈ (resolveMembers members env).kept, kept.Plain := by
  induction h generalizing env with
  | nil => exact List.forall_mem_nil _
  | @cons m members a b first _ ih =>
    obtain ⟨spelledFirst, spelledOthers⟩ := List.forall_mem_append.mp spelled
    obtain ⟨canonicalFirst, canonicalOthers⟩ := List.forall_mem_cons.mp canonical
    rw [List.flatMap_cons, unreported_append] at unreported
    obtain ⟨cleanFirst, cleanOthers⟩ := unreported
    cases m with
    | rule r =>
      obtain ⟨head, selectors, rfl⟩ := first
      simp only [List.forall_mem_append, List.forall_mem_cons] at spelledFirst
      obtain ⟨spelledHead, -, spelledBody, -⟩ := spelledFirst
      simp only [Member.preorder, unreported_cons, unreported_append] at cleanFirst
      obtain ⟨-, -, cleanBody⟩ := cleanFirst
      have body := r.body.plain_resolve spelledBody cleanBody henv
      have kept : Rule.Plain
          ⟨r.selectors, .ofDeclarations (r.body.resolve env).kept, .clean r.mark.position⟩ :=
        ⟨canonicalFirst.1, ⟨head, selectors, spelledHead⟩, ⟨_, rfl, body⟩, rfl⟩
      exact List.forall_mem_cons.mpr ⟨kept, ih spelledOthers canonicalOthers cleanOthers henv⟩
    | assignment x =>
      cases first
      simp only [Assignment.tokens, List.forall_mem_cons, List.forall_mem_append] at spelledFirst
      unfold resolveMembers
      split
      · next v hv =>
        have value : v.Legible := Expr.legible_valueIn spelledFirst.2.2.1 henv hv
        exact ih spelledOthers canonicalOthers cleanOthers (henv.bind x.name value)
      · exact ih spelledOthers canonicalOthers cleanOthers henv

/-- A sheet that is read from spelled tokens is flattened to a plain one, if the values that are in
scope are legible. -/
theorem Sheet.plain_flatten {s flat : Sheet} {lexemes : List Lexeme} {scopes : ValueScopes}
    (read : ofLexemes lexemes = .ok s) (spelled : ∀ t ∈ tokensOf lexemes, t.Spelled)
    (legible : Environment.Legible scopes.lookup) (h : (s.flatten scopes).1 = .ok flat) :
    flat.Plain := by
  obtain ⟨clean, canonical, writes⟩ := ofLexemes_sound read
  rw [diagnostics_eq_nil_iff, preorder, unreported_cons] at clean
  have plain := plain_resolveMembers writes spelled canonical clean.2 legible
  have members := flattenMembers_eq_resolve s.members scopes.push
  rw [Scopes.lookup_push_eq] at members
  rw [flatten, Scopes.enclosed_fst, members] at h
  unfold Findings.outcome at h
  split at h
  · cases h
    refine ⟨_, ?_, plain⟩
    rw [ofMembers, show s.problem = none from clean.1]
  · cases h

/-! ### What is plain -/

/-- The value of a node that is a literal. -/
def Node.literal? : Node → Option Literal
  | expr (.literal v _) => some v
  | _ => none

namespace Block

private theorem isFlat_ofDeclarations {declarations : List Declaration}
    (h : ∀ d ∈ declarations, d.Plain) : (ofDeclarations declarations).IsFlat := by
  induction declarations with
  | nil => trivial
  | cons d declarations ih =>
    obtain ⟨first, others⟩ := List.forall_mem_cons.mp h
    obtain ⟨v, position, value, -⟩ := first.value
    refine ⟨?_, ih others⟩
    rw [value]
    rfl

private theorem unreported_ofDeclarations {declarations : List Declaration}
    (h : ∀ d ∈ declarations, d.Plain) : Unreported (ofDeclarations declarations).preorder := by
  induction declarations with
  | nil => exact unreported_nil
  | cons d declarations ih =>
    obtain ⟨first, others⟩ := List.forall_mem_cons.mp h
    obtain ⟨v, position, value, -⟩ := first.value
    rw [ofDeclarations, preorder, unreported_cons, unreported_append, value]
    refine ⟨first.mark, ?_, ih others⟩
    rw [Expr.preorder, unreported_cons]
    exact ⟨rfl, unreported_nil⟩

private theorem spelled_ofDeclarations {declarations : List Declaration}
    (h : ∀ d ∈ declarations, d.Plain)
    (numbers : ∀ v ∈ (ofDeclarations declarations).preorder.filterMap Node.literal?,
      v.NonNegative) : ∀ t ∈ (ofDeclarations declarations).tokens, t.Spelled := by
  induction declarations with
  | nil => exact List.forall_mem_nil _
  | cons d declarations ih =>
    obtain ⟨first, others⟩ := List.forall_mem_cons.mp h
    obtain ⟨v, position, value, legible⟩ := first.value
    have literals : (ofDeclarations (d :: declarations)).preorder.filterMap Node.literal? =
        v :: (ofDeclarations declarations).preorder.filterMap Node.literal? := by
      rw [ofDeclarations, preorder, value]
      rfl
    rw [literals] at numbers
    obtain ⟨number, numbersOthers⟩ := List.forall_mem_cons.mp numbers
    have rest := ih others numbersOthers
    simp only [ofDeclarations, tokens, Declaration.tokens, value, Expr.tokens,
      List.forall_mem_append, List.forall_mem_cons]
    exact ⟨⟨first.property, Token.spelled_symbol _, ⟨legible number, List.forall_mem_nil _⟩,
      Token.spelled_symbol _, List.forall_mem_nil _⟩, rest⟩

end Block

namespace Sheet

variable {s : Sheet}

/-- A plain sheet is flat. -/
theorem Plain.isFlat (h : s.Plain) : s.IsFlat := by
  obtain ⟨rules, rfl, plain⟩ := h
  intro m hm
  obtain ⟨r, hr, rfl⟩ := List.mem_map.mp hm
  obtain ⟨declarations, body, hdeclarations⟩ := (plain r hr).body
  rw [Member.IsFlat, body]
  exact Block.isFlat_ofDeclarations hdeclarations

/-- A plain sheet is canonical. -/
theorem Plain.canonical (h : s.Plain) : s.Canonical := by
  have flat := h.isFlat
  obtain ⟨rules, rfl, plain⟩ := h
  intro m hm
  have body := flat m hm
  obtain ⟨r, hr, rfl⟩ := List.mem_map.mp hm
  exact ⟨(plain r hr).selected, Block.IsFlat.canonical body⟩

/-- Nothing is wrong with a plain sheet. -/
theorem Plain.diagnostics (h : s.Plain) : s.diagnostics = [] := by
  obtain ⟨rules, rfl, plain⟩ := h
  rw [diagnostics_eq_nil_iff, preorder, unreported_cons]
  refine ⟨rfl, ?_⟩
  intro n hn
  obtain ⟨m, hm, hn⟩ := List.mem_flatMap.mp hn
  obtain ⟨r, hr, rfl⟩ := List.mem_map.mp hm
  obtain ⟨declarations, body, hdeclarations⟩ := (plain r hr).body
  have clean : Unreported (Member.rule r).preorder := by
    rw [Member.preorder, unreported_cons, unreported_append, body]
    exact ⟨(plain r hr).mark, unreported_selectors _, Block.unreported_ofDeclarations hdeclarations⟩
  exact clean n hn

/-- The literals in a sheet, in document order. -/
def literals (s : Sheet) : List Literal := s.nodes.filterMap Node.literal?

/-- Every number in a sheet is at least zero. -/
def NumbersNonNegative (s : Sheet) : Prop := ∀ v ∈ s.literals, v.NonNegative

instance (s : Sheet) : Decidable s.NumbersNonNegative :=
  inferInstanceAs (Decidable (∀ v ∈ s.literals, v.NonNegative))

private theorem exists_spelled {rules : List Rule} (plain : ∀ r ∈ rules, r.Plain)
    (numbers : ∀ r ∈ rules, ∀ v ∈ r.body.preorder.filterMap Node.literal?, v.NonNegative) :
    ∃ ts, Member.Write (rules.map .rule) ts ∧ ∀ t ∈ ts, t.Spelled := by
  induction rules with
  | nil => exact ⟨[], .nil, List.forall_mem_nil _⟩
  | cons r rules ih =>
    obtain ⟨first, others⟩ := List.forall_mem_cons.mp plain
    obtain ⟨numbersFirst, numbersOthers⟩ := List.forall_mem_cons.mp numbers
    obtain ⟨ts, writes, spelled⟩ := ih others numbersOthers
    obtain ⟨head, selectors, spelledHead⟩ := first.selectors
    obtain ⟨declarations, body, hdeclarations⟩ := first.body
    rw [body] at numbersFirst
    have spelledBody := Block.spelled_ofDeclarations hdeclarations numbersFirst
    refine ⟨_, .cons ⟨head, selectors, rfl⟩ writes, ?_⟩
    simp only [List.forall_mem_append, List.forall_mem_cons, body]
    exact ⟨⟨spelledHead, Token.spelled_symbol _, spelledBody, Token.spelled_symbol _,
      List.forall_mem_nil _⟩, spelled⟩

/-- A plain sheet without negative numbers is written by spelled tokens. -/
theorem Plain.exists_writes_spelled (h : s.Plain) (numbers : s.NumbersNonNegative) :
    ∃ ts, s.Writes ts ∧ ∀ t ∈ ts, t.Spelled := by
  obtain ⟨rules, rfl, plain⟩ := h
  apply exists_spelled plain
  intro r hr v hv
  obtain ⟨n, hn, value⟩ := List.mem_filterMap.mp hv
  have member : Member.rule r ∈ rules.map .rule := List.mem_map_of_mem hr
  have inMember : n ∈ (Member.rule r).preorder := by
    rw [Member.preorder, List.mem_cons, List.mem_append]
    exact .inr (.inr hn)
  have inSheet : n ∈ (ofMembers (rules.map .rule)).nodes := by
    rw [nodes_eq_preorder, preorder]
    exact List.mem_cons_of_mem _ (List.mem_flatMap.mpr ⟨_, member, inMember⟩)
  exact numbers v (List.mem_filterMap.mpr ⟨n, inSheet, value⟩)

end Sheet

end FlatSheet
