import FlatSheet.Proofs.Reading.Sheets
import FlatSheet.Proofs.Sheet.Css
import FlatSheet.Proofs.Token.Between

/-!
# Expressions are read back from their written form

The written form of an expression has no brackets, and it needs none: an expression that was read is
canonical, and so is every expression in it. Its written form spells its tokens, with blanks around
each operator, and in the place of a declaration's value these are read into the same expression.
-/

namespace FlatSheet

open Pattern

/-- An expression as it may stand in a sheet that was read: canonical, without problems, and with
tokens that are spelled. -/
structure Expr.Printable (e : Expr) : Prop extends e.WellRead where
  spelled : ∀ t ∈ e.tokens, t.Spelled

/-! ### Expressions in a sheet -/

namespace Expr.Printable

variable {op : Operator} {lhs rhs : Expr} {m : Mark}

private theorem operands (h : (operation op lhs rhs m).Printable) :
    Unreported lhs.preorder ∧ Unreported rhs.preorder := by
  have unreported := h.unreported
  rw [preorder, unreported_cons, unreported_append] at unreported
  exact unreported.2

/-- The left operand of an operation that can be written can be written. -/
theorem left (h : (operation op lhs rhs m).Printable) : lhs.Printable := by
  refine ⟨⟨?_, h.operands.1⟩, fun t ht ↦ h.spelled t (List.mem_append_left _ ht)⟩
  have canonical := h.canonical
  cases op <;> exact canonical.1

/-- The right operand of an operation that can be written can be written. -/
theorem right (h : (operation op lhs rhs m).Printable) : rhs.Printable := by
  refine ⟨⟨?_, h.operands.2⟩, fun t ht ↦ h.spelled t (List.mem_append_right _ (.tail _ ht))⟩
  have canonical := h.canonical
  cases op with
  | add => exact canonical.2.1
  | subtract => exact canonical.2.1
  | multiply =>
    have leaf := canonical.2.2
    cases rhs with
    | operation => cases leaf
    | _ => trivial

/-- An expression in one that can be written can be written. -/
theorem of_mem {e sub : Expr} (h : e.Printable) (mem : .expr sub ∈ e.preorder) : sub.Printable := by
  induction e with
  | literal value m =>
    cases List.mem_singleton.mp mem
    exact h
  | reference name m =>
    cases List.mem_singleton.mp mem
    exact h
  | operation op lhs rhs m ihl ihr =>
    rcases List.mem_cons.mp mem with same | mem
    · cases same
      exact h
    · rcases List.mem_append.mp mem with mem | mem
      · exact ihl h.left mem
      · exact ihr h.right mem

end Expr.Printable

/-- An expression in a block that was read from spelled tokens can be written. -/
theorem Block.printable_of_mem {b : Block} (canonical : b.Canonical) (clean : Unreported b.preorder)
    (spelled : ∀ t ∈ b.tokens, t.Spelled) {e : Expr} (mem : .expr e ∈ b.preorder) :
    e.Printable := by
  induction b with
  | empty => cases mem
  | declaration d rest ih =>
    simp only [tokens, Declaration.tokens, List.forall_mem_append, List.forall_mem_cons] at spelled
    simp only [preorder, unreported_cons, unreported_append] at clean
    simp only [preorder, List.mem_cons, List.mem_append, reduceCtorEq, false_or] at mem
    obtain ⟨⟨-, -, value, -⟩, others⟩ := spelled
    rcases mem with mem | mem
    · exact Expr.Printable.of_mem ⟨⟨canonical.1, clean.2.1⟩, value⟩ mem
    · exact ih canonical.2 clean.2.2 others mem
  | assignment a rest ih =>
    simp only [tokens, Assignment.tokens, List.forall_mem_append, List.forall_mem_cons] at spelled
    simp only [preorder, unreported_cons, unreported_append] at clean
    simp only [preorder, List.mem_cons, List.mem_append, reduceCtorEq, false_or] at mem
    obtain ⟨⟨-, -, value, -⟩, others⟩ := spelled
    rcases mem with mem | mem
    · exact Expr.Printable.of_mem ⟨⟨canonical.1, clean.2.1⟩, value⟩ mem
    · exact ih canonical.2 clean.2.2 others mem
  | ifThen c body m rest ihBody ih =>
    simp only [tokens, Expr.conditionTokens, List.forall_mem_append, List.forall_mem_cons] at spelled
    simp only [preorder, unreported_cons, unreported_append] at clean
    simp only [preorder, List.mem_cons, List.mem_append, reduceCtorEq, false_or] at mem
    obtain ⟨-, ⟨-, condition, -⟩, inBody, -, others⟩ := spelled
    obtain ⟨-, ⟨cleanCondition, cleanBody⟩, cleanOthers⟩ := clean
    rcases mem with (mem | mem) | mem
    · exact Expr.Printable.of_mem ⟨⟨canonical.1, cleanCondition⟩, condition⟩ mem
    · exact ihBody canonical.2.1 cleanBody inBody mem
    · exact ih canonical.2.2 cleanOthers others mem
  | ifElse c body m other om rest ihBody ihOther ih =>
    simp only [tokens, Expr.conditionTokens, List.forall_mem_append, List.forall_mem_cons] at spelled
    simp only [preorder, unreported_cons, unreported_append] at clean
    simp only [preorder, List.mem_cons, List.mem_append, reduceCtorEq, false_or] at mem
    obtain ⟨-, ⟨-, condition, -⟩, inBody, -, -, -, inOther, -, others⟩ := spelled
    obtain ⟨-, ⟨⟨cleanCondition, cleanBody⟩, -, cleanOther⟩, cleanOthers⟩ := clean
    rcases mem with ((mem | mem) | mem) | mem
    · exact Expr.Printable.of_mem ⟨⟨canonical.1, cleanCondition⟩, condition⟩ mem
    · exact ihBody canonical.2.1 cleanBody inBody mem
    · exact ihOther canonical.2.2.1 cleanOther inOther mem
    · exact ih canonical.2.2.2 cleanOthers others mem

/-- An expression in members that were read from spelled tokens can be written. -/
theorem Member.Write.printable_of_mem {members : List Member} {ts : List Token}
    (h : Member.Write members ts) (canonical : ∀ m ∈ members, m.Canonical)
    (clean : Unreported (members.flatMap Member.preorder)) (spelled : ∀ t ∈ ts, t.Spelled)
    {e : Expr} (mem : .expr e ∈ members.flatMap Member.preorder) : e.Printable := by
  induction h with
  | nil => cases mem
  | @cons m members a b first _ ih =>
    obtain ⟨canonicalFirst, canonicalOthers⟩ := List.forall_mem_cons.mp canonical
    obtain ⟨spelledFirst, spelledOthers⟩ := List.forall_mem_append.mp spelled
    rw [List.flatMap_cons, unreported_append] at clean
    obtain ⟨cleanFirst, cleanOthers⟩ := clean
    rcases List.mem_append.mp mem with mem | mem
    · cases m with
      | rule r =>
        obtain ⟨head, -, rfl⟩ := first
        simp only [List.forall_mem_append, List.forall_mem_cons] at spelledFirst
        simp only [Member.preorder, unreported_cons, unreported_append] at cleanFirst
        simp only [Member.preorder, List.mem_cons, List.mem_append, List.mem_map, reduceCtorEq,
          and_false, exists_false, false_or] at mem
        exact r.body.printable_of_mem canonicalFirst.2 cleanFirst.2.2 spelledFirst.2.2.1 mem
      | assignment x =>
        cases first
        simp only [Assignment.tokens, List.forall_mem_append, List.forall_mem_cons] at spelledFirst
        simp only [Member.preorder, unreported_cons] at cleanFirst
        simp only [Member.preorder, List.mem_cons, reduceCtorEq, false_or] at mem
        exact Expr.Printable.of_mem ⟨⟨canonicalFirst, cleanFirst.2⟩, spelledFirst.2.2.1⟩ mem
    · exact ih canonicalOthers cleanOthers spelledOthers mem

/-- An expression in a sheet that was read can be written. -/
theorem Sheet.printable_ofSource {source : String} {s : Sheet} (read : ofSource source = .ok s)
    {e : Expr} (mem : .expr e ∈ s.nodes) : e.Printable := by
  obtain ⟨lexemes, hlex, hs⟩ := ofSource_eq_ok_iff.mp read
  obtain ⟨clean, canonical, writes⟩ := ofLexemes_sound hs
  have spelled : ∀ t ∈ tokensOf lexemes, t.Spelled := by
    intro t ht
    obtain ⟨l, hl, rfl⟩ := List.mem_map.mp ht
    exact spelled_of_lex hlex l hl
  rw [diagnostics_eq_nil_iff, preorder, unreported_cons] at clean
  rw [nodes_eq_preorder, preorder] at mem
  simp only [List.mem_cons, reduceCtorEq, false_or] at mem
  exact writes.printable_of_mem canonical clean.2 spelled mem

/-! ### Written forms -/

/-- The written form of an expression spells its tokens in front of a separator. -/
theorem Expr.spells_text {e : Expr} (spelled : ∀ t ∈ e.tokens, t.Spelled) {text : List Char}
    {tokens : List Token} (stop : Separated text) (h : Spells text tokens) :
    Spells (e.text.toList ++ text) (e.tokens ++ tokens) := by
  induction e generalizing text tokens with
  | literal value m =>
    rw [Expr.text, Literal.text_eq_spelling]
    exact h.token (spelled _ (.head _)) stop
  | reference name m =>
    rw [Expr.text]
    exact h.token (spelled _ (.head _)) stop
  | operation op lhs rhs m ihl ihr =>
    obtain ⟨left, sign, right⟩ : _ ∧ _ ∧ _ := by
      simpa only [Expr.tokens, List.forall_mem_append, List.forall_mem_cons] using spelled
    have last := ihr right stop h
    have signed := last.cons_symbol_blank op.symbol (c := ' ') (by decide) (by decide)
    have all := ihl left (separated_cons (c := ' ') (by decide) _) (signed.cons_blank (by decide))
    have parts : (operation op lhs rhs m).text.toList ++ text =
        lhs.text.toList ++ ' ' :: (op.symbol.chars ++ ' ' :: (rhs.text.toList ++ text)) := by
      simp [Expr.text, Operator.text, Symbol.spelling]
    rw [parts, Expr.tokens, List.append_assoc]
    exact all

/-- A spelled token may come before a separator. -/
theorem ReadAs.spelled {text : List Char} {tokens : List Token} (h : ReadAs text tokens) {t : Token}
    (first : t.Spelled) (stop : Separated text) :
    ReadAs (t.spelling.toList ++ text) (t :: tokens) := by
  obtain ⟨k, alone, writes⟩ := first.spelledAs_spelling
  exact h.token (alone.before_separator writes.not_isDropped stop) writes

/-- An opening brace is a token of its own, whatever comes after it. -/
theorem longestMatch_openBrace (text : List Char) :
    LongestMatch (.symbol .openBrace) ['\x7b'] ('\x7b' :: text) := by
  have alone : LongestMatch (.symbol .openBrace) ['\x7b'] ['\x7b'] := by
    apply LongestMatch.of_mem rfl
    intro other _ prior
    cases prior
  have front : ['\x7b'] <+: '\x7b' :: text := List.prefix_append ['\x7b'] text
  refine ⟨front, alone.fits, ?_, alone.first⟩
  intro other w hw inFront
  have heads := Kind.head_eq_of_prefix alone.fits hw front inFront
  cases other with
  | symbol s =>
    rw [mem_exactly.mp hw] at inFront ⊢
    obtain ⟨rest, hrest⟩ := inFront
    cases s <;> first | exact Nat.le_refl _ | cases hrest
  | _ => cases heads

/-! ### Reading back -/

/-- A sheet of one rule with one declaration. -/
def Sheet.declaring (e : Expr) : Sheet :=
  .ofMembers [.rule
    ⟨[.tag "a"], .declaration ⟨"width", e, .clean .unknown⟩ .empty, .clean .unknown⟩]

/-- A sheet that differs from such a sheet in its marks only has a declaration of an expression that
differs in its marks only. -/
private theorem Sheet.exists_declared {t : Sheet} {e : Expr} (same : t.bare = (declaring e).bare)
    (clean : t.problem = none) :
    ∃ e' m m', t = .ofMembers [.rule ⟨[.tag "a"], .declaration ⟨"width", e', m⟩ .empty, m'⟩] ∧
      e'.bare = e.bare := by
  obtain ⟨members, problem⟩ := t
  obtain rfl : problem = none := clean
  obtain ⟨member, rfl, member_bare⟩ := List.map_eq_singleton_iff.mp (congrArg Sheet.members same)
  cases member with
  | assignment a => cases member_bare
  | rule r =>
    obtain ⟨selectors, body, m'⟩ := r
    simp only [Member.bare, Member.rule.injEq, Rule.mk.injEq, and_true] at member_bare
    obtain ⟨rfl, body_bare⟩ := member_bare
    cases body with
    | declaration d items =>
      obtain ⟨property, e', m⟩ := d
      simp only [Block.bare, Declaration.bare, Block.declaration.injEq, Declaration.mk.injEq,
        and_true] at body_bare
      obtain ⟨⟨rfl, value⟩, items_bare⟩ := body_bare
      cases items with
      | empty => exact ⟨e', m, m', rfl, value⟩
      | _ => cases items_bare
    | _ => cases body_bare

/-- A declaration of an expression is read into the tokens of the expression and those around it. -/
theorem Expr.Printable.readAs {e : Expr} (h : e.Printable) :
    ReadAs ("a\x7bwidth: " ++ e.text ++ ";\x7d").toList
      (.identifier "a" :: .symbol .openBrace :: .identifier "width" :: .symbol .colon ::
        (e.tokens ++ [.symbol .semicolon, .symbol .closeBrace])) := by
  have tag : (Token.identifier "a").Spelled :=
    Token.spelled_identifier rfl (List.forall_mem_nil _) (by decide)
  have property : (Token.identifier "width").Spelled :=
    Token.spelled_identifier rfl (List.all_eq_true.mp (by decide)) (by decide)
  have ended : Spells [';', '\x7d'] [.symbol .semicolon, .symbol .closeBrace] :=
    .cons_symbol .semicolon (separated_cons (by decide) _) (.cons_symbol .closeBrace nofun .nil)
  have value := e.spells_text h.spelled (separated_cons (by decide) _) ended
  have followed : Spells (':' :: ' ' :: (e.text.toList ++ [';', '\x7d'])) _ :=
    value.cons_symbol_blank .colon (by decide) (by decide)
  have inside : ReadAs _ _ := (followed.token property (separated_cons (by decide) _)).lex_eq
  -- What comes after the brace is no separator, so the brace is put in front as the longest match.
  have opened : ReadAs ('\x7b' :: _) _ :=
    inside.token (longestMatch_openBrace _) (.symbol .openBrace _)
  have all := opened.spelled tag (separated_cons (by decide) _)
  have parts : ("a\x7bwidth: " ++ e.text ++ ";\x7d").toList =
      'a' :: '\x7b' :: 'w' :: 'i' :: 'd' :: 't' :: 'h' :: ':' :: ' ' ::
        (e.text.toList ++ [';', '\x7d']) := by simp
  rw [parts]
  exact all

/-- An expression of a sheet that was read is read back from its written form, in the place of the
value of a declaration: up to positions the same expression is read, and nothing is wrong with
either. -/
theorem Sheet.reads_text {source : String} {s : Sheet} (read : ofSource source = .ok s) {e : Expr}
    (mem : .expr e ∈ s.nodes) :
    ∃ e' m m', ofSource ("a\x7bwidth: " ++ e.text ++ ";\x7d") =
        .ok (.ofMembers [.rule ⟨[.tag "a"], .declaration ⟨"width", e', m⟩ .empty, m'⟩]) ∧
      e'.bare = e.bare ∧ Unreported e'.preorder ∧ Unreported e.preorder := by
  have printable := printable_ofSource read mem
  obtain ⟨lexemes, hlex, htokens⟩ := printable.readAs
  have canonical : (declaring e).Canonical := by
    intro m hm
    rw [List.mem_singleton.mp hm]
    exact ⟨List.cons_ne_nil _ _, printable.canonical, trivial⟩
  have body : Rule.Writes ⟨[.tag "a"], .declaration ⟨"width", e, .clean .unknown⟩ .empty,
      .clean .unknown⟩ (tokensOf lexemes) := by
    refine ⟨[.identifier "a"], .cons (.head _) .nil, ?_⟩
    rw [htokens]
    simp [Block.tokens, Declaration.tokens]
  have writes : (declaring e).Writes (tokensOf lexemes ++ []) := .cons body .nil
  rw [List.append_nil] at writes
  obtain ⟨t, ht, bare⟩ := ofLexemes_complete canonical writes
  have found : ofSource ("a\x7bwidth: " ++ e.text ++ ";\x7d") = .ok t :=
    ofSource_eq_ok_iff.mpr ⟨lexemes, hlex, ht⟩
  have clean := diagnostics_ofSource found
  rw [diagnostics_eq_nil_iff, preorder, unreported_cons] at clean
  obtain ⟨e', m, m', rfl, same⟩ := exists_declared bare clean.1
  have unreported : Unreported e'.preorder := by
    have members := clean.2
    simp only [ofMembers, List.flatMap_cons, Member.preorder, Block.preorder, List.cons_append,
      unreported_cons, unreported_append] at members
    exact members.2.1.2.2.1
  exact ⟨e', m, m', found, same, unreported, printable.unreported⟩

/-- A condition in which a product stands before a sum, and whose number has a zero in front. -/
theorem Sheet.reads_text_of_condition :
    let source := "a\x7bif[H*02-3%+#aAfF00]\x7b\x7d\x7d"
    let value (v : Literal) (column : Nat) : Expr := .literal v (.clean ⟨1, column⟩)
    let product : Expr := .operation .multiply (.reference "H" (.clean ⟨1, 6⟩))
      (value (.scalar ⟨2, by decide, by decide⟩) 8) (.clean ⟨1, 7⟩)
    let difference : Expr := .operation .subtract product
      (value (.percentage ⟨3, by decide, by decide⟩) 11) (.clean ⟨1, 10⟩)
    let e : Expr := .operation .add difference (value (.color "#aAfF00") 14) (.clean ⟨1, 13⟩)
    ∃ s, ofSource source = .ok s ∧ .expr e ∈ s.nodes ∧
      ∃ e' m m', ofSource "a\x7bwidth: H * 2 - 3% + #aAfF00;\x7d" =
          .ok (.ofMembers [.rule ⟨[.tag "a"], .declaration ⟨"width", e', m⟩ .empty, m'⟩]) ∧
        e'.bare = e.bare := by
  intro source value product difference e
  let s : Sheet := .ofMembers [.rule ⟨[.tag "a"], .ifThen e .empty (.clean ⟨1, 3⟩) .empty,
    .clean ⟨1, 1⟩⟩]
  have read : ofSource source = .ok s := by
    -- The parts are put in for their names: with a variable in it the run is not evaluated.
    subst source s e difference product value
    with_unfolding_all rfl
  have mem : .expr e ∈ s.nodes := by
    rw [nodes_eq_preorder]
    decide
  have text : "a\x7bwidth: " ++ e.text ++ ";\x7d" = "a\x7bwidth: H * 2 - 3% + #aAfF00;\x7d" := by
    decide
  obtain ⟨e', m, m', again, same, -, -⟩ := reads_text read mem
  rw [text] at again
  exact ⟨s, read, mem, e', m, m', again, same⟩

end FlatSheet
