import FlatSheet.Proofs.Folding.Flat
import FlatSheet.Proofs.Token.Spelling

/-!
# The output spells its sheet

The output for a flat sheet is the spellings of the tokens that write it, with blanks between some of
them. The selectors of a rule stand side by side: each but the first must begin with its own mark, or
it would be read as a part of the one before it.
-/

namespace FlatSheet

open Pattern

/-- A value is written as its token is. -/
theorem Literal.text_eq_spelling (v : Literal) : v.text = v.token.spelling := by
  cases v with
  | bool b => cases b <;> rfl
  | _ => rfl

/-- A selector is written as each of its tokens is. -/
theorem Selector.text_eq_spelling {s : Selector} {t : Token} (h : t ∈ s.tokens) :
    s.text = t.spelling := by
  cases s with
  | tag text =>
    rw [List.mem_singleton.mp h]
    rfl
  | cls text =>
    rw [List.mem_singleton.mp h]
    rfl
  | id text =>
    obtain rfl | h := List.mem_cons.mp h
    · rfl
    · rw [List.mem_singleton.mp h]
      rfl

namespace Spells

variable {text : List Char} {tokens : List Token}

/-- A symbol may come before a spelled text that ends it. -/
theorem cons_symbol (s : Symbol) (stop : Separated text) (h : Spells text tokens) :
    Spells (s.chars ++ text) (.symbol s :: tokens) := by
  have spelled := h.token (Token.spelled_symbol s) stop
  rwa [Token.spelling, Symbol.spelling, String.toList_ofList] at spelled

/-- A symbol may come before a blank and a spelled text. -/
theorem cons_symbol_blank (s : Symbol) {c : Char} (blank : isBlank c = true)
    (separator : c ∈ separators) (h : Spells text tokens) :
    Spells (s.chars ++ c :: text) (.symbol s :: tokens) :=
  cons_symbol s (separated_cons separator text) (h.cons_blank blank)

end Spells

/-! ### Declarations -/

/-- The output for a declaration of a literal spells it. -/
theorem Declaration.spells_css {d : Declaration} (literal : d.value.isLiteral = true)
    (spelled : ∀ t ∈ d.tokens, t.Spelled) {text : List Char} {tokens : List Token}
    (h : Spells text tokens) : Spells (d.css.toList ++ text) (d.tokens ++ tokens) := by
  obtain ⟨property, value, m⟩ := d
  cases value with
  | literal v valueMark =>
    -- The line is spelled from its end, as each token needs what comes after it.
    simp only [Declaration.tokens, Expr.tokens, List.forall_mem_cons, List.forall_mem_append]
      at spelled
    obtain ⟨name, -, ⟨value, -⟩, -⟩ := spelled
    have ended : Spells (';' :: '\n' :: text) (.symbol .semicolon :: tokens) :=
      .cons_symbol_blank .semicolon (by decide) (by decide) h
    have valued := ended.token value (separated_cons (by decide) _)
    have followed : Spells (':' :: ' ' :: (v.token.spelling.toList ++ ';' :: '\n' :: text)) _ :=
      .cons_symbol_blank .colon (by decide) (by decide) valued
    have named := followed.token name (separated_cons (by decide) _)
    have indented := (named.cons_blank (c := ' ') (by decide)).cons_blank (c := ' ') (by decide)
    have line : (css ⟨property, .literal v valueMark, m⟩).toList ++ text =
        ' ' :: ' ' :: (property.toList ++
          ':' :: ' ' :: (v.token.spelling.toList ++ ';' :: '\n' :: text)) := by
      simp [css, Expr.text, Literal.text_eq_spelling]
    rw [line]
    exact indented
  | _ => cases literal

/-- The output for a block of declarations of literals spells them. -/
theorem Block.spells_css {b : Block} (flat : b.IsFlat) (spelled : ∀ t ∈ b.tokens, t.Spelled)
    {text : List Char} {tokens : List Token} (h : Spells text tokens) :
    Spells ((String.join (b.declarations.map Declaration.css)).toList ++ text)
      (b.tokens ++ tokens) := by
  induction b with
  | empty =>
    rw [String.toList_join]
    exact h
  | declaration d rest ih =>
    obtain ⟨first, others⟩ := List.forall_mem_append.mp spelled
    have next := d.spells_css flat.1 first (ih flat.2 others)
    rw [String.toList_join] at next ⊢
    rw [declarations, List.map_cons, List.flatMap_cons, List.append_assoc, Block.tokens,
      List.append_assoc]
    exact next
  | _ => cases flat

/-! ### Rules -/

/-- Whether a selector is a tag. -/
def Selector.isTag : Selector → Bool
  | tag _ => true
  | _ => false

/-- A class or an id begins with a separator. -/
theorem Selector.separated_text {s : Selector} {t : Token} (written : t ∈ s.tokens)
    (spelled : t.Spelled) (noTag : s.isTag = false) (text : List Char) :
    Separated (t.spelling.toList ++ text) := by
  obtain ⟨k, longest, writes⟩ := spelled.spelledAs_spelling
  have fits := longest.fits
  generalize t.spelling.toList = w at fits writes ⊢
  have marked {c : Char} {L : Language Char} (separator : c ∈ separators)
      (h : w ∈ exactly [c] * L) : Separated (w ++ text) := by
    obtain ⟨rest, -, rfl⟩ := mem_exactly_mul.mp h
    exact separated_cons separator _
  cases writes with
  | color => exact marked (by decide) fits
  | idSelector => exact marked (by decide) fits
  | classSelector => exact marked (by decide) fits
  | identifier =>
    cases s with
    | tag name => cases noTag
    | _ => simp [tokens] at written
  | _ => cases s <;> simp [tokens] at written

/-- The texts of selectors without a tag among them spell their tokens, and begin with a separator
if what follows does. -/
theorem Selector.Write.spells_marked {selectors : List Selector} {head : List Token}
    (h : Selector.Write selectors head) (spelled : ∀ t ∈ head, t.Spelled)
    (noTag : ∀ s ∈ selectors, s.isTag = false) {text : List Char} {tokens : List Token}
    (next : Spells text tokens) (stop : Separated text) :
    Spells (selectors.flatMap (·.text.toList) ++ text) (head ++ tokens) ∧
      Separated (selectors.flatMap (·.text.toList) ++ text) := by
  -- Both are carried together: each selector is ended by the mark of the one after it.
  induction h with
  | nil => exact ⟨next, stop⟩
  | @cons s t selectors ts written _ ih =>
    obtain ⟨first, others⟩ := List.forall_mem_cons.mp spelled
    obtain ⟨noTagFirst, noTagOthers⟩ := List.forall_mem_cons.mp noTag
    have rest := ih others noTagOthers
    rw [List.flatMap_cons, Selector.text_eq_spelling written, List.append_assoc]
    exact ⟨.token first rest.2 rest.1, Selector.separated_text written first noTagFirst _⟩

/-- The texts of selectors of which only the first may be a tag spell their tokens. -/
theorem Selector.Write.spells {selectors : List Selector} {head : List Token}
    (h : Selector.Write selectors head) (spelled : ∀ t ∈ head, t.Spelled)
    (noTag : ∀ s ∈ selectors.tail, s.isTag = false) {text : List Char} {tokens : List Token}
    (next : Spells text tokens) (stop : Separated text) :
    Spells (selectors.flatMap (·.text.toList) ++ text) (head ++ tokens) := by
  cases h with
  | nil => exact next
  | @cons s t selectors ts written others =>
    obtain ⟨first, spelledOthers⟩ := List.forall_mem_cons.mp spelled
    have rest := others.spells_marked spelledOthers noTag next stop
    rw [List.flatMap_cons, Selector.text_eq_spelling written, List.append_assoc]
    exact .token first rest.2 rest.1

/-- The output for a flat rule with a tag at most in front spells it. -/
theorem Rule.spells_css {r : Rule} {ts : List Token} (flat : r.body.IsFlat)
    (noTag : ∀ s ∈ r.selectors.tail, s.isTag = false) (h : r.Writes ts)
    (spelled : ∀ t ∈ ts, t.Spelled) {text : List Char} {tokens : List Token}
    (next : Spells text tokens) : Spells (r.css.toList ++ text) (ts ++ tokens) := by
  obtain ⟨head, selectors, rfl⟩ := h
  simp only [List.forall_mem_append, List.forall_mem_cons] at spelled
  obtain ⟨spelledHead, -, spelledBody, -⟩ := spelled
  have closed : Spells ('\x7d' :: '\n' :: text) (.symbol .closeBrace :: tokens) :=
    .cons_symbol_blank .closeBrace (by decide) (by decide) next
  have body := Block.spells_css flat spelledBody closed
  have opened : Spells ('\x7b' :: '\n' :: _) _ :=
    .cons_symbol_blank .openBrace (by decide) (by decide) body
  have selected := selectors.spells spelledHead noTag opened (separated_cons (by decide) _)
  have lines : r.css.toList ++ text = r.selectors.flatMap (·.text.toList) ++ '\x7b' :: '\n' ::
      ((String.join (r.body.declarations.map Declaration.css)).toList ++
        '\x7d' :: '\n' :: text) := by
    simp [css, String.toList_join, List.flatMap_map]
  rw [lines]
  simpa using selected

namespace Sheet

/-- In every rule only the first selector may be a tag. -/
def TagsFirst (s : Sheet) : Prop := ∀ r ∈ s.rules, ∀ t ∈ r.selectors.tail, t.isTag = false

instance (s : Sheet) : Decidable s.TagsFirst :=
  inferInstanceAs (Decidable (∀ r ∈ s.rules, ∀ t ∈ r.selectors.tail, t.isTag = false))

private theorem spells_cssOfRules {members : List Member} {ts : List Token}
    (h : Member.Write members ts) (flat : ∀ m ∈ members, m.IsFlat)
    (tags : ∀ r ∈ rulesOf members, ∀ t ∈ r.selectors.tail, t.isTag = false)
    (spelled : ∀ t ∈ ts, t.Spelled) : Spells (cssOfRules (rulesOf members)).toList ts := by
  induction h with
  | nil => exact .nil
  | @cons m members a b first _ ih =>
    obtain ⟨flatFirst, flatOthers⟩ := List.forall_mem_cons.mp flat
    obtain ⟨spelledFirst, spelledOthers⟩ := List.forall_mem_append.mp spelled
    cases m with
    | rule r =>
      obtain ⟨tagsFirst, tagsOthers⟩ := List.forall_mem_cons.mp tags
      have others := ih flatOthers tagsOthers spelledOthers
      rw [rulesOf]
      cases hrules : rulesOf members with
      | nil =>
        rw [hrules] at others
        have only := Rule.spells_css flatFirst tagsFirst first spelledFirst others
        rwa [cssOfRules, String.toList_empty, List.append_nil] at only
      | cons next rules =>
        rw [hrules] at others
        have separated := others.cons_blank (c := '\n') (by decide)
        have both := Rule.spells_css flatFirst tagsFirst first spelledFirst separated
        have lines : (cssOfRules (r :: next :: rules)).toList =
            r.css.toList ++ '\n' :: (cssOfRules (next :: rules)).toList := by
          simp [cssOfRules]
        rwa [lines]
    | assignment x => cases flatFirst

/-- The output for a flat sheet that is written by spelled tokens spells these tokens, if tags come
first. -/
theorem spells_css {s : Sheet} {ts : List Token} (h : s.Writes ts) (flat : s.IsFlat)
    (tags : s.TagsFirst) (spelled : ∀ t ∈ ts, t.Spelled) : Spells s.css.toList ts :=
  spells_cssOfRules h flat tags spelled

end Sheet

end FlatSheet
