import FlatSheet.Proofs.Grammar.Canonical
import FlatSheet.Proofs.Scopes.Restored
import FlatSheet.Sheet.Css

/-!
# Flat sheets

A flat sheet has rules of declarations only, and their values are literals. There is nothing in it to
flatten: whatever the scopes are, it is flattened to itself, up to marks. Marks do not show in the
output either.
-/

namespace FlatSheet

/-- Whether an expression is a literal. -/
def Expr.isLiteral : Expr → Bool
  | literal _ _ => true
  | _ => false

/-- All items are declarations of literals. -/
def Block.IsFlat : Block → Prop
  | empty => True
  | declaration d rest => d.value.isLiteral = true ∧ rest.IsFlat
  | _ => False

/-- A rule whose block is flat. -/
def Member.IsFlat : Member → Prop
  | rule r => r.body.IsFlat
  | assignment _ => False

/-- All members are rules whose blocks are flat. -/
def Sheet.IsFlat (s : Sheet) : Prop := ∀ m ∈ s.members, m.IsFlat

/-! ### Flat sheets without marks -/

theorem Expr.isLiteral_bare (e : Expr) : e.bare.isLiteral = e.isLiteral := by
  cases e <;> rfl

theorem Block.isFlat_bare {b : Block} : b.bare.IsFlat ↔ b.IsFlat := by
  induction b with
  | declaration d rest ih =>
    show d.value.bare.isLiteral = true ∧ rest.bare.IsFlat ↔ _
    rw [Expr.isLiteral_bare, ih]
    rfl
  | _ => exact Iff.rfl

/-- A sheet that is flat up to marks is flat. -/
theorem Sheet.isFlat_bare {s : Sheet} : s.bare.IsFlat ↔ s.IsFlat := by
  have member (m : Member) : m.bare.IsFlat ↔ m.IsFlat := by
    cases m with
    | rule r => exact Block.isFlat_bare
    | assignment a => exact Iff.rfl
  constructor
  · intro h m hm
    exact (member m).mp (h m.bare (List.mem_map_of_mem hm))
  · intro h m hm
    obtain ⟨m', hm', rfl⟩ := List.mem_map.mp hm
    exact (member m').mpr (h m' hm')

/-- The expressions of a flat block are canonical. -/
theorem Block.IsFlat.canonical {b : Block} (h : b.IsFlat) : b.Canonical := by
  induction b with
  | empty => trivial
  | declaration d rest ih =>
    refine ⟨?_, ih h.2⟩
    have literal := h.1
    cases hd : d.value with
    | literal value m => trivial
    | _ =>
      rw [hd] at literal
      cases literal
  | _ => cases h

/-! ### Flattening what is flat -/

namespace Block

/-- A flat block is flattened to itself. -/
theorem IsFlat.flatten {b : Block} (h : b.IsFlat) (scopes : ValueScopes) :
    ∃ flat, (b.flatten scopes).1 = .ok flat ∧ flat.bare = b.bare := by
  induction b with
  | empty => exact ⟨empty, rfl, rfl⟩
  | declaration d rest ih =>
    obtain ⟨flat, hflat, hbare⟩ := ih h.2
    obtain ⟨property, value, m⟩ := d
    cases value with
    | literal value valueMark =>
      refine ⟨declaration ⟨property, .literal value (.clean valueMark.position), m⟩ flat, ?_, ?_⟩
      · rw [flatten_declaration, hflat]
        rfl
      · rw [bare, bare, hbare]
        rfl
    | _ => cases h.1
  | _ => cases h

end Block

namespace Sheet

private theorem IsFlat.flattenMembers {members : List Member} (h : ∀ m ∈ members, m.IsFlat)
    (scopes : ValueScopes) :
    ∃ flat, (flattenMembers members scopes).1 = .ok flat ∧
      flat.map Member.bare = members.map Member.bare := by
  induction members with
  | nil => exact ⟨[], rfl, rfl⟩
  | cons m members ih =>
    obtain ⟨first, others⟩ := List.forall_mem_cons.mp h
    obtain ⟨flat, hflat, hbares⟩ := ih others
    cases m with
    | rule r =>
      obtain ⟨body, hbody, hbare⟩ := Block.IsFlat.flatten first scopes.push
      refine ⟨.rule ⟨r.selectors, body, .clean r.mark.position⟩ :: flat, ?_, ?_⟩
      · rw [flattenMembers_rule, hbody, hflat]
        rfl
      · rw [List.map_cons, List.map_cons, hbares, Member.bare, Member.bare, hbare]
    | assignment a => cases first

/-- A flat sheet is flattened to itself, whatever the scopes are. -/
theorem IsFlat.flatten {s : Sheet} (h : s.IsFlat) (scopes : ValueScopes) :
    ∃ flat, (s.flatten scopes).1 = .ok flat ∧ flat.bare = s.bare := by
  obtain ⟨members, hmembers, hbare⟩ := IsFlat.flattenMembers h scopes.push
  refine ⟨⟨members, s.problem⟩, ?_, ?_⟩
  · rw [Sheet.flatten, Scopes.enclosed_fst, hmembers]
    rfl
  · rw [bare, bare, hbare]

end Sheet

/-! ### Output without marks -/

theorem Expr.text_bare (e : Expr) : e.bare.text = e.text := by
  induction e with
  | literal value m => rfl
  | reference name m => rfl
  | operation op lhs rhs m ihl ihr => rw [bare, text, text, ihl, ihr]

theorem Block.css_bare (b : Block) :
    b.bare.declarations.map Declaration.css = b.declarations.map Declaration.css := by
  induction b with
  | empty => rfl
  | declaration d rest ih =>
    have first : d.bare.css = d.css := by
      rw [Declaration.css, Declaration.css, Declaration.bare, Expr.text_bare]
    rw [bare, declarations, declarations, List.map_cons, List.map_cons, first, ih]
  | assignment a rest ih => exact ih
  | ifThen c body m rest _ ih => exact ih
  | ifElse c body m other om rest _ _ ih => exact ih

/-- The output for rules depends only on that for each of them. -/
theorem cssOfRules_map {f : Rule → Rule} (h : ∀ r, (f r).css = r.css) (rules : List Rule) :
    cssOfRules (rules.map f) = cssOfRules rules := by
  induction rules with
  | nil => rfl
  | cons r rules ih =>
    cases rules with
    | nil => exact h r
    | cons next rules =>
      show (f r).css ++ "\n" ++ cssOfRules ((next :: rules).map f) = _
      rw [h, ih]
      rfl

/-- Marks do not show in the output. -/
theorem Sheet.css_bare (s : Sheet) : s.bare.css = s.css := by
  have rules (members : List Member) : rulesOf (members.map Member.bare) =
      (rulesOf members).map fun r ↦ ⟨r.selectors, r.body.bare, .clean .unknown⟩ := by
    induction members with
    | nil => rfl
    | cons m members ih =>
      cases m with
      | rule r => exact congrArg (List.cons _) ih
      | assignment a => exact ih
  rw [css, css, Sheet.rules, Sheet.rules, bare, ofMembers, rules, cssOfRules_map]
  intro r
  rw [Rule.css, Rule.css, Block.css_bare]

end FlatSheet
