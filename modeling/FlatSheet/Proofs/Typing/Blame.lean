import Mathlib.Data.List.Forall2
import FlatSheet.Proofs.Reading.Placed
import FlatSheet.Proofs.Typing.Accepted
import FlatSheet.Proofs.Typing.Exact
import FlatSheet.Proofs.Typing.Typed

/-!
# What a diagnostic is about

Each diagnostic of a sheet that was read is about one of its lexemes, at which it points, and diagnostics
come in the order of the lexemes that they are about. A walk through a sheet meets an operation before
its left operand, which stands before the operator; but an operation and an expression in it are never
both found wrong, since what is wrong has no type, and an operation on it is not judged.
-/

namespace FlatSheet

/-! ### Diagnostics in order -/

/-- The diagnostics of some nodes, in their order. -/
def diagnosticsOf (nodes : List Node) : List Diagnostic := nodes.filterMap Node.diagnostic?

@[simp] theorem diagnosticsOf_nil : diagnosticsOf [] = [] := rfl

@[simp] theorem diagnosticsOf_cons (n : Node) (nodes : List Node) :
    diagnosticsOf (n :: nodes) = n.diagnostic?.toList ++ diagnosticsOf nodes := by
  rw [diagnosticsOf, List.filterMap_cons]
  cases n.diagnostic? <;> rfl

@[simp] theorem diagnosticsOf_append (a b : List Node) :
    diagnosticsOf (a ++ b) = diagnosticsOf a ++ diagnosticsOf b := List.filterMap_append

/-- Nodes without problems have no diagnostics. -/
theorem diagnosticsOf_of_unreported {nodes : List Node} (h : Unreported nodes) :
    diagnosticsOf nodes = [] := by
  rw [diagnosticsOf, List.filterMap_eq_nil_iff]
  intro n hn
  rw [Node.diagnostic?, h n hn]
  rfl

/-- The lexeme is the root of a condition that is written among some lexemes. -/
def RootOfCondition (all : List Lexeme) (l : Lexeme) : Prop :=
  ∃ c ls, Expr.Canonical c ∧ c.IsCondition ls ∧ ls <:+: all ∧ c.rootLexeme = l

/-- What a problem is about, among all lexemes of a source. -/
inductive Problem.About (all : List Lexeme) : Problem → Lexeme → Prop
  | undefinedVariable (name : String) (position : Position) :
    About all (.undefinedVariable name) ⟨.variableName name, position⟩
  | unknownProperty (property : String) (position : Position) :
    About all (.unknownProperty property) ⟨.identifier property, position⟩
  | propertyType (property allowed : String) (position : Position) :
    About all (.propertyType property allowed) ⟨.identifier property, position⟩
  | color (text : String) (position : Position) : About all .colorOperand ⟨.color text, position⟩
  | colorOperation (op : Operator) (position : Position) :
    About all .colorOperand ⟨.symbol op.symbol, position⟩
  | bool {word : Symbol} (position : Position) : word = .trueWord ∨ word = .falseWord →
    About all .boolOperand ⟨.symbol word, position⟩
  | boolOperation (op : Operator) (position : Position) :
    About all .boolOperand ⟨.symbol op.symbol, position⟩
  | operandMismatch {sign : Symbol} (position : Position) : sign = .plus ∨ sign = .minus →
    About all .operandMismatch ⟨.symbol sign, position⟩
  | multiplyWithoutScalar (position : Position) :
    About all .multiplyWithoutScalar ⟨.symbol .star, position⟩
  | conditionNotBoolean {l : Lexeme} : RootOfCondition all l → About all .conditionNotBoolean l

/-- What a problem is about it is about among more lexemes, too. -/
theorem Problem.About.mono {some all : List Lexeme} (within : some <:+: all) {p : Problem}
    {l : Lexeme} (h : p.About some l) : p.About all l := by
  cases h with
  | undefinedVariable name position => exact .undefinedVariable name position
  | unknownProperty property position => exact .unknownProperty property position
  | propertyType property allowed position => exact .propertyType property allowed position
  | color text position => exact .color text position
  | colorOperation op position => exact .colorOperation op position
  | bool position word => exact .bool position word
  | boolOperation op position => exact .boolOperation op position
  | operandMismatch position sign => exact .operandMismatch position sign
  | multiplyWithoutScalar position => exact .multiplyWithoutScalar position
  | conditionNotBoolean root =>
    obtain ⟨c, ls, canonical, written, inside, root⟩ := root
    exact .conditionNotBoolean ⟨c, ls, canonical, written, inside.trans within, root⟩

/-- A diagnostic points at a lexeme that it is about. -/
def Diagnostic.Blames (all : List Lexeme) (d : Diagnostic) (l : Lexeme) : Prop :=
  d.position = l.position ∧ d.problem.About all l

/-- Diagnostics point at lexemes that they are about, each at one of its own and in the same order. -/
def Blamed (ds : List Diagnostic) (ls : List Lexeme) : Prop :=
  List.SublistForall₂ (Diagnostic.Blames ls) ds ls

namespace Blamed

/-- No diagnostics point at nothing. -/
theorem nil (ls : List Lexeme) : Blamed [] ls := List.SublistForall₂.nil

/-- Diagnostics of one part and then of another are in order if the parts are. -/
theorem append {a b : List Diagnostic} {la lb : List Lexeme} (ha : Blamed a la)
    (hb : Blamed b lb) : Blamed (a ++ b) (la ++ lb) := by
  obtain ⟨blamed, pointed, among⟩ := List.sublistForall₂_iff.mp ha
  obtain ⟨blamed', pointed', among'⟩ := List.sublistForall₂_iff.mp hb
  have first : List.Forall₂ (Diagnostic.Blames (la ++ lb)) a blamed :=
    pointed.imp fun _ _ h ↦ ⟨h.1, h.2.mono (List.prefix_append la lb).isInfix⟩
  have second : List.Forall₂ (Diagnostic.Blames (la ++ lb)) b blamed' :=
    pointed'.imp fun _ _ h ↦ ⟨h.1, h.2.mono (List.suffix_append la lb).isInfix⟩
  exact List.sublistForall₂_iff.mpr
    ⟨blamed ++ blamed', List.rel_append first second, among.append among'⟩

/-- A lexeme that nothing points at may stand in front. -/
theorem skip {ds : List Diagnostic} {ls : List Lexeme} (l : Lexeme) (h : Blamed ds ls) :
    Blamed ds (l :: ls) := (nil [l]).append h

/-- Lexemes that nothing points at may stand behind. -/
theorem extend {ds : List Diagnostic} {ls : List Lexeme} (h : Blamed ds ls)
    (more : List Lexeme) : Blamed ds (ls ++ more) := by
  have both := h.append (nil more)
  rwa [List.append_nil] at both

/-- A diagnostic points at one of some lexemes. -/
theorem single {d : Diagnostic} {l : Lexeme} {ls : List Lexeme} (h : d.Blames ls l)
    (mem : l ∈ ls) : Blamed [d] ls :=
  List.sublistForall₂_iff.mpr ⟨[l], .cons h .nil, List.singleton_sublist.mpr mem⟩

/-- Each diagnostic points at one of the lexemes. -/
theorem exists_lexeme {ds : List Diagnostic} {ls : List Lexeme} (h : Blamed ds ls)
    {d : Diagnostic} (hd : d ∈ ds) : ∃ l ∈ ls, d.Blames ls l := by
  unfold Blamed at h
  generalize Diagnostic.Blames ls = Blames at h ⊢
  induction h with
  | nil => cases hd
  | @cons e l ds ls blames _ ih =>
    rcases List.mem_cons.mp hd with rfl | hd
    · exact ⟨l, .head _, blames⟩
    · obtain ⟨l', hl', blames'⟩ := ih hd
      exact ⟨l', .tail _ hl', blames'⟩
  | @cons_right ds l ls _ ih =>
    obtain ⟨l', hl', blames'⟩ := ih hd
    exact ⟨l', .tail _ hl', blames'⟩

/-- The positions of diagnostics are among those of the lexemes, in the same order. -/
theorem positions {ds : List Diagnostic} {ls : List Lexeme} (h : Blamed ds ls) :
    (ds.map Diagnostic.position).Sublist (ls.map Lexeme.position) := by
  obtain ⟨blamed, pointed, among⟩ := List.sublistForall₂_iff.mp h
  have same : ds.map Diagnostic.position = blamed.map Lexeme.position := by
    rw [← List.forall₂_eq_eq_eq, List.forall₂_map_left_iff, List.forall₂_map_right_iff]
    exact pointed.imp fun _ _ blames ↦ blames.1
  rw [same]
  exact among.map _

end Blamed

/-! ### Expressions -/

/-- An operation is found wrong only where its operands have types, and then for its operator. -/
theorem Operator.Judged.about {op : Operator} {l r t : Option Ty} {p : Problem}
    (h : op.Judged l r t (some p)) (all : List Lexeme) (position : Position) :
    l ≠ none ∧ r ≠ none ∧ p.About all ⟨.symbol op.symbol, position⟩ := by
  have sign (ne : op ≠ .multiply) : op.symbol = .plus ∨ op.symbol = .minus := by
    cases op with
    | add => exact .inl rfl
    | subtract => exact .inr rfl
    | multiply => exact absurd rfl ne
  cases h with
  | color => exact ⟨nofun, nofun, .colorOperation op position⟩
  | bool => exact ⟨nofun, nofun, .boolOperation op position⟩
  | mismatch ne => exact ⟨nofun, nofun, .operandMismatch position (sign ne)⟩
  | noScalar => exact ⟨nofun, nofun, .multiplyWithoutScalar position⟩

namespace Expr

private theorem diagnosticsOf_report {e : Expr} (clean : Unreported e.preorder) (p : Problem) :
    diagnosticsOf (e.report p).preorder = [⟨e.mark.position, p⟩] := by
  cases e with
  | literal value m => rfl
  | reference name m => rfl
  | operation op lhs rhs m =>
    simp only [preorder, unreported_cons, unreported_append] at clean
    simp only [report, preorder, diagnosticsOf_cons, diagnosticsOf_append,
      diagnosticsOf_of_unreported clean.2.1, diagnosticsOf_of_unreported clean.2.2]
    rfl

private theorem blames_unfit {e : Expr} {p : Problem} (h : e.Unfit p) (all : List Lexeme) :
    Diagnostic.Blames all ⟨e.mark.position, p⟩ e.rootLexeme := by
  cases h with
  | color text m => exact ⟨rfl, .color text _⟩
  | bool b m =>
    refine ⟨rfl, ?_⟩
    cases b with
    | true => exact .bool _ (.inl rfl)
    | false => exact .bool _ (.inr rfl)

/-- What is found wrong in an expression points at lexemes of it, in their order. -/
theorem blamed_check {e : Expr} (clean : Unreported e.preorder) (scopes : TypeScopes) :
    Blamed (diagnosticsOf (e.check scopes).1.preorder) e.lexemes := by
  induction e with
  | literal value m =>
    rw [check, diagnosticsOf_of_unreported clean]
    exact .nil _
  | reference name m =>
    unfold check
    cases scopes.lookup name with
    | some t =>
      rw [diagnosticsOf_of_unreported clean]
      exact .nil _
    | none =>
      exact .single ⟨rfl, .undefinedVariable name _⟩ (rootLexeme_mem _)
  | operation op lhs rhs m ihl ihr =>
    simp only [preorder, unreported_cons, unreported_append] at clean
    obtain ⟨own, cleanl, cleanr⟩ := clean
    have own : m.problem = none := own
    have ownNode (lhs rhs : Expr) : (Node.expr (operation op lhs rhs m)).diagnostic? = none := by
      simp [Node.diagnostic?, Node.problem?, mark, own]
    unfold check lexemes
    cases hl : lhs.unfit? with
    | some p =>
      simp only [preorder, diagnosticsOf_cons, diagnosticsOf_append, ownNode,
        diagnosticsOf_report cleanl, diagnosticsOf_of_unreported cleanr]
      exact .single (blames_unfit (unfit?_eq_some_iff.mp hl) _)
        (List.mem_append_left _ lhs.rootLexeme_mem)
    | none =>
      cases hr : rhs.unfit? with
      | some p =>
        simp only [preorder, diagnosticsOf_cons, diagnosticsOf_append, ownNode,
          diagnosticsOf_report cleanr, diagnosticsOf_of_unreported cleanl]
        exact .single (blames_unfit (unfit?_eq_some_iff.mp hr) _)
          (List.mem_append_right _ (.tail _ rhs.rootLexeme_mem))
      | none =>
        have judged := op.judged_check (lhs.check scopes).2 (rhs.check scopes).2
        simp only [preorder, diagnosticsOf_cons, diagnosticsOf_append]
        cases found : (op.check (lhs.check scopes).2 (rhs.check scopes).2).2 with
        | none =>
          simp only [Mark.reportAny, ownNode]
          exact (ihl cleanl).append ((ihr cleanr).skip _)
        | some p =>
          -- The operands have types, so nothing is wrong with either of them.
          rw [found] at judged
          obtain ⟨left, right, about⟩ := judged.about _ m.position
          simp only [diagnosticsOf_of_unreported (unreported_of_typed cleanl left),
            diagnosticsOf_of_unreported (unreported_of_typed cleanr right)]
          exact .single ⟨rfl, about⟩ (List.mem_append_right _ (.head _))

/-- What is found wrong in a condition points at lexemes of it, in their order. A condition that is no
truth value is found wrong at its root. -/
theorem blamed_checkCondition {c : Expr} (clean : Unreported c.preorder) (canonical : c.Canonical)
    {front : List Lexeme} (written : c.IsCondition front) (scopes : TypeScopes) :
    Blamed (diagnosticsOf (c.checkCondition scopes).preorder) front := by
  have whole := written
  obtain ⟨word, left, right, rfl⟩ := written
  have blamed := (((blamed_check clean scopes).extend [⟨.symbol .closeBracket, right⟩]).skip
    ⟨.symbol .openBracket, left⟩).skip ⟨.symbol .ifWord, word⟩
  unfold checkCondition
  split
  · next typed h => rwa [h] at blamed
  · next typed h => rwa [h] at blamed
  · next typed t ne h =>
    have right : Unreported (c.check scopes).1.preorder := by
      apply unreported_of_typed clean
      rw [h]
      exact nofun
    have same := check_fst_of_unreported right
    rw [h] at same
    rw [show typed = c from same, diagnosticsOf_report clean]
    have root : Problem.About _ .conditionNotBoolean c.rootLexeme :=
      .conditionNotBoolean ⟨c, _, canonical, whole, List.infix_rfl, rfl⟩
    exact .single ⟨c.position_rootLexeme.symm, root⟩
      (.tail _ (.tail _ (List.mem_append_left _ c.rootLexeme_mem)))

end Expr

/-! ### Blocks and sheets -/

/-- What is wrong with a declaration is about its property. -/
private theorem Property.about_problem? {property : String} {t : Option Ty} {p : Problem}
    (h : problem? property t = some p) (all : List Lexeme) (position : Position) :
    p.About all ⟨.identifier property, position⟩ := by
  have judged := judged_problem? property t
  rw [h] at judged
  cases judged with
  | unknownProperty => exact .unknownProperty property position
  | unfit => exact .propertyType property _ position

/-- What is found wrong in a declaration points at lexemes of it, in their order. -/
theorem Declaration.blamed_check {d : Declaration} (own : d.mark.problem = none)
    (clean : Unreported d.value.preorder) {ls : List Lexeme} (placed : d.Placed ls)
    (scopes : TypeScopes) :
    Blamed (diagnosticsOf (.declaration (d.check scopes) :: (d.check scopes).value.preorder))
      ls := by
  obtain ⟨colon, semicolon, rfl⟩ := placed
  have value := ((Expr.blamed_check clean scopes).extend
    [⟨.symbol .semicolon, semicolon⟩]).skip ⟨.symbol .colon, colon⟩
  rw [diagnosticsOf_cons, Declaration.check, Node.diagnostic?, Node.problem?, Node.position]
  cases found : Property.problem? d.property (d.value.check scopes).2 with
  | none =>
    rw [Mark.reportAny, own]
    exact value.skip _
  | some p =>
    have property : Blamed [⟨d.mark.position, p⟩] [⟨.identifier d.property, d.mark.position⟩] :=
      .single ⟨rfl, Property.about_problem? found _ _⟩ (.head _)
    exact property.append value

/-- What is found wrong in an assignment points at lexemes of it, in their order. -/
theorem Assignment.blamed_check {a : Assignment} (own : a.mark.problem = none)
    (clean : Unreported a.value.preorder) {ls : List Lexeme} (placed : a.Placed ls)
    (scopes : TypeScopes) :
    Blamed (diagnosticsOf (.assignment (a.check scopes).1 :: (a.check scopes).1.value.preorder))
      ls := by
  obtain ⟨assign, semicolon, rfl⟩ := placed
  have value := ((Expr.blamed_check clean scopes).extend
    [⟨.symbol .semicolon, semicolon⟩]).skip ⟨.symbol .assign, assign⟩
  rw [diagnosticsOf_cons, Assignment.check, Node.diagnostic?, Node.problem?, own]
  exact value.skip _

private theorem diagnostic?_branch {m : Mark} (clean : m.problem = none) (c : Expr) (body : Block)
    (otherwise : Option (Block × Mark)) : (Node.branch c body otherwise m).diagnostic? = none := by
  rw [Node.diagnostic?, Node.problem?, clean]
  rfl

private theorem diagnostic?_otherwise {m : Mark} (clean : m.problem = none) (body : Block) :
    (Node.otherwise body m).diagnostic? = none := by
  rw [Node.diagnostic?, Node.problem?, clean]
  rfl

/-- What is found wrong in a block points at lexemes of it, in their order. -/
theorem Block.blamed_check {b : Block} {ls : List Lexeme} (placed : b.Placed ls)
    (clean : Unreported b.preorder) (canonical : b.Canonical) (scopes : TypeScopes) :
    Blamed (diagnosticsOf (b.check scopes).1.preorder) ls := by
  induction placed generalizing scopes with
  | empty => exact .nil _
  | @declaration d rest own others hd hrest ih =>
    simp only [preorder, unreported_cons, unreported_append] at clean
    obtain ⟨mark, value, items⟩ := clean
    have first : Blamed _ own := Declaration.blamed_check mark value hd scopes
    have both := first.append (ih items canonical.2 scopes)
    simpa only [check, preorder, diagnosticsOf_cons, diagnosticsOf_append, List.append_assoc]
      using both
  | @assignment a rest own others ha hrest ih =>
    simp only [preorder, unreported_cons, unreported_append] at clean
    obtain ⟨mark, value, items⟩ := clean
    have first : Blamed _ own := Assignment.blamed_check mark value ha scopes
    have both := first.append
      (ih items canonical.2 (scopes.declare a.name (a.check scopes).2))
    simpa only [check, preorder, diagnosticsOf_cons, diagnosticsOf_append, List.append_assoc]
      using both
  | @ifThen c body rest m front inner others left right hc hbody hrest ihBody ih =>
    simp only [preorder, unreported_cons, unreported_append] at clean
    obtain ⟨mark, ⟨condition, items⟩, last⟩ := clean
    obtain ⟨canonicalCondition, canonicalBody, canonicalRest⟩ := canonical
    have first := Expr.blamed_checkCondition condition canonicalCondition hc scopes.push
    have second := ihBody items canonicalBody scopes.push
    have third := ih last canonicalRest scopes
    rw [check_ifThen]
    simp only [preorder, diagnosticsOf_cons, diagnosticsOf_append, List.append_assoc,
      diagnostic?_branch mark, Option.toList_none, List.nil_append]
    apply first.append
    apply Blamed.skip
    apply second.append
    exact third.skip _
  | @ifElse c body other rest m om front inner last others left right otherLeft otherRight hc hbody
      hother hrest ihBody ihOther ih =>
    simp only [preorder, unreported_cons, unreported_append] at clean
    obtain ⟨mark, ⟨⟨condition, items⟩, otherMark, otherItems⟩, following⟩ := clean
    obtain ⟨canonicalCondition, canonicalBody, canonicalOther, canonicalRest⟩ := canonical
    have first := Expr.blamed_checkCondition condition canonicalCondition hc scopes.push
    have second := ihBody items canonicalBody scopes.push
    have third := ihOther otherItems canonicalOther (body.check scopes.push).2.push
    have fourth := ih following canonicalRest scopes
    rw [check_ifElse]
    simp only [preorder, diagnosticsOf_cons, diagnosticsOf_append, List.append_assoc,
      List.cons_append, diagnostic?_branch mark, diagnostic?_otherwise otherMark,
      Option.toList_none, List.nil_append]
    apply first.append
    apply Blamed.skip
    apply second.append
    -- The braces and the keyword between the branches.
    apply Blamed.skip
    apply Blamed.skip
    apply Blamed.skip
    apply third.append
    exact fourth.skip _

/-- What is found wrong in members points at lexemes of them, in their order. -/
theorem Sheet.blamed_checkMembers {members : List Member} {ls : List Lexeme}
    (placed : Placed members ls) (clean : Unreported (members.flatMap Member.preorder))
    (canonical : ∀ m ∈ members, m.Canonical) (scopes : TypeScopes) :
    Blamed (diagnosticsOf ((checkMembers members scopes).1.flatMap Member.preorder)) ls := by
  induction placed generalizing scopes with
  | nil => exact .nil _
  | @cons m members own others hm hmembers ih =>
    rw [List.flatMap_cons, unreported_append] at clean
    obtain ⟨canonicalFirst, canonicalOthers⟩ := List.forall_mem_cons.mp canonical
    cases hm with
    | @rule r inner head left right hbody =>
      have cleanRule := clean.1
      simp only [Member.preorder, unreported_cons, unreported_append] at cleanRule
      obtain ⟨mark, -, items⟩ := cleanRule
      have body := Block.blamed_check hbody items canonicalFirst.2 scopes.push
      have selectors : Blamed [] head := .nil head
      have rule := selectors.append ((body.extend [⟨.symbol .closeBrace, right⟩]).skip
        ⟨.symbol .openBrace, left⟩)
      have both := rule.append (ih clean.2 canonicalOthers scopes)
      have own (body : Block) : (Node.rule ⟨r.selectors, body, r.mark⟩).diagnostic? = none := by
        rw [Node.diagnostic?, Node.problem?, show r.mark.problem = none from mark]
        rfl
      simpa only [checkMembers, Rule.check, Block.enclosed_check, Scopes.enclosed_fst,
        List.flatMap_cons, Member.preorder, diagnosticsOf_cons, diagnosticsOf_append, own,
        diagnosticsOf_of_unreported (unreported_selectors r.selectors), Option.toList_none,
        List.nil_append] using both
    | @assignment a ls ha =>
      have cleanAssignment := clean.1
      simp only [Member.preorder, unreported_cons] at cleanAssignment
      obtain ⟨mark, value⟩ := cleanAssignment
      have first : Blamed _ own := Assignment.blamed_check mark value ha scopes
      have both := first.append
        (ih clean.2 canonicalOthers (scopes.declare a.name (a.check scopes).2))
      simpa only [checkMembers, List.flatMap_cons, Member.preorder, diagnosticsOf_cons,
        diagnosticsOf_append, List.append_assoc] using both

/-- What is found wrong in a sheet that was read points at lexemes of the source, in their order. -/
theorem Sheet.blamed_check {lexemes : List Lexeme} {s : Sheet} (read : ofLexemes lexemes = .ok s)
    (scopes : TypeScopes) : Blamed (s.check scopes).1.diagnostics lexemes := by
  obtain ⟨clean, canonical, -⟩ := ofLexemes_sound read
  rw [diagnostics_eq_nil_iff, preorder, unreported_cons] at clean
  have members := blamed_checkMembers (ofLexemes_placed read) clean.2 canonical scopes.push
  have own : (Node.sheet (s.check scopes).1).diagnostic? = none := by
    rw [Node.diagnostic?, show (Node.sheet (s.check scopes).1).problem? = none from clean.1]
    rfl
  rw [diagnostics, nodes_eq_preorder, preorder, ← diagnosticsOf, diagnosticsOf_cons, own]
  exact members

end FlatSheet
