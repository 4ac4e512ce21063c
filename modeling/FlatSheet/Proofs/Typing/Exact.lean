import FlatSheet.Proofs.Grammar.Canonical
import FlatSheet.Proofs.Scopes.Restored
import FlatSheet.Proofs.Sheet.Preorder
import FlatSheet.Proofs.Typing.Judgement

/-!
# Typing follows its rules

Typing a sheet without problems attaches to its nodes exactly what the rules find wrong with them.
The verdicts of a part of a sheet after typing are those of a judgement, by recursion on the part;
as the rules leave nothing open, they are the only ones.
-/

namespace FlatSheet

/-- The verdicts that some nodes carry. -/
def verdictsOf (nodes : List Node) : Verdicts := nodes.map Node.problem?

@[simp] theorem verdictsOf_nil : verdictsOf [] = [] := rfl

@[simp] theorem verdictsOf_cons (n : Node) (nodes : List Node) :
    verdictsOf (n :: nodes) = n.problem? :: verdictsOf nodes := rfl

@[simp] theorem verdictsOf_append (a b : List Node) :
    verdictsOf (a ++ b) = verdictsOf a ++ verdictsOf b := List.map_append

/-- Nodes without problems carry clear verdicts. -/
theorem verdictsOf_of_unreported {nodes : List Node} (h : Unreported nodes) :
    verdictsOf nodes = Verdicts.clear nodes.length := by
  apply List.eq_replicate_iff.mpr
  constructor
  · exact List.length_map _
  · intro v hv
    obtain ⟨n, hn, rfl⟩ := List.mem_map.mp hv
    exact h n hn

/-- Selectors carry no problems. -/
@[simp] theorem verdictsOf_selectors (selectors : List Selector) :
    verdictsOf (selectors.map .selector) = Verdicts.clear selectors.length := by
  rw [verdictsOf_of_unreported (unreported_selectors selectors), List.length_map]

/-! ### Expressions -/

/-- The operands that are found unfit are those that the rules call so. -/
theorem Expr.unfit?_eq_some_iff {e : Expr} {p : Problem} : e.unfit? = some p ↔ e.Unfit p := by
  constructor
  · intro h
    unfold unfit? at h
    split at h
    · cases h
      exact .color _ _
    · cases h
      exact .bool _ _
    · cases h
  · intro h
    cases h <;> rfl

private theorem Expr.not_unfit {e : Expr} (h : e.unfit? = none) (p : Problem) : ¬ e.Unfit p := by
  intro unfit
  rw [unfit?_eq_some_iff.mpr unfit] at h
  cases h

private theorem Operator.judged_sum {op : Operator} {lhs rhs : Ty} (ne : op ≠ .multiply)
    (left : lhs.IsAmount) (right : rhs.IsAmount)
    (typed : op.typeOf lhs rhs = if lhs = rhs then .ok lhs else .error .operandMismatch) :
    op.Judged (some lhs) (some rhs) (op.check (some lhs) (some rhs)).1
      (op.check (some lhs) (some rhs)).2 := by
  by_cases same : lhs = rhs
  · subst same
    simp only [check, typed, if_true]
    exact .sum ne left
  · simp only [check, typed, if_neg same]
    exact .mismatch ne left right same

private theorem Operator.judged_product {lhs rhs : Ty} (left : lhs.IsAmount)
    (right : rhs.IsAmount)
    (typed : multiply.typeOf lhs rhs = if lhs = .scalar then .ok rhs
      else if rhs = .scalar then .ok lhs else .error .multiplyWithoutScalar) :
    multiply.Judged (some lhs) (some rhs) (multiply.check (some lhs) (some rhs)).1
      (multiply.check (some lhs) (some rhs)).2 := by
  by_cases hl : lhs = .scalar
  · simp only [check, typed, if_pos hl]
    subst hl
    exact .scalarLeft right
  · by_cases hr : rhs = .scalar
    · simp only [check, typed, if_neg hl, if_pos hr]
      subst hr
      exact .scalarRight left
    · simp only [check, typed, if_neg hl, if_neg hr]
      exact .noScalar left right hl hr

/-- The result of an operation follows the rules. -/
theorem Operator.judged_check (op : Operator) (l r : Option Ty) :
    op.Judged l r (op.check l r).1 (op.check l r).2 := by
  cases l with
  | none => exact .unknownLeft op r
  | some lhs =>
    cases r with
    | none => exact .unknownRight op _
    | some rhs =>
      by_cases color : lhs = .color ∨ rhs = .color
      · simp only [check, typeOf, if_pos color]
        exact .color op color
      · by_cases bool : lhs = .bool ∨ rhs = .bool
        · simp only [check, typeOf, if_neg color, if_pos bool]
          obtain ⟨notl, notr⟩ := not_or.mp color
          exact .bool op notl notr bool
        · obtain ⟨colorl, colorr⟩ := not_or.mp color
          obtain ⟨booll, boolr⟩ := not_or.mp bool
          have left : lhs.IsAmount := ⟨colorl, booll⟩
          have right : rhs.IsAmount := ⟨colorr, boolr⟩
          cases op with
          | multiply =>
            apply judged_product left right
            simp only [typeOf, if_neg color, if_neg bool]
          | add =>
            apply judged_sum (by decide) left right
            simp only [typeOf, if_neg color, if_neg bool]
          | subtract =>
            apply judged_sum (by decide) left right
            simp only [typeOf, if_neg color, if_neg bool]

/-- An expression has as many nodes as its size says. -/
@[simp] theorem Expr.length_preorder (e : Expr) : e.preorder.length = e.size := by
  induction e with
  | literal value m => rfl
  | reference name m => rfl
  | operation op lhs rhs m ihl ihr =>
    simp only [preorder, size, List.length_cons, List.length_append, ihl, ihr]
    omega

/-- A problem that is attached to an expression is the verdict of its first node. -/
theorem Expr.verdictsOf_report (e : Expr) (p : Problem) :
    verdictsOf (e.report p).preorder = some p :: (verdictsOf e.preorder).tail := by
  cases e <;> rfl

private theorem Expr.verdictsOf_report_of_unfit {e : Expr} {q : Problem} (h : e.unfit? = some q)
    (p : Problem) : verdictsOf (e.report p).preorder = [some p] := by
  cases unfit?_eq_some_iff.mp h <;> rfl

private theorem Mark.problem_reportAny_of_clean {m : Mark} (h : m.problem = none)
    (p : Option Problem) : (m.reportAny p).problem = p := by
  cases p with
  | none => exact h
  | some p => rfl

/-- An expression without problems is typed by the rules. -/
theorem Expr.judged_check {e : Expr} (clean : Unreported e.preorder) (scopes : TypeScopes) :
    e.Judged scopes.lookup (e.check scopes).2 (verdictsOf (e.check scopes).1.preorder) := by
  induction e with
  | literal value m =>
    have own : m.problem = none := clean _ (List.mem_singleton_self _)
    simp only [check, preorder, verdictsOf_cons, Node.problem?, mark, own]
    exact .literal value m
  | reference name m =>
    have own : m.problem = none := clean _ (List.mem_singleton_self _)
    unfold check
    cases h : scopes.lookup name with
    | some t =>
      simp only [preorder, verdictsOf_cons, Node.problem?, mark, own]
      exact .bound m h
    | none => exact .unbound m h
  | operation op lhs rhs m ihl ihr =>
    simp only [preorder, unreported_cons, unreported_append] at clean
    obtain ⟨own, cleanl, cleanr⟩ := clean
    have own : m.problem = none := own
    have clearl := verdictsOf_of_unreported cleanl
    have clearr := verdictsOf_of_unreported cleanr
    rw [length_preorder] at clearl clearr
    unfold check
    cases hl : lhs.unfit? with
    | some p =>
      simp only [preorder, verdictsOf_cons, verdictsOf_append, Node.problem?, mark, own, clearr,
        verdictsOf_report_of_unfit hl]
      exact .unfitLeft op rhs m (unfit?_eq_some_iff.mp hl)
    | none =>
      cases hr : rhs.unfit? with
      | some p =>
        simp only [preorder, verdictsOf_cons, verdictsOf_append, Node.problem?, mark, own, clearl,
          verdictsOf_report_of_unfit hr]
        exact .unfitRight op m (not_unfit hl) (unfit?_eq_some_iff.mp hr)
      | none =>
        simp only [preorder, verdictsOf_cons, verdictsOf_append, Node.problem?, mark,
          Mark.problem_reportAny_of_clean own]
        exact .operation m (not_unfit hl) (not_unfit hr) (ihl cleanl) (ihr cleanr)
          (op.judged_check _ _)

/-- A condition without problems is typed by the rules. -/
theorem Expr.judgedCondition_check {c : Expr} (clean : Unreported c.preorder)
    (scopes : TypeScopes) :
    c.JudgedCondition scopes.lookup (verdictsOf (c.checkCondition scopes).preorder) := by
  have judged := judged_check clean scopes
  unfold checkCondition
  split
  · next typed h =>
    rw [h] at judged
    exact .truth judged
  · next typed h =>
    rw [h] at judged
    exact .unknown judged
  · next typed t ne h =>
    rw [h] at judged
    rw [verdictsOf_report]
    have nonempty : verdictsOf typed.preorder ≠ [] := by
      cases typed <;> exact List.cons_ne_nil _ _
    obtain ⟨own, vs, hvs⟩ := List.exists_cons_of_ne_nil nonempty
    rw [hvs] at judged ⊢
    refine .other judged ?_
    rintro rfl
    exact ne rfl

/-! ### Blocks and sheets -/

/-- What is found wrong with a declaration follows the rules. -/
theorem Property.judged_problem? (property : String) (t : Option Ty) :
    Property.Judged property t (problem? property t) := by
  unfold problem?
  cases found : find? property with
  | none =>
    apply Judged.unknownProperty
    intro row mem
    simpa using List.find?_eq_none.mp found row mem
  | some row =>
    have mem := List.mem_of_find?_eq_some found
    have name : row.name = property := by simpa using List.find?_some found
    cases t with
    | none => exact .unknownType mem name
    | some t =>
      by_cases allowed : t ∈ row.allowed
      · simp only [if_pos allowed]
        exact .fit mem name allowed
      · simp only [if_neg allowed]
        exact .unfit mem name allowed

/-- A block without problems is typed by the rules, and leaves the environment that they give. -/
theorem Block.judged_check {b : Block} (clean : Unreported b.preorder) (scopes : TypeScopes) :
    b.Judged scopes.lookup (b.check scopes).2.lookup
      (verdictsOf (b.check scopes).1.preorder) := by
  induction b generalizing scopes with
  | empty => exact .empty _
  | declaration d rest ih =>
    simp only [preorder, unreported_cons, unreported_append] at clean
    obtain ⟨own, value, rest⟩ := clean
    simp only [check, Declaration.check, preorder, verdictsOf_cons, verdictsOf_append,
      Node.problem?, Mark.problem_reportAny_of_clean own]
    exact .declaration (Expr.judged_check value scopes) (Property.judged_problem? _ _)
      (ih rest scopes)
  | assignment a rest ih =>
    simp only [preorder, unreported_cons, unreported_append] at clean
    obtain ⟨own, value, rest⟩ := clean
    have own : a.mark.problem = none := own
    have judged := ih rest (scopes.declare a.name (a.value.check scopes).2)
    rw [Scopes.lookup_declare_eq_bind] at judged
    simp only [check, Assignment.check, preorder, verdictsOf_cons, verdictsOf_append,
      Node.problem?, own]
    exact .assignment (Expr.judged_check value scopes) judged
  | ifThen c body m rest ihBody ih =>
    simp only [preorder, unreported_cons, unreported_append] at clean
    obtain ⟨own, ⟨condition, body⟩, rest⟩ := clean
    have own : m.problem = none := own
    rw [check_ifThen]
    simp only [preorder, verdictsOf_cons, verdictsOf_append, Node.problem?, own]
    exact .ifThen m (Expr.judgedCondition_check condition scopes.push) (ihBody body scopes.push)
      (ih rest scopes)
  | ifElse c body m other om rest ihBody ihOther ih =>
    simp only [preorder, unreported_cons, unreported_append] at clean
    obtain ⟨own, ⟨⟨condition, first⟩, otherOwn, second⟩, last⟩ := clean
    have own : m.problem = none := own
    have otherOwn : om.problem = none := otherOwn
    rw [check_ifElse]
    simp only [preorder, verdictsOf_cons, verdictsOf_append, Node.problem?, own, otherOwn]
    have judged := ihOther second (body.check scopes.push).2.push
    exact .ifElse m om (Expr.judgedCondition_check condition scopes.push)
      (ihBody first scopes.push) judged (ih last scopes)

/-- Members without problems are typed by the rules. -/
theorem Sheet.judged_checkMembers {members : List Member}
    (clean : Unreported (members.flatMap Member.preorder)) (scopes : TypeScopes) :
    Member.Judged scopes.lookup members
      (verdictsOf ((checkMembers members scopes).1.flatMap Member.preorder)) := by
  induction members generalizing scopes with
  | nil => exact .nil _
  | cons m members ih =>
    rw [List.flatMap_cons, unreported_append] at clean
    obtain ⟨first, others⟩ := clean
    cases m with
    | rule r =>
      simp only [Member.preorder, unreported_cons, unreported_append] at first
      obtain ⟨own, -, body⟩ := first
      have own : r.mark.problem = none := own
      simp only [checkMembers, Rule.check, Block.enclosed_check, List.flatMap_cons,
        Member.preorder, Scopes.enclosed_fst, List.cons_append, List.append_assoc, verdictsOf_cons,
        verdictsOf_append, verdictsOf_selectors, Node.problem?, own]
      rw [← List.append_assoc]
      exact .rule (Block.judged_check body scopes.push) (ih others scopes)
    | assignment a =>
      simp only [Member.preorder, unreported_cons] at first
      obtain ⟨own, value⟩ := first
      have own : a.mark.problem = none := own
      have judged := ih others (scopes.declare a.name (a.value.check scopes).2)
      rw [Scopes.lookup_declare_eq_bind] at judged
      simp only [checkMembers, Assignment.check, List.flatMap_cons, Member.preorder,
        List.cons_append, verdictsOf_cons, verdictsOf_append, Node.problem?, own]
      exact .assignment (Expr.judged_check value scopes) judged

/-- A sheet without problems is typed by the rules. -/
theorem Sheet.judged_check {s : Sheet} (clean : s.diagnostics = []) (scopes : TypeScopes) :
    s.Judged scopes.lookup (verdictsOf (s.check scopes).1.nodes) := by
  rw [diagnostics_eq_nil_iff, preorder, unreported_cons] at clean
  have members := judged_checkMembers clean.2 scopes.push
  rw [nodes_eq_preorder, preorder, verdictsOf_cons]
  have own : (Node.sheet (s.check scopes).1).problem? = none := clean.1
  rw [own]
  exact .sheet members

/-! ### The tree stays the same -/

@[simp] theorem Expr.bare_report (e : Expr) (p : Problem) : (e.report p).bare = e.bare := by
  cases e <;> rfl

/-- Typing an expression changes marks only. -/
@[simp] theorem Expr.bare_check (e : Expr) (scopes : TypeScopes) :
    (e.check scopes).1.bare = e.bare := by
  induction e with
  | literal value m => rfl
  | reference name m =>
    unfold check
    cases scopes.lookup name <;> rfl
  | operation op lhs rhs m ihl ihr =>
    unfold check
    cases lhs.unfit? with
    | some p => simp only [bare, bare_report]
    | none => cases rhs.unfit? <;> simp only [bare, bare_report, ihl, ihr]

/-- Typing a condition changes marks only. -/
@[simp] theorem Expr.bare_checkCondition (c : Expr) (scopes : TypeScopes) :
    (c.checkCondition scopes).bare = c.bare := by
  have typed := c.bare_check scopes
  unfold checkCondition
  split
  · next h => rwa [h] at typed
  · next h => rwa [h] at typed
  · next h => rwa [h, ← bare_report] at typed

/-- Typing a block changes marks only. -/
@[simp] theorem Block.bare_check (b : Block) (scopes : TypeScopes) :
    (b.check scopes).1.bare = b.bare := by
  induction b generalizing scopes with
  | empty => rfl
  | declaration d rest ih => simp [check, Declaration.check, bare, Declaration.bare, ih]
  | assignment a rest ih => simp [check, Assignment.check, bare, Assignment.bare, ih]
  | ifThen c body m rest ihBody ih => simp [check_ifThen, bare, ihBody, ih]
  | ifElse c body m other om rest ihBody ihOther ih =>
    simp [check_ifElse, bare, ihBody, ihOther, ih]

/-- Typing members changes marks only. -/
theorem Sheet.bare_checkMembers (members : List Member) (scopes : TypeScopes) :
    (checkMembers members scopes).1.map Member.bare = members.map Member.bare := by
  induction members generalizing scopes with
  | nil => rfl
  | cons m members ih =>
    cases m with
    | rule r => simp [checkMembers, Rule.check, Member.bare, ih]
    | assignment a => simp [checkMembers, Assignment.check, Member.bare, Assignment.bare, ih]

/-- Typing a sheet changes marks only. -/
theorem Sheet.bare_check (s : Sheet) (scopes : TypeScopes) :
    (s.check scopes).1.bare = s.bare := by
  rw [bare, bare]
  exact congrArg ofMembers (bare_checkMembers s.members scopes.push)

/-! ### Typing and the rules agree -/

/-- The environment in which some variables have the types of their values. -/
def TypeEnvironment.ofGlobals (globals : List (String × Literal)) : TypeEnvironment :=
  Environment.ofGlobals (globals.map fun g ↦ (g.1, some g.2.type))

/-- Typing a sheet without problems leaves its tree as it was, and each node then carries the
problem that the rules find with it, or none where they find none. -/
theorem Sheet.check_follows_rules {s : Sheet} (clean : s.diagnostics = [])
    (globals : List (String × Literal)) :
    (s.check (.ofGlobals globals)).1.bare = s.bare ∧
      ∀ vs, s.Judged (.ofGlobals globals) vs ↔
        (s.check (.ofGlobals globals)).1.nodes.map Node.problem? = vs := by
  refine ⟨s.bare_check _, ?_⟩
  intro vs
  have judged := judged_check clean (.ofGlobals globals)
  have env : Scopes.lookup (TypeScopes.ofGlobals globals) = TypeEnvironment.ofGlobals globals :=
    Scopes.lookup_ofGlobals _
  rw [env] at judged
  constructor
  · intro h
    exact judged.unique h
  · rintro rfl
    exact judged

/-- A variable that the first branch binds to no type silences the second one, where only the
property and an unfit operand are found wrong. -/
theorem Sheet.check_follows_rules_in_branches :
    let m := Mark.clean .unknown
    let reads (name : String) : Expr := .reference name m
    let s : Sheet := .ofMembers [
      .assignment ⟨"H", .literal (.color "#000000") m, m⟩,
      .rule ⟨[.tag "a"],
        .ifElse (reads "H") (.assignment ⟨"H", reads "N", m⟩ .empty) m
          (.declaration ⟨"width", .operation .add (reads "H") (reads "G") m, m⟩
            (.declaration ⟨"margin", reads "H", m⟩
              (.declaration ⟨"height", .operation .multiply (.literal (.bool true) m)
                (.operation .add (reads "N") (.literal (.color "#ffffff") m) m) m, m⟩ .empty))) m
          (.declaration ⟨"color", .operation .add (reads "H") (reads "G") m, m⟩ .empty), m⟩]
    let globals := [("H", .bool true), ("G", .scalar ⟨2, by decide, by decide⟩)]
    s.diagnostics = [] ∧ s.Judged (.ofGlobals globals)
      [none, none, none, none, none, none, some .conditionNotBoolean, none,
        some (.undefinedVariable "N"), none, none, none, none, none,
        some (.unknownProperty "margin"), none, none, none, some .boolOperand, none, none, none,
        none, some .colorOperand, none, none] := by
  intro m reads s globals
  have clean : s.diagnostics = [] := by
    rw [diagnostics_eq_nil_iff, Unreported]
    decide
  refine ⟨clean, ((check_follows_rules clean globals).2 _).mpr ?_⟩
  rw [nodes_eq_preorder]
  decide

end FlatSheet
