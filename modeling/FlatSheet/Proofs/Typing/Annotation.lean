import Mathlib.Data.List.Forall2
import FlatSheet.Proofs.Typing.Relabelling

/-!
# Typing only annotates

What typing finds wrong with a sheet is what it attaches to the sheet with its problems taken off.
Typing any sheet puts this over the problems that were attached before and changes nothing else, so
that typing twice is typing once. What is found depends neither on positions and earlier problems nor
on the payloads of literals, but on their types only.
-/

namespace FlatSheet

/-! ### What typing finds -/

/-- What typing finds wrong with each node of a sheet, in document order: what it attaches to the
sheet without its problems. -/
def Sheet.found (s : Sheet) (scopes : TypeScopes) : Verdicts :=
  verdictsOf (s.cleared.check scopes).1.nodes

/-- What is found wrong with some nodes takes the place of what was attached to them before; what
was attached stays where nothing is found. -/
def Verdicts.atop (found before : Verdicts) : Verdicts := List.zipWith Option.or found before

/-- Whether a node is a declaration or an expression. -/
def Node.isTyped : Node → Bool
  | declaration _ => true
  | expr _ => true
  | _ => false

/-- A verdict that typing may come to on a node: only a declaration or an expression can be found
wrong. -/
def Node.Takes (n : Node) (v : Option Problem) : Prop := v ≠ none → n.isTyped

/-! ### Verdicts on top of others -/

namespace Verdicts

@[simp] theorem atop_cons (v w : Option Problem) (found before : Verdicts) :
    atop (v :: found) (w :: before) = v.or w :: found.atop before := rfl

/-- Parts of equal length are put over each other one by one. -/
theorem atop_append {found before : Verdicts} (others rest : Verdicts)
    (length : found.length = before.length) :
    atop (found ++ others) (before ++ rest) = found.atop before ++ others.atop rest :=
  List.zipWith_append length

/-- Where nothing is found, all stays. -/
theorem atop_of_nothing {found before : Verdicts} (nothing : ∀ v ∈ found, v = none)
    (length : found.length = before.length) : found.atop before = before := by
  induction found generalizing before with
  | nil => exact (List.length_eq_zero_iff.mp length.symm).symm
  | cons v found ih =>
    obtain ⟨w, before, rfl⟩ := List.exists_cons_of_length_eq_add_one length.symm
    obtain ⟨rfl, others⟩ := List.forall_mem_cons.mp nothing
    rw [atop_cons, Option.none_or, ih others (Nat.succ.inj length)]

/-- What is found is all there is where nothing was attached. -/
theorem atop_clear (found : Verdicts) : found.atop (clear found.length) = found := by
  induction found with
  | nil => rfl
  | cons v found ih =>
    rw [List.length_cons, clear, List.replicate_succ, atop_cons, Option.or_none]
    exact congrArg (v :: ·) ih

/-- Putting the same over others twice changes nothing more. -/
theorem atop_atop (found before : Verdicts) :
    found.atop (found.atop before) = found.atop before := by
  induction found generalizing before with
  | nil => rfl
  | cons v found ih =>
    cases before with
    | nil => rfl
    | cons w before =>
      rw [atop_cons, atop_cons, ih]
      cases v <;> rfl

end Verdicts

/-! ### What is attached -/

section

variable {f : Relabelling}

theorem Expr.unfit?_relabel (typed : f.Typed) (e : Expr) :
    (e.relabel f).unfit? = e.unfit? := by
  cases e with
  | literal v m =>
    have same := typed v
    rw [relabel]
    cases v <;> cases h : f.value _ <;> rw [h] at same <;> first | rfl | cases same
  | _ => rfl

private theorem Expr.check_unfitLeft {op : Operator} {lhs rhs : Expr} {m : Mark} {p : Problem}
    (left : lhs.unfit? = some p) (scopes : TypeScopes) :
    (operation op lhs rhs m).check scopes = (operation op (lhs.report p) rhs m, none) := by
  rw [check, left]

private theorem Expr.check_unfitRight {op : Operator} {lhs rhs : Expr} {m : Mark} {p : Problem}
    (left : lhs.unfit? = none) (right : rhs.unfit? = some p) (scopes : TypeScopes) :
    (operation op lhs rhs m).check scopes = (operation op lhs (rhs.report p) m, none) := by
  rw [check, left, right]

private theorem Expr.check_fit {op : Operator} {lhs rhs : Expr} {m : Mark}
    (left : lhs.unfit? = none) (right : rhs.unfit? = none) (scopes : TypeScopes) :
    (operation op lhs rhs m).check scopes =
      (operation op (lhs.check scopes).1 (rhs.check scopes).1
        (m.reportAny (op.check (lhs.check scopes).2 (rhs.check scopes).2).2),
        (op.check (lhs.check scopes).2 (rhs.check scopes).2).1) := by
  rw [check, left, right]

/-- The type of an expression is made up of the types of its literals. -/
theorem Expr.check_relabel_snd (typed : f.Typed) (e : Expr) (scopes : TypeScopes) :
    ((e.relabel f).check scopes).2 = (e.check scopes).2 := by
  induction e with
  | literal v m => exact congrArg some (typed v)
  | reference name m =>
    rw [relabel, check, check]
    cases scopes.lookup name <;> rfl
  | operation op lhs rhs m ihl ihr =>
    have left := lhs.unfit?_relabel typed
    have right := rhs.unfit?_relabel typed
    rw [relabel]
    cases hl : lhs.unfit? with
    | some p => rw [check_unfitLeft hl, check_unfitLeft (left.trans hl)]
    | none =>
      cases hr : rhs.unfit? with
      | some p =>
        rw [check_unfitRight hl hr, check_unfitRight (left.trans hl) (right.trans hr)]
      | none =>
        rw [check_fit hl hr, check_fit (left.trans hl) (right.trans hr), ihl, ihr]

/-- Where typing does not look at an expression, what was attached to it stays. -/
theorem Expr.verdictsOf_relabel_atop (clean : f.Clean) (e : Expr) :
    (verdictsOf (e.relabel f).preorder).atop (verdictsOf e.preorder) = verdictsOf e.preorder := by
  rw [verdictsOf_of_unreported (unreported_relabel clean e), length_preorder, size_relabel]
  apply Verdicts.atop_of_nothing
  · exact fun v hv ↦ List.eq_of_mem_replicate hv
  · rw [Verdicts.clear, List.length_replicate, length_verdictsOf, length_preorder]

/-- A problem that is attached to an expression is attached over what was there. -/
theorem Expr.verdictsOf_report_atop {e found : Expr} {before : Verdicts}
    (same : verdictsOf e.preorder = (verdictsOf found.preorder).atop before) (p : Problem) :
    verdictsOf (e.report p).preorder = (verdictsOf (found.report p).preorder).atop before := by
  cases before with
  | nil =>
    rw [Verdicts.atop, List.zipWith_nil_right] at same
    cases e <;> cases same
  | cons v before =>
    rw [verdictsOf_report, verdictsOf_report, Verdicts.atop_cons, same]
    cases found <;> rfl

private theorem Mark.problem_reportAny_or {m n : Mark} (clean : n.problem = none)
    (p : Option Problem) : (m.reportAny p).problem = (n.reportAny p).problem.or m.problem := by
  cases p with
  | none => rw [reportAny, reportAny, clean, Option.none_or]
  | some p => rfl

/-- What is found in both operands and in an operation itself is what is found in the operation. -/
private theorem Expr.verdictsOf_operation {op : Operator} {lhs rhs l r fl fr : Expr} {m n fm : Mark}
    (own : n.problem = fm.problem.or m.problem)
    (left : verdictsOf l.preorder = (verdictsOf fl.preorder).atop (verdictsOf lhs.preorder))
    (right : verdictsOf r.preorder = (verdictsOf fr.preorder).atop (verdictsOf rhs.preorder))
    (size : fl.size = lhs.size) :
    verdictsOf (operation op l r n).preorder =
      (verdictsOf (operation op fl fr fm).preorder).atop
        (verdictsOf (operation op lhs rhs m).preorder) := by
  simp only [preorder, verdictsOf_cons, verdictsOf_append, Node.problem?, Expr.mark,
    Verdicts.atop_cons]
  rw [Verdicts.atop_append, own, left, right]
  rw [length_verdictsOf, length_verdictsOf, length_preorder, length_preorder, size]

/-- Typing an expression puts what it finds over what was attached. -/
theorem Expr.verdictsOf_check (clean : f.Clean) (typed : f.Typed) (e : Expr)
    (scopes : TypeScopes) :
    verdictsOf (e.check scopes).1.preorder =
      (verdictsOf ((e.relabel f).check scopes).1.preorder).atop (verdictsOf e.preorder) := by
  induction e with
  | literal v m => exact (verdictsOf_relabel_atop clean (literal v m)).symm
  | reference name m =>
    rw [relabel, check, check]
    cases scopes.lookup name with
    | some t => exact (verdictsOf_relabel_atop clean (reference name m)).symm
    | none => rfl
  | operation op lhs rhs m ihl ihr =>
    have fitl := lhs.unfit?_relabel typed
    have fitr := rhs.unfit?_relabel typed
    have oldl := (verdictsOf_relabel_atop clean lhs).symm
    have oldr := (verdictsOf_relabel_atop clean rhs).symm
    have own (p : Option Problem) := Mark.problem_reportAny_or (m := m) (clean m) p
    rw [relabel]
    -- An operand that is not fit ends the typing of the operation: the operands keep what they had,
    -- but for this one.
    cases hl : lhs.unfit? with
    | some p =>
      rw [check_unfitLeft hl, check_unfitLeft (fitl.trans hl)]
      exact verdictsOf_operation (own none) (verdictsOf_report_atop oldl p) oldr (by simp)
    | none =>
      cases hr : rhs.unfit? with
      | some p =>
        rw [check_unfitRight hl hr, check_unfitRight (fitl.trans hl) (fitr.trans hr)]
        exact verdictsOf_operation (own none) oldl (verdictsOf_report_atop oldr p) (by simp)
      | none =>
        rw [check_fit hl hr, check_fit (fitl.trans hl) (fitr.trans hr), check_relabel_snd typed,
          check_relabel_snd typed]
        exact verdictsOf_operation (own _) ihl ihr (by simp)

/-- Typing a condition puts what it finds over what was attached. -/
theorem Expr.verdictsOf_checkCondition (clean : f.Clean) (typed : f.Typed) (c : Expr)
    (scopes : TypeScopes) :
    verdictsOf (c.checkCondition scopes).preorder =
      (verdictsOf ((c.relabel f).checkCondition scopes).preorder).atop (verdictsOf c.preorder) := by
  have same := c.check_relabel_snd typed scopes
  have verdicts := c.verdictsOf_check clean typed scopes
  by_cases fit : ∀ t, (c.check scopes).2 = some t → t = .bool
  · rw [checkCondition_of_fit fit, checkCondition_of_fit (by rwa [same]), verdicts]
  · simp only [Classical.not_forall] at fit
    obtain ⟨t, type, unfit⟩ := fit
    rw [checkCondition_of_unfit type unfit, checkCondition_of_unfit (same.trans type) unfit,
      verdictsOf_report_atop verdicts]

/-- The scopes after a block are made up of the types of its literals. -/
theorem Block.check_relabel_snd (typed : f.Typed) (b : Block) (scopes : TypeScopes) :
    ((b.relabel f).check scopes).2 = (b.check scopes).2 := by
  induction b generalizing scopes with
  | empty => rfl
  | declaration d rest ih => exact ih scopes
  | assignment a rest ih =>
    simp only [relabel, check, Assignment.check, Assignment.relabel, Expr.check_relabel_snd typed,
      ih]
  | ifThen c body m rest ihBody ih => simp only [relabel, check_ifThen, ih]
  | ifElse c body m other om rest ihBody ihOther ih => simp only [relabel, check_ifElse, ih]

/-- Typing a block puts what it finds over what was attached. -/
theorem Block.verdictsOf_check (clean : f.Clean) (typed : f.Typed) (b : Block)
    (scopes : TypeScopes) :
    verdictsOf (b.check scopes).1.preorder =
      (verdictsOf ((b.relabel f).check scopes).1.preorder).atop (verdictsOf b.preorder) := by
  induction b generalizing scopes with
  | empty => rfl
  | declaration d rest ih =>
    have own (p : Option Problem) := Mark.problem_reportAny_or (m := d.mark) (clean d.mark) p
    have same := d.value.check_relabel_snd typed scopes
    simp only [relabel, check, Declaration.check, Declaration.relabel, preorder, verdictsOf_cons,
      verdictsOf_append, Node.problem?, Verdicts.atop_cons, same]
    rw [Verdicts.atop_append _ _ (by simp), ← ih, ← Expr.verdictsOf_check clean typed, own]
  | assignment a rest ih =>
    have same := a.value.check_relabel_snd typed scopes
    simp only [relabel, check, Assignment.check, Assignment.relabel, preorder, verdictsOf_cons,
      verdictsOf_append, Node.problem?, Verdicts.atop_cons, same, clean.problem_mark,
      Option.none_or]
    rw [Verdicts.atop_append _ _ (by simp), ← ih, ← Expr.verdictsOf_check clean typed]
  | ifThen c body m rest ihBody ih =>
    simp only [relabel, check_ifThen, preorder, verdictsOf_cons, verdictsOf_append, Node.problem?,
      Verdicts.atop_cons, clean.problem_mark, Option.none_or]
    rw [Verdicts.atop_append _ _ (by simp), Verdicts.atop_append _ _ (by simp), ← ihBody, ← ih,
      ← Expr.verdictsOf_checkCondition clean typed]
  | ifElse c body m other om rest ihBody ihOther ih =>
    -- The other branch is typed on top of the scopes after the first one.
    have inner := body.check_relabel_snd typed scopes.push
    simp only [relabel, check_ifElse, preorder, verdictsOf_cons, verdictsOf_append, Node.problem?,
      Verdicts.atop_cons, inner, clean.problem_mark, Option.none_or]
    rw [Verdicts.atop_append _ _ (by simp), Verdicts.atop_append _ _ (by simp),
      Verdicts.atop_append _ _ (by simp), Verdicts.atop_cons, ← ihBody, ← ihOther, ← ih,
      ← Expr.verdictsOf_checkCondition clean typed, Option.none_or]

/-- Typing members puts what it finds over what was attached. -/
theorem Sheet.verdictsOf_checkMembers (clean : f.Clean) (typed : f.Typed) (members : List Member)
    (scopes : TypeScopes) :
    verdictsOf ((checkMembers members scopes).1.flatMap Member.preorder) =
      (verdictsOf ((checkMembers (members.map (Member.relabel f)) scopes).1.flatMap
        Member.preorder)).atop (verdictsOf (members.flatMap Member.preorder)) := by
  induction members generalizing scopes with
  | nil => rfl
  | cons m members ih =>
    cases m with
    | rule r =>
      have selectors : (verdictsOf (r.selectors.map .selector)).atop
          (verdictsOf (r.selectors.map .selector)) = verdictsOf (r.selectors.map .selector) := by
        rw [verdictsOf_selectors]
        exact Verdicts.atop_of_nothing (fun v hv ↦ List.eq_of_mem_replicate hv) rfl
      simp only [checkMembers, List.map_cons, List.flatMap_cons, Member.relabel, Member.preorder,
        Rule.check, Scopes.enclosed_fst, List.cons_append, verdictsOf_cons, verdictsOf_append,
        Node.problem?, Verdicts.atop_cons, clean.problem_mark, Option.none_or]
      rw [Verdicts.atop_append _ _ (by simp), Verdicts.atop_append _ _ rfl, selectors,
        ← Block.verdictsOf_check clean typed, Block.enclosed_check, Block.enclosed_check, ← ih]
    | assignment a =>
      have same := a.value.check_relabel_snd typed scopes
      simp only [checkMembers, Assignment.check, List.map_cons, List.flatMap_cons, Member.relabel,
        Assignment.relabel, Member.preorder, List.cons_append, verdictsOf_cons, verdictsOf_append,
        Node.problem?, Verdicts.atop_cons, same, clean.problem_mark, Option.none_or]
      rw [Verdicts.atop_append _ _ (by simp), ← ih, ← Expr.verdictsOf_check clean typed]

/-- Typing a sheet puts what it finds over what was attached. -/
theorem Sheet.verdictsOf_check (clean : f.Clean) (typed : f.Typed) (s : Sheet)
    (scopes : TypeScopes) :
    verdictsOf (s.check scopes).1.nodes =
      (verdictsOf ((s.relabel f).check scopes).1.nodes).atop (verdictsOf s.nodes) := by
  rw [nodes_eq_preorder, nodes_eq_preorder, nodes_eq_preorder, preorder, preorder, preorder,
    verdictsOf_cons, verdictsOf_cons, verdictsOf_cons, Verdicts.atop_cons]
  exact congrArg (s.problem :: ·) (verdictsOf_checkMembers clean typed s.members scopes.push)

end

/-! ### What can be found wrong -/

private theorem Expr.isTyped_of_mem {e : Expr} {n : Node} (mem : n ∈ e.preorder) : n.isTyped := by
  induction e with
  | literal v m =>
    rw [List.mem_singleton.mp mem]
    rfl
  | reference name m =>
    rw [List.mem_singleton.mp mem]
    rfl
  | operation op lhs rhs m ihl ihr =>
    rcases List.mem_cons.mp mem with rfl | mem
    · rfl
    · exact (List.mem_append.mp mem).elim ihl ihr

/-- Any node of an expression may be found wrong. -/
theorem Expr.takes (e : Expr) {vs : Verdicts} (length : vs.length = e.size) :
    List.Forall₂ Node.Takes e.preorder vs := by
  rw [List.forall₂_iff_zip]
  refine ⟨by rw [length_preorder, length], ?_⟩
  intro n v mem _
  exact isTyped_of_mem (List.of_mem_zip mem).1

private theorem Node.takes_of_clean {n : Node} {v : Option Problem} (h : v = none) : n.Takes v :=
  fun ne ↦ absurd h ne

section

variable {f : Relabelling}

/-- In a block with clean marks only declarations and expressions are found wrong. -/
theorem Block.takes_check (clean : f.Clean) (b : Block) (scopes : TypeScopes) :
    List.Forall₂ Node.Takes b.preorder (verdictsOf ((b.relabel f).check scopes).1.preorder) := by
  induction b generalizing scopes with
  | empty => exact .nil
  | declaration d rest ih =>
    simp only [relabel, check, preorder, verdictsOf_cons, verdictsOf_append]
    refine .cons (fun _ ↦ rfl) (List.rel_append ?_ (ih _))
    exact d.value.takes (by simp [Declaration.check, Declaration.relabel])
  | assignment a rest ih =>
    simp only [relabel, check, preorder, verdictsOf_cons, verdictsOf_append]
    refine .cons (Node.takes_of_clean (clean a.mark)) (List.rel_append ?_ (ih _))
    exact a.value.takes (by simp [Assignment.check, Assignment.relabel])
  | ifThen c body m rest ihBody ih =>
    simp only [relabel, check_ifThen, preorder, verdictsOf_cons, verdictsOf_append]
    refine .cons (Node.takes_of_clean (clean m)) (List.rel_append (List.rel_append ?_ (ihBody _)) (ih _))
    exact c.takes (by simp)
  | ifElse c body m other om rest ihBody ihOther ih =>
    simp only [relabel, check_ifElse, preorder, verdictsOf_cons, verdictsOf_append]
    refine .cons (Node.takes_of_clean (clean m)) (List.rel_append (List.rel_append
      (List.rel_append ?_ (ihBody _)) ?_) (ih _))
    · exact c.takes (by simp)
    · exact .cons (Node.takes_of_clean (clean om)) (ihOther _)

/-- Among members with clean marks only declarations and expressions are found wrong. -/
theorem Sheet.takes_checkMembers (clean : f.Clean) (members : List Member) (scopes : TypeScopes) :
    List.Forall₂ Node.Takes (members.flatMap Member.preorder)
      (verdictsOf ((checkMembers (members.map (Member.relabel f)) scopes).1.flatMap
        Member.preorder)) := by
  induction members generalizing scopes with
  | nil => exact .nil
  | cons m members ih =>
    simp only [List.map_cons, List.flatMap_cons]
    cases m with
    | rule r =>
      simp only [Member.relabel, checkMembers, Rule.check, List.flatMap_cons, Member.preorder,
        verdictsOf_cons, verdictsOf_append, Scopes.enclosed_fst, List.cons_append]
      have selectors : List.Forall₂ Node.Takes (r.selectors.map .selector)
          (verdictsOf (r.selectors.map .selector)) := by
        rw [verdictsOf, List.forall₂_map_right_iff, List.forall₂_same]
        intro n hn
        obtain ⟨selector, -, rfl⟩ := List.mem_map.mp hn
        exact Node.takes_of_clean rfl
      have inside := List.rel_append selectors (r.body.takes_check clean scopes.push)
      exact .cons (Node.takes_of_clean (clean r.mark)) (List.rel_append inside (ih _))
    | assignment a =>
      simp only [Member.relabel, checkMembers, List.flatMap_cons, Member.preorder, verdictsOf_cons,
        verdictsOf_append, List.cons_append]
      refine .cons (Node.takes_of_clean (clean a.mark)) (List.rel_append ?_ (ih _))
      exact a.value.takes (by simp [Assignment.check, Assignment.relabel])

/-- In a sheet with clean marks only declarations and expressions are found wrong. -/
theorem Sheet.takes_check (clean : f.Clean) (s : Sheet) (scopes : TypeScopes) :
    List.Forall₂ Node.Takes s.nodes (verdictsOf ((s.relabel f).check scopes).1.nodes) := by
  rw [nodes_eq_preorder, nodes_eq_preorder, preorder, preorder, verdictsOf_cons]
  exact .cons (Node.takes_of_clean rfl) (takes_checkMembers clean s.members scopes.push)

end

/-! ### Typing a sheet -/

/-- Global variables are known to typing by their types only. -/
theorem TypeScopes.ofGlobals_congr {globals others : List (String × Literal)}
    (types : globals.map (fun g ↦ (g.1, g.2.type)) = others.map (fun g ↦ (g.1, g.2.type))) :
    ofGlobals globals = ofGlobals others := by
  have same := congrArg (List.map fun g : String × Ty ↦ (g.1, some g.2)) types
  rw [List.map_map, List.map_map] at same
  exact congrArg Scopes.ofGlobals same

namespace Sheet

open Relabelling

/-- What is found wrong with a sheet is what is attached to its outline. -/
theorem found_eq (s : Sheet) (scopes : TypeScopes) :
    s.found scopes = verdictsOf (s.outline.check scopes).1.nodes := by
  have same : s.cleared.relabel .outlining = s.outline := s.relabel_relabel
  have verdicts := s.cleared.verdictsOf_check clean_outlining typed_outlining scopes
  have takes := s.cleared.takes_check clean_outlining scopes
  have clear : verdictsOf s.cleared.nodes = Verdicts.clear s.cleared.nodes.length :=
    verdictsOf_of_unreported (s.unreported_relabel clean_clearing)
  rw [same] at verdicts takes
  rw [found, verdicts, clear, takes.length_eq, Verdicts.atop_clear]

/-- Sheets with the same outline are found to have the same problems. -/
theorem found_congr {s t : Sheet} (same : s.outline = t.outline) (scopes : TypeScopes) :
    s.found scopes = t.found scopes := by
  rw [found_eq, found_eq, same]

/-- Typing a sheet puts what is found over what was attached. -/
theorem verdictsOf_check_eq_atop (s : Sheet) (scopes : TypeScopes) :
    verdictsOf (s.check scopes).1.nodes = (s.found scopes).atop (verdictsOf s.nodes) :=
  s.verdictsOf_check clean_clearing typed_clearing scopes

/-- Typing a sheet changes only the problems that are attached. -/
theorem cleared_check (s : Sheet) (scopes : TypeScopes) :
    (s.check scopes).1.cleared = s.cleared :=
  s.relabel_check blind_clearing scopes

/-- What is found wrong with the nodes of a sheet, one by one. -/
theorem takes_found (s : Sheet) (scopes : TypeScopes) :
    List.Forall₂ Node.Takes s.nodes (s.found scopes) := s.takes_check clean_clearing scopes

/-- A sheet with which nothing is found wrong stays as it was, its earlier problems included. -/
theorem check_of_nothing {s : Sheet} {scopes : TypeScopes}
    (nothing : ∀ v ∈ s.found scopes, v = none) : s.check scopes = (s, scopes) := by
  refine Prod.ext ?_ (s.check_snd scopes)
  apply eq_of_cleared (s.cleared_check scopes)
  rw [verdictsOf_check_eq_atop, Verdicts.atop_of_nothing nothing]
  rw [length_verdictsOf, (s.takes_found scopes).length_eq]

/-- Typing a sheet once more changes nothing. -/
theorem check_check (s : Sheet) (scopes : TypeScopes) :
    (s.check scopes).1.check scopes = s.check scopes := by
  refine Prod.ext ?_ (by rw [check_snd, check_snd])
  apply eq_of_cleared ((s.check scopes).1.cleared_check scopes)
  have found : (s.check scopes).1.found scopes = s.found scopes := by
    rw [Sheet.found, cleared_check, ← Sheet.found]
  rw [verdictsOf_check_eq_atop, found, verdictsOf_check_eq_atop, Verdicts.atop_atop]

/-- Typing a sheet changes nothing but the problems that are attached to it. It puts what it finds,
with declarations and expressions only, over what was attached; a sheet with which it finds nothing
wrong stays as it was, and so does one that was typed in the same scopes before. What is found is the
same for sheets of one outline, and for global variables of the same types. -/
theorem check_annotates (s : Sheet) (scopes : TypeScopes) :
    (s.check scopes).1.cleared = s.cleared ∧
    verdictsOf (s.check scopes).1.nodes = (s.found scopes).atop (verdictsOf s.nodes) ∧
    List.Forall₂ Node.Takes s.nodes (s.found scopes) ∧
    ((∀ v ∈ s.found scopes, v = none) → s.check scopes = (s, scopes)) ∧
    (s.check scopes).1.check (s.check scopes).2 = s.check scopes ∧
    ∀ t : Sheet, s.outline = t.outline → s.found scopes = t.found scopes ∧
      ∀ globals others : List (String × Literal),
        globals.map (fun g ↦ (g.1, g.2.type)) = others.map (fun g ↦ (g.1, g.2.type)) →
          s.found (.ofGlobals globals) = t.found (.ofGlobals others) := by
  refine ⟨s.cleared_check scopes, s.verdictsOf_check_eq_atop scopes, s.takes_found scopes,
    check_of_nothing, ?_, ?_⟩
  · rw [check_snd, check_check]
  · intro t same
    refine ⟨found_congr same scopes, ?_⟩
    intro globals others types
    rw [TypeScopes.ofGlobals_congr types, found_congr same]

/-- The condition is found wrong in place of its earlier problem, also with other payloads, and
other earlier problems stay. In the last sheet nothing is found, and all its problems stay. -/
theorem check_annotates_reported :
    let bad (line column : Nat) : Mark := ⟨⟨line, column⟩, some .boolOperand⟩
    let rule (mark : Nat → Nat → Mark) (value : Expr) (body : Block) : Sheet := ⟨[
      .assignment ⟨"H", value, mark 1 1⟩,
      .rule ⟨[.id "#a", .cls ".b"],
        .ifThen (.reference "H" (mark 3 6)) body (mark 3 3) .empty, mark 2 1⟩],
      some .operandMismatch⟩
    let width (mark : Nat → Nat → Mark) : Block :=
      .declaration ⟨"width", .operation .add (.reference "G" (mark 4 12))
        (.reference "N" (mark 4 16)) (mark 4 14), mark 4 5⟩ .empty
    let s := rule bad (.literal (.pixels ⟨4, by decide, by decide⟩) (bad 1 4)) (width bad)
    let t := rule (fun _ _ ↦ .clean .unknown)
      (.literal (.pixels ⟨-1, by decide, by decide⟩) (bad 9 9))
      (width fun line _ ↦ .clean ⟨line, line⟩)
    let quiet := rule bad (.literal (.bool true) (bad 1 4)) .empty
    let globals := [("G", Literal.bool true), ("G", .color "#000000")]
    let others := [("G", Literal.bool false), ("G", .color "#ffffff")]
    let wrong := some Problem.boolOperand
    s.found (.ofGlobals globals) = [none, none, none, none, none, none, none,
      some .conditionNotBoolean, none, none, none, some (.undefinedVariable "N")] ∧
    t.found (.ofGlobals others) = s.found (.ofGlobals globals) ∧
    verdictsOf (s.check (.ofGlobals globals)).1.nodes = [some .operandMismatch, wrong, wrong, wrong,
      none, none, wrong, some .conditionNotBoolean, wrong, wrong, wrong,
      some (.undefinedVariable "N")] ∧
    quiet.check (.ofGlobals globals) = (quiet, .ofGlobals globals) := by
  intro bad rule width s t quiet globals others wrong
  have found : s.found (.ofGlobals globals) = [none, none, none, none, none, none, none,
      some .conditionNotBoolean, none, none, none, some (.undefinedVariable "N")] := by
    rw [Sheet.found, nodes_eq_preorder]
    decide
  have before : verdictsOf s.nodes = [some .operandMismatch, wrong, wrong, wrong, none, none, wrong,
      wrong, wrong, wrong, wrong, wrong] := by
    rw [nodes_eq_preorder]
    decide
  obtain ⟨-, verdicts, -, -, -, alike⟩ := check_annotates s (.ofGlobals globals)
  obtain ⟨-, -, -, same, -, -⟩ := check_annotates quiet (.ofGlobals globals)
  refine ⟨found, ((alike t rfl).2 globals others rfl).symm, ?_, same ?_⟩
  · rw [verdicts, found, before]
    rfl
  · rw [Sheet.found, nodes_eq_preorder]
    decide

end Sheet

end FlatSheet
