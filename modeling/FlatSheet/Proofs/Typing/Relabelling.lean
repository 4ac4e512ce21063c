import FlatSheet.Proofs.Typing.Exact

/-!
# Other marks and other values

A sheet may be given other marks, and other values in its literals, and has the same form then.
Typing a sheet does no more than that: it only attaches problems to the marks. A sheet is made up of
what is left of it when all problems are taken off, and of the problems of its nodes.
-/

namespace FlatSheet

/-! ### Other marks and other values -/

/-- A change of marks and of the values in literals. -/
structure Relabelling where
  mark : Mark → Mark
  value : Literal → Literal

namespace Relabelling

/-- No problem is left in a mark. -/
def Clean (f : Relabelling) : Prop := ∀ m, (f.mark m).problem = none

/-- A mark becomes the same whatever problem it has. -/
def Blind (f : Relabelling) : Prop := ∀ m p, f.mark (m.report p) = f.mark m

/-- Values keep their types. -/
def Typed (f : Relabelling) : Prop := ∀ v, (f.value v).type = v.type

theorem Clean.problem_mark {f : Relabelling} (h : f.Clean) (m : Mark) :
    (f.mark m).problem = none := h m

theorem Blind.mark_report {f : Relabelling} (h : f.Blind) (m : Mark) (p : Problem) :
    f.mark (m.report p) = f.mark m := h m p

/-- One change after another. -/
def andThen (f g : Relabelling) : Relabelling := ⟨g.mark ∘ f.mark, g.value ∘ f.value⟩

@[simp] theorem mark_andThen (f g : Relabelling) (m : Mark) :
    (f.andThen g).mark m = g.mark (f.mark m) := rfl

end Relabelling

/-- An expression with other marks, and other values in its literals. -/
def Expr.relabel (f : Relabelling) : Expr → Expr
  | literal v m => literal (f.value v) (f.mark m)
  | reference name m => reference name (f.mark m)
  | operation op lhs rhs m => operation op (lhs.relabel f) (rhs.relabel f) (f.mark m)

/-- A declaration with other marks, and other values in its literals. -/
def Declaration.relabel (f : Relabelling) (d : Declaration) : Declaration :=
  ⟨d.property, d.value.relabel f, f.mark d.mark⟩

/-- An assignment with other marks, and other values in its literals. -/
def Assignment.relabel (f : Relabelling) (a : Assignment) : Assignment :=
  ⟨a.name, a.value.relabel f, f.mark a.mark⟩

/-- A block with other marks, and other values in its literals. -/
def Block.relabel (f : Relabelling) : Block → Block
  | empty => empty
  | declaration d rest => declaration (d.relabel f) (rest.relabel f)
  | assignment a rest => assignment (a.relabel f) (rest.relabel f)
  | ifThen c body m rest =>
    ifThen (c.relabel f) (body.relabel f) (f.mark m) (rest.relabel f)
  | ifElse c body m other om rest =>
    ifElse (c.relabel f) (body.relabel f) (f.mark m) (other.relabel f) (f.mark om)
      (rest.relabel f)

/-- A member with other marks, and other values in its literals. -/
def Member.relabel (f : Relabelling) : Member → Member
  | rule r => rule ⟨r.selectors, r.body.relabel f, f.mark r.mark⟩
  | assignment a => assignment (a.relabel f)

/-- A sheet with other marks and values, and without a problem of its own. -/
def Sheet.relabel (f : Relabelling) (s : Sheet) : Sheet :=
  .ofMembers (s.members.map (Member.relabel f))

/-! ### What is taken off -/

/-- A value of a type. -/
def Ty.sample : Ty → Literal
  | bool => .bool true
  | color => .color "#000000"
  | pixels => .pixels ⟨0, by decide, by decide⟩
  | percentage => .percentage ⟨0, by decide, by decide⟩
  | scalar => .scalar ⟨0, by decide, by decide⟩

@[simp] theorem Ty.type_sample (t : Ty) : t.sample.type = t := by
  cases t <;> rfl

namespace Relabelling

/-- All problems are taken off, and nothing else. -/
def clearing : Relabelling := ⟨fun m ↦ .clean m.position, id⟩

/-- Positions and problems are taken off, and of the values only the types are left. -/
def outlining : Relabelling := ⟨fun _ ↦ .clean .unknown, fun v ↦ v.type.sample⟩

theorem clean_clearing : clearing.Clean := fun _ ↦ rfl

theorem blind_clearing : clearing.Blind := fun _ _ ↦ rfl

theorem typed_clearing : clearing.Typed := fun _ ↦ rfl

theorem clean_outlining : outlining.Clean := fun _ ↦ rfl

theorem typed_outlining : outlining.Typed := fun v ↦ v.type.type_sample

end Relabelling

namespace Sheet

/-- A sheet with all problems taken off. -/
def cleared (s : Sheet) : Sheet := s.relabel .clearing

/-- What is left of a sheet without positions and problems, and without the payloads of literals. -/
def outline (s : Sheet) : Sheet := s.relabel .outlining

end Sheet

/-! ### What stays -/

section

variable {f : Relabelling}

@[simp] theorem Expr.size_relabel (e : Expr) : (e.relabel f).size = e.size := by
  induction e with
  | operation op lhs rhs m ihl ihr => rw [relabel, size, size, ihl, ihr]
  | _ => rfl

@[simp] theorem Block.size_relabel (b : Block) : (b.relabel f).size = b.size := by
  induction b with
  | empty => rfl
  | declaration d rest ih => simp [relabel, Declaration.relabel, size, ih]
  | assignment a rest ih => simp [relabel, Assignment.relabel, size, ih]
  | ifThen c body m rest ihBody ih => simp [relabel, size, ihBody, ih]
  | ifElse c body m other om rest ihBody ihOther ih => simp [relabel, size, ihBody, ihOther, ih]

/-- A block has as many nodes as its size says. -/
@[simp] theorem Block.length_preorder (b : Block) : b.preorder.length = b.size := by
  induction b with
  | empty => rfl
  | declaration d rest ih =>
    simp [preorder, size, ih]
    omega
  | assignment a rest ih =>
    simp [preorder, size, ih]
    omega
  | ifThen c body m rest ihBody ih =>
    simp [preorder, size, ihBody, ih]
    omega
  | ifElse c body m other om rest ihBody ihOther ih =>
    simp [preorder, size, ihBody, ihOther, ih]
    omega

theorem Expr.relabel_report (blind : f.Blind) (e : Expr) (p : Problem) :
    (e.report p).relabel f = e.relabel f := by
  cases e <;> simp only [report, relabel, blind.mark_report]

/-- Typing an expression changes no more than a problem does. -/
theorem Expr.relabel_check (blind : f.Blind) (e : Expr) (scopes : TypeScopes) :
    (e.check scopes).1.relabel f = e.relabel f := by
  induction e with
  | literal v m => rfl
  | reference name m =>
    unfold check
    cases scopes.lookup name with
    | some t => rfl
    | none => exact relabel_report blind (reference name m) _
  | operation op lhs rhs m ihl ihr =>
    unfold check
    cases lhs.unfit? with
    | some p => simp only [relabel, relabel_report blind]
    | none =>
      cases rhs.unfit? with
      | some p => simp only [relabel, relabel_report blind]
      | none =>
        simp only [relabel, ihl, ihr]
        cases (op.check (lhs.check scopes).2 (rhs.check scopes).2).2 with
        | none => rfl
        | some p => simp only [Mark.reportAny, blind.mark_report]

/-- A condition that is a truth value, or has no type, is typed as any expression. -/
theorem Expr.checkCondition_of_fit {c : Expr} {scopes : TypeScopes}
    (fit : ∀ t, (c.check scopes).2 = some t → t = .bool) :
    c.checkCondition scopes = (c.check scopes).1 := by
  unfold checkCondition
  split
  · next h => rw [h]
  · next h => rw [h]
  · next t ne h => exact absurd (fit t (by rw [h])) ne

/-- A condition of another type is reported, whatever was reported before. -/
theorem Expr.checkCondition_of_unfit {c : Expr} {scopes : TypeScopes} {t : Ty}
    (typed : (c.check scopes).2 = some t) (unfit : t ≠ .bool) :
    c.checkCondition scopes = (c.check scopes).1.report .conditionNotBoolean := by
  unfold checkCondition
  split
  · next h =>
    rw [h] at typed
    exact absurd (Option.some.inj typed).symm unfit
  · next h =>
    rw [h] at typed
    cases typed
  · next h => rw [h]

/-- Typing a condition changes no more than a problem does. -/
theorem Expr.relabel_checkCondition (blind : f.Blind) (c : Expr) (scopes : TypeScopes) :
    (c.checkCondition scopes).relabel f = c.relabel f := by
  by_cases fit : ∀ t, (c.check scopes).2 = some t → t = .bool
  · rw [checkCondition_of_fit fit, relabel_check blind]
  · simp only [Classical.not_forall] at fit
    obtain ⟨t, typed, unfit⟩ := fit
    rw [checkCondition_of_unfit typed unfit, relabel_report blind, relabel_check blind]

theorem Mark.reportAny_blind (blind : f.Blind) (m : Mark) (p : Option Problem) :
    f.mark (m.reportAny p) = f.mark m := by
  cases p with
  | none => rfl
  | some p => exact blind.mark_report m p

/-- Typing a block changes no more than problems do. -/
theorem Block.relabel_check (blind : f.Blind) (b : Block) (scopes : TypeScopes) :
    (b.check scopes).1.relabel f = b.relabel f := by
  induction b generalizing scopes with
  | empty => rfl
  | declaration d rest ih =>
    simp only [check, Declaration.check, relabel, Declaration.relabel, Expr.relabel_check blind,
      Mark.reportAny_blind blind, ih]
  | assignment a rest ih =>
    simp only [check, Assignment.check, relabel, Assignment.relabel, Expr.relabel_check blind, ih]
  | ifThen c body m rest ihBody ih =>
    simp only [check_ifThen, relabel, Expr.relabel_checkCondition blind, ihBody, ih]
  | ifElse c body m other om rest ihBody ihOther ih =>
    simp only [check_ifElse, relabel, Expr.relabel_checkCondition blind, ihBody, ihOther, ih]

/-- Typing members changes no more than problems do. -/
theorem Sheet.relabel_checkMembers (blind : f.Blind) (members : List Member) (scopes : TypeScopes) :
    (checkMembers members scopes).1.map (Member.relabel f) = members.map (Member.relabel f) := by
  induction members generalizing scopes with
  | nil => rfl
  | cons m members ih =>
    cases m with
    | rule r =>
      simp only [checkMembers, Rule.check, Scopes.enclosed_fst, List.map_cons, Member.relabel,
        Block.relabel_check blind, ih]
    | assignment a =>
      simp only [checkMembers, Assignment.check, List.map_cons, Member.relabel, Assignment.relabel,
        Expr.relabel_check blind, ih]

/-- Typing a sheet changes no more than problems do. -/
theorem Sheet.relabel_check (blind : f.Blind) (s : Sheet) (scopes : TypeScopes) :
    (s.check scopes).1.relabel f = s.relabel f :=
  congrArg ofMembers (relabel_checkMembers blind s.members scopes.push)

end

@[simp] theorem Expr.size_report (e : Expr) (p : Problem) : (e.report p).size = e.size := by
  cases e <;> rfl

@[simp] theorem Expr.size_check (e : Expr) (scopes : TypeScopes) :
    (e.check scopes).1.size = e.size := by
  have same := congrArg size (relabel_check Relabelling.blind_clearing e scopes)
  rwa [size_relabel, size_relabel] at same

@[simp] theorem Expr.size_checkCondition (c : Expr) (scopes : TypeScopes) :
    (c.checkCondition scopes).size = c.size := by
  have same := congrArg size (relabel_checkCondition Relabelling.blind_clearing c scopes)
  rwa [size_relabel, size_relabel] at same

@[simp] theorem Block.size_check (b : Block) (scopes : TypeScopes) :
    (b.check scopes).1.size = b.size := by
  have same := congrArg size (relabel_check Relabelling.blind_clearing b scopes)
  rwa [size_relabel, size_relabel] at same

/-! ### Clean marks -/

section

variable {f : Relabelling}

/-- An expression with clean marks has no problems. -/
theorem Expr.unreported_relabel (clean : f.Clean) (e : Expr) :
    Unreported (e.relabel f).preorder := by
  induction e with
  | literal v m => exact List.forall_mem_singleton.mpr (clean m)
  | reference name m => exact List.forall_mem_singleton.mpr (clean m)
  | operation op lhs rhs m ihl ihr =>
    rw [relabel, preorder, unreported_cons, unreported_append]
    exact ⟨clean m, ihl, ihr⟩

theorem Block.unreported_relabel (clean : f.Clean) (b : Block) :
    Unreported (b.relabel f).preorder := by
  induction b with
  | empty => exact unreported_nil
  | declaration d rest ih =>
    simp [relabel, Declaration.relabel, preorder, Node.problem?, clean.problem_mark,
      Expr.unreported_relabel clean, ih]
  | assignment a rest ih =>
    simp [relabel, Assignment.relabel, preorder, Node.problem?, clean.problem_mark,
      Expr.unreported_relabel clean, ih]
  | ifThen c body m rest ihBody ih =>
    simp [relabel, preorder, Node.problem?, clean.problem_mark, Expr.unreported_relabel clean,
      ihBody, ih]
  | ifElse c body m other om rest ihBody ihOther ih =>
    simp [relabel, preorder, Node.problem?, clean.problem_mark, Expr.unreported_relabel clean,
      ihBody, ihOther, ih]

theorem Member.unreported_relabel (clean : f.Clean) (m : Member) :
    Unreported (m.relabel f).preorder := by
  cases m with
  | rule r =>
    simp [relabel, preorder, Node.problem?, clean.problem_mark, Block.unreported_relabel clean]
  | assignment a =>
    simp [relabel, Assignment.relabel, preorder, Node.problem?, clean.problem_mark,
      Expr.unreported_relabel clean]

/-- A sheet with clean marks has no problems. -/
theorem Sheet.unreported_relabel (clean : f.Clean) (s : Sheet) :
    Unreported (s.relabel f).nodes := by
  rw [nodes_eq_preorder, preorder, unreported_cons]
  refine ⟨rfl, ?_⟩
  intro n hn
  obtain ⟨m, hm, hn⟩ := List.mem_flatMap.mp hn
  obtain ⟨m, -, rfl⟩ := List.mem_map.mp hm
  exact m.unreported_relabel clean n hn

end

/-! ### One change after another -/

section

variable {f g : Relabelling}

theorem Expr.relabel_relabel (e : Expr) :
    (e.relabel f).relabel g = e.relabel (f.andThen g) := by
  induction e with
  | operation op lhs rhs m ihl ihr =>
    simp only [relabel, ihl, ihr, Relabelling.mark_andThen]
  | _ => rfl

theorem Block.relabel_relabel (b : Block) :
    (b.relabel f).relabel g = b.relabel (f.andThen g) := by
  induction b with
  | empty => rfl
  | declaration d rest ih =>
    simp only [relabel, Declaration.relabel, Expr.relabel_relabel, ih, Relabelling.mark_andThen]
  | assignment a rest ih =>
    simp only [relabel, Assignment.relabel, Expr.relabel_relabel, ih, Relabelling.mark_andThen]
  | ifThen c body m rest ihBody ih =>
    simp only [relabel, Expr.relabel_relabel, ihBody, ih, Relabelling.mark_andThen]
  | ifElse c body m other om rest ihBody ihOther ih =>
    simp only [relabel, Expr.relabel_relabel, ihBody, ihOther, ih, Relabelling.mark_andThen]

/-- Marks and values are changed one after the other as they are changed at once. -/
theorem Sheet.relabel_relabel (s : Sheet) :
    (s.relabel f).relabel g = s.relabel (f.andThen g) := by
  simp only [relabel, ofMembers, List.map_map, Sheet.mk.injEq, and_true]
  apply List.map_congr_left
  rintro (r | a) -
  · simp only [Function.comp_apply, Member.relabel, Block.relabel_relabel,
      Relabelling.mark_andThen]
  · simp only [Function.comp_apply, Member.relabel, Assignment.relabel, Expr.relabel_relabel,
      Relabelling.mark_andThen]

end

/-! ### A sheet is its form and its verdicts -/

private theorem Mark.eq_of_form {m n : Mark}
    (form : Relabelling.clearing.mark m = Relabelling.clearing.mark n)
    (problem : m.problem = n.problem) : m = n := by
  cases m
  cases n
  cases form
  cases problem
  rfl

@[simp] theorem length_verdictsOf (nodes : List Node) : (verdictsOf nodes).length = nodes.length :=
  List.length_map _

private theorem verdictsOf_append_inj {a b c d : List Node}
    (same : verdictsOf (a ++ b) = verdictsOf (c ++ d)) (length : a.length = c.length) :
    verdictsOf a = verdictsOf c ∧ verdictsOf b = verdictsOf d := by
  rw [verdictsOf_append, verdictsOf_append] at same
  exact List.append_inj same (by rw [length_verdictsOf, length_verdictsOf, length])

private theorem Expr.size_eq_of_form {e f : Expr}
    (form : e.relabel .clearing = f.relabel .clearing) : e.size = f.size := by
  have same := congrArg size form
  rwa [size_relabel, size_relabel] at same

private theorem Block.size_eq_of_form {a b : Block}
    (form : a.relabel .clearing = b.relabel .clearing) : a.size = b.size := by
  have same := congrArg size form
  rwa [size_relabel, size_relabel] at same

/-- Expressions that are alike without their problems, and have the same problems, are the same. -/
theorem Expr.eq_of_form {e f : Expr} (form : e.relabel .clearing = f.relabel .clearing)
    (verdicts : verdictsOf e.preorder = verdictsOf f.preorder) : e = f := by
  induction e generalizing f with
  | literal v m =>
    cases f with
    | literal w n =>
      obtain ⟨(rfl : v = w), mark⟩ := Expr.literal.inj form
      rw [Mark.eq_of_form mark (List.cons.inj verdicts).1]
    | _ => cases form
  | reference name m =>
    cases f with
    | reference other n =>
      obtain ⟨rfl, mark⟩ := Expr.reference.inj form
      rw [Mark.eq_of_form mark (List.cons.inj verdicts).1]
    | _ => cases form
  | operation op lhs rhs m ihl ihr =>
    cases f with
    | operation op' l r n =>
      obtain ⟨rfl, left, right, mark⟩ := Expr.operation.inj form
      simp only [preorder, verdictsOf_cons] at verdicts
      obtain ⟨own, operands⟩ := List.cons.inj verdicts
      obtain ⟨vl, vr⟩ := verdictsOf_append_inj operands (by simp [size_eq_of_form left])
      rw [ihl left vl, ihr right vr, Mark.eq_of_form mark own]
    | _ => cases form

/-- Declarations that are alike without their problems, and have the same problems, are the same. -/
theorem Declaration.eq_of_form {d e : Declaration}
    (form : d.relabel .clearing = e.relabel .clearing) (own : d.mark.problem = e.mark.problem)
    (verdicts : verdictsOf d.value.preorder = verdictsOf e.value.preorder) : d = e := by
  cases d
  cases e
  simp only [relabel, Declaration.mk.injEq] at form
  obtain ⟨rfl, values, marks⟩ := form
  obtain rfl := Expr.eq_of_form values verdicts
  obtain rfl := Mark.eq_of_form marks own
  rfl

/-- Assignments that are alike without their problems, and have the same problems, are the same. -/
theorem Assignment.eq_of_form {a b : Assignment}
    (form : a.relabel .clearing = b.relabel .clearing) (own : a.mark.problem = b.mark.problem)
    (verdicts : verdictsOf a.value.preorder = verdictsOf b.value.preorder) : a = b := by
  cases a
  cases b
  simp only [relabel, Assignment.mk.injEq] at form
  obtain ⟨rfl, values, marks⟩ := form
  obtain rfl := Expr.eq_of_form values verdicts
  obtain rfl := Mark.eq_of_form marks own
  rfl

/-- Blocks that are alike without their problems, and have the same problems, are the same. -/
theorem Block.eq_of_form {a b : Block} (form : a.relabel .clearing = b.relabel .clearing)
    (verdicts : verdictsOf a.preorder = verdictsOf b.preorder) : a = b := by
  induction a generalizing b with
  | empty =>
    cases b with
    | empty => rfl
    | _ => cases form
  | declaration d rest ih =>
    cases b with
    | declaration e others =>
      obtain ⟨first, last⟩ := Block.declaration.inj form
      have size := Expr.size_eq_of_form (Declaration.mk.inj first).2.1
      simp only [preorder, verdictsOf_cons] at verdicts
      obtain ⟨own, parts⟩ := List.cons.inj verdicts
      obtain ⟨value, items⟩ := verdictsOf_append_inj parts (by simp [size])
      rw [Declaration.eq_of_form first own value, ih last items]
    | _ => cases form
  | assignment d rest ih =>
    cases b with
    | assignment e others =>
      obtain ⟨first, last⟩ := Block.assignment.inj form
      have size := Expr.size_eq_of_form (Assignment.mk.inj first).2.1
      simp only [preorder, verdictsOf_cons] at verdicts
      obtain ⟨own, parts⟩ := List.cons.inj verdicts
      obtain ⟨value, items⟩ := verdictsOf_append_inj parts (by simp [size])
      rw [Assignment.eq_of_form first own value, ih last items]
    | _ => cases form
  | ifThen c body m rest ihBody ih =>
    cases b with
    | ifThen c' body' m' rest' =>
      obtain ⟨hc, hbody, mark, hrest⟩ := Block.ifThen.inj form
      simp only [preorder, verdictsOf_cons, List.append_assoc] at verdicts
      obtain ⟨own, parts⟩ := List.cons.inj verdicts
      obtain ⟨vc, parts⟩ := verdictsOf_append_inj parts (by simp [Expr.size_eq_of_form hc])
      obtain ⟨vbody, vrest⟩ := verdictsOf_append_inj parts (by simp [size_eq_of_form hbody])
      rw [Expr.eq_of_form hc vc, ihBody hbody vbody, Mark.eq_of_form mark own, ih hrest vrest]
    | _ => cases form
  | ifElse c body m other om rest ihBody ihOther ih =>
    cases b with
    | ifElse c' body' m' other' om' rest' =>
      obtain ⟨hc, hbody, mark, hother, otherMark, hrest⟩ := Block.ifElse.inj form
      simp only [preorder, verdictsOf_cons, List.append_assoc] at verdicts
      obtain ⟨own, parts⟩ := List.cons.inj verdicts
      obtain ⟨vc, parts⟩ := verdictsOf_append_inj parts (by simp [Expr.size_eq_of_form hc])
      obtain ⟨vbody, parts⟩ := verdictsOf_append_inj parts (by simp [size_eq_of_form hbody])
      obtain ⟨otherOwn, parts⟩ := List.cons.inj parts
      obtain ⟨vother, vrest⟩ := verdictsOf_append_inj parts (by simp [size_eq_of_form hother])
      rw [Expr.eq_of_form hc vc, ihBody hbody vbody, Mark.eq_of_form mark own,
        ihOther hother vother, Mark.eq_of_form otherMark otherOwn, ih hrest vrest]
    | _ => cases form

/-- Members that are alike without their problems, and have the same problems, are the same. -/
theorem Member.eq_of_form {ms ns : List Member}
    (form : ms.map (relabel .clearing) = ns.map (relabel .clearing))
    (verdicts : verdictsOf (ms.flatMap preorder) = verdictsOf (ns.flatMap preorder)) : ms = ns := by
  induction ms generalizing ns with
  | nil => exact (List.map_eq_nil_iff.mp form.symm).symm
  | cons m ms ih =>
    cases ns with
    | nil => cases form
    | cons n ns =>
      obtain ⟨first, last⟩ := List.cons.inj form
      cases m with
      | rule r =>
        cases n with
        | rule q =>
          cases r
          cases q
          simp only [relabel, Member.rule.injEq, Rule.mk.injEq] at first
          obtain ⟨rfl, body, mark⟩ := first
          simp only [List.flatMap_cons, preorder, List.cons_append, List.append_assoc,
            verdictsOf_cons] at verdicts
          obtain ⟨own, parts⟩ := List.cons.inj verdicts
          obtain ⟨-, parts⟩ := verdictsOf_append_inj parts rfl
          have size := Block.size_eq_of_form body
          obtain ⟨items, others⟩ := verdictsOf_append_inj parts (by simp [size])
          rw [Block.eq_of_form body items, Mark.eq_of_form mark own, ih last others]
        | assignment a => cases first
      | assignment a =>
        cases n with
        | rule q => cases first
        | assignment b =>
          have head := Member.assignment.inj first
          have size := Expr.size_eq_of_form (Assignment.mk.inj head).2.1
          simp only [List.flatMap_cons, preorder, List.cons_append, verdictsOf_cons] at verdicts
          obtain ⟨own, parts⟩ := List.cons.inj verdicts
          obtain ⟨value, others⟩ := verdictsOf_append_inj parts (by simp [size])
          rw [Assignment.eq_of_form head own value, ih last others]

/-- Sheets that are alike without their problems, and have the same problems, are the same. -/
theorem Sheet.eq_of_cleared {s t : Sheet} (form : s.cleared = t.cleared)
    (verdicts : verdictsOf s.nodes = verdictsOf t.nodes) : s = t := by
  rw [nodes_eq_preorder, nodes_eq_preorder, preorder, preorder] at verdicts
  obtain ⟨own, parts⟩ := List.cons.inj verdicts
  have members := Member.eq_of_form (congrArg Sheet.members form) parts
  cases s
  cases t
  cases members
  cases own
  rfl

end FlatSheet
