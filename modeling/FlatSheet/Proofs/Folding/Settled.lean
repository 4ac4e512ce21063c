import Mathlib.Data.List.Forall2
import FlatSheet.Proofs.Folding.Resolved
import FlatSheet.Proofs.Sheet.Preorder

/-!
# What flattening leaves

A sheet is settled when there is nothing in it for flattening to do: no assignment, no conditional block,
no value that is not a literal, and no problem on a rule or an expression, which flattening drops.
Flattening leaves settled sheets and keeps the problems of the sheet itself and of its declarations.
Settled sheets are left as they are in all scopes, so they are its fixed points.
-/

namespace FlatSheet

/-! ### Settled sheets -/

/-- Whether flattening has nothing to do at a node. -/
def Node.IsSettled : Node → Prop
  | sheet _ => True
  | rule r => r.mark.problem = none
  | selector _ => True
  | declaration d => ∃ value m, d.value = .literal value m
  | assignment _ => False
  | branch _ _ _ _ => False
  | otherwise _ _ => False
  | expr e => e.mark.problem = none

/-- Flattening has nothing to do at any of some nodes. -/
def Settled (nodes : List Node) : Prop := ∀ n ∈ nodes, n.IsSettled

/-- Flattening has nothing to do at any node of a sheet. -/
def Sheet.IsSettled (s : Sheet) : Prop := Settled s.nodes

@[simp] theorem settled_nil : Settled [] := nofun

@[simp] theorem settled_cons {n : Node} {nodes : List Node} :
    Settled (n :: nodes) ↔ n.IsSettled ∧ Settled nodes :=
  List.forall_mem_cons

@[simp] theorem settled_append {a b : List Node} : Settled (a ++ b) ↔ Settled a ∧ Settled b :=
  List.forall_mem_append

@[simp] theorem settled_selectors (selectors : List Selector) :
    Settled (selectors.map .selector) := by
  simp [Settled, Node.IsSettled]

/-- A mark without a problem is that of its position. -/
theorem Mark.eq_clean {m : Mark} (h : m.problem = none) : .clean m.position = m := by
  cases m
  cases h
  rfl

/-! ### Settled sheets are left as they are -/

/-- A settled declaration has the value that it is given. -/
theorem Declaration.exists_withValue {d : Declaration} (h : (Node.declaration d).IsSettled)
    (value : Settled d.value.preorder) : ∃ v m, d.value = .literal v m ∧ d.withValue v = d := by
  obtain ⟨v, m, hvalue⟩ := h
  obtain ⟨property, _, mark⟩ := d
  subst hvalue
  have clean : m.problem = none := value _ (.head _)
  exact ⟨v, m, rfl, by simp only [withValue, Expr.mark, Mark.eq_clean clean]⟩

/-- There is nothing to do at a declaration with a given value. -/
theorem Declaration.settled_withValue (d : Declaration) (value : Literal) :
    (Node.declaration (d.withValue value)).IsSettled :=
  ⟨value, _, rfl⟩

/-- There is nothing to do at the value that a declaration is given. -/
theorem Declaration.settled_value (d : Declaration) (value : Literal) :
    Settled (d.withValue value).value.preorder :=
  List.forall_mem_singleton.mpr rfl

/-- A settled block is flattened to itself. -/
theorem Block.flatten_of_settled {b : Block} (h : Settled b.preorder) (scopes : ValueScopes) :
    (b.flatten scopes).1 = .ok b := by
  induction b with
  | empty => rfl
  | declaration d rest ih =>
    simp only [preorder, settled_cons, settled_append] at h
    obtain ⟨v, m, hvalue, same⟩ := d.exists_withValue h.1 h.2.1
    rw [flatten_declaration, ih h.2.2, hvalue, ← same]
    rfl
  | assignment a rest => exact (h _ (.head _)).elim
  | ifThen c body m rest => exact (h _ (.head _)).elim
  | ifElse c body m other om rest => exact (h _ (.head _)).elim

namespace Sheet

/-- Settled members are flattened to themselves. -/
theorem flattenMembers_of_settled {members : List Member}
    (h : Settled (members.flatMap Member.preorder)) (scopes : ValueScopes) :
    (flattenMembers members scopes).1 = .ok members := by
  induction members with
  | nil => rfl
  | cons m members ih =>
    rw [List.flatMap_cons, settled_append] at h
    cases m with
    | rule r =>
      simp only [Member.preorder, settled_cons, settled_append] at h
      have clean : r.mark.problem = none := h.1.1
      rw [flattenMembers_rule, Block.flatten_of_settled h.1.2.2, ih h.2, Mark.eq_clean clean]
      rfl
    | assignment a => exact (h.1 _ (.head _)).elim

/-- A settled sheet is flattened to itself, whatever the scopes are. -/
theorem IsSettled.flatten {s : Sheet} (h : s.IsSettled) (scopes : ValueScopes) :
    (s.flatten scopes).1 = .ok s := by
  rw [IsSettled, nodes_eq_preorder, preorder, settled_cons] at h
  rw [Sheet.flatten, Scopes.enclosed_fst, flattenMembers_of_settled h.2]
  rfl

end Sheet

/-! ### What is kept -/

/-- A declaration is another one with a value for its expression. -/
def Declaration.IsKept (flat d : Declaration) : Prop := ∃ value, flat = d.withValue value

/-- The declarations in a block at any depth, in document order. -/
def Block.allDeclarations : Block → List Declaration
  | empty => []
  | declaration d rest => d :: rest.allDeclarations
  | assignment _ rest => rest.allDeclarations
  | ifThen _ body _ rest => body.allDeclarations ++ rest.allDeclarations
  | ifElse _ body _ other _ rest =>
    body.allDeclarations ++ other.allDeclarations ++ rest.allDeclarations

/-- The declarations of a block are some of those of another one, in their order and with values. -/
def Block.IsKept (flat b : Block) : Prop :=
  List.SublistForall₂ Declaration.IsKept flat.declarations b.allDeclarations

/-- A rule is another one with some of the declarations in it, and without a problem of its own. -/
structure Rule.IsKept (flat r : Rule) : Prop where
  selectors : flat.selectors = r.selectors
  mark : flat.mark = .clean r.mark.position
  body : flat.body.IsKept r.body

/-! ### What is found is kept and settled -/

/-- What is kept of two parts is kept of both together. -/
private theorem sublistForall₂_append {flat flat' all all' : List Declaration}
    (h : List.SublistForall₂ Declaration.IsKept flat all)
    (h' : List.SublistForall₂ Declaration.IsKept flat' all') :
    List.SublistForall₂ Declaration.IsKept (flat ++ flat') (all ++ all') := by
  obtain ⟨some, kept, among⟩ := List.sublistForall₂_iff.mp h
  obtain ⟨some', kept', among'⟩ := List.sublistForall₂_iff.mp h'
  exact List.sublistForall₂_iff.mpr
    ⟨some ++ some', List.rel_append kept kept', among.append among'⟩

/-- What is found in a declaration is that declaration with a value. -/
theorem Declaration.resolve_kept (d : Declaration) (env : Environment Literal) :
    List.SublistForall₂ IsKept (d.resolve env).kept [d] := by
  rw [resolve]
  cases d.value.valueIn env with
  | ok value => exact .cons ⟨value, rfl⟩ .nil
  | error e => exact .nil

namespace Block

/-- What is found in a block are declarations of it with values. -/
theorem resolve_kept (b : Block) (env : Environment Literal) :
    List.SublistForall₂ Declaration.IsKept (b.resolve env).kept b.allDeclarations := by
  induction b generalizing env with
  | empty => exact .nil
  | declaration d rest ih => exact sublistForall₂_append (d.resolve_kept env) (ih env)
  | assignment a rest ih =>
    rw [resolve]
    cases a.value.valueIn env with
    | ok value => exact ih _
    | error e => exact ih env
  | ifThen c body m rest ihBody ih =>
    refine sublistForall₂_append ?_ (ih env)
    split
    · exact ihBody env
    all_goals exact .nil
  | ifElse c body m other om rest ihBody ihOther ih =>
    refine sublistForall₂_append ?_ (ih env)
    -- Each branch is one side of the declarations that stand in the two of them.
    have left {flat : List Declaration}
        (h : List.SublistForall₂ Declaration.IsKept flat body.allDeclarations) :
        List.SublistForall₂ Declaration.IsKept flat
          (body.allDeclarations ++ other.allDeclarations) := by
      have both := sublistForall₂_append h (.nil (l := other.allDeclarations))
      rwa [List.append_nil] at both
    split
    · exact left (ihBody env)
    · exact sublistForall₂_append .nil (ihOther env)
    all_goals exact .nil

/-- A block of declarations with values is settled. -/
theorem settled_ofDeclarations {flat all : List Declaration}
    (h : List.SublistForall₂ Declaration.IsKept flat all) :
    Settled (ofDeclarations flat).preorder := by
  induction h with
  | nil => exact settled_nil
  | cons kept _ ih =>
    obtain ⟨value, rfl⟩ := kept
    rw [ofDeclarations, preorder, settled_cons, settled_append]
    exact ⟨Declaration.settled_withValue _ value, Declaration.settled_value _ value, ih⟩
  | cons_right _ ih => exact ih

end Block

/-- What is found in a rule keeps what it should of the rule and is settled. -/
theorem Rule.resolve_kept (r : Rule) (env : Environment Literal) :
    ∃ flat, (r.resolve env).kept = [flat] ∧ flat.IsKept r ∧ Settled (Member.rule flat).preorder := by
  have body := r.body.resolve_kept env
  refine ⟨_, rfl, ⟨rfl, rfl, ?_⟩, ?_⟩
  · rwa [Block.IsKept, Block.declarations_ofDeclarations]
  · simp [Member.preorder, Node.IsSettled, Mark.clean, Block.settled_ofDeclarations body]

namespace Sheet

/-- What is found in some members is what is kept of each rule among them, and settled. -/
theorem resolveMembers_kept (members : List Member) (env : Environment Literal) :
    List.Forall₂ Rule.IsKept (resolveMembers members env).kept (rulesOf members) ∧
      Settled (((resolveMembers members env).kept.map Member.rule).flatMap Member.preorder) := by
  induction members generalizing env with
  | nil => exact ⟨.nil, settled_nil⟩
  | cons m members ih =>
    cases m with
    | rule r =>
      obtain ⟨flat, hflat, kept, settled⟩ := r.resolve_kept env
      obtain ⟨others, settledOthers⟩ := ih env
      rw [resolveMembers, Findings.kept_append, hflat, List.singleton_append, rulesOf, List.map_cons,
        List.flatMap_cons, settled_append]
      exact ⟨.cons kept others, settled, settledOthers⟩
    | assignment a =>
      rw [resolveMembers]
      cases a.value.valueIn env with
      | ok value => exact ih _
      | error e => exact ih env

/-- A sheet that flattening gives is settled, and keeps the problem of the sheet and what is kept of
each rule. -/
theorem flatten_kept {s flat : Sheet} {scopes : ValueScopes}
    (h : (s.flatten scopes).1 = .ok flat) :
    flat.IsSettled ∧ flat.problem = s.problem ∧ List.Forall₂ Rule.IsKept flat.rules s.rules := by
  obtain ⟨kept, settled⟩ := resolveMembers_kept s.members scopes.lookup
  rw [flatten_eq_resolve, Findings.outcome, resolve] at h
  cases herrors : (resolveMembers s.members scopes.lookup).errors with
  | cons e errors =>
    rw [herrors] at h
    cases h
  | nil =>
    rw [herrors] at h
    obtain rfl := Except.ok.inj h
    refine ⟨?_, rfl, ?_⟩
    · rw [IsSettled, nodes_eq_preorder, preorder, settled_cons]
      exact ⟨trivial, settled⟩
    · rw [rules, rulesOf_map_rule]
      exact kept

/-- What flattening gives is settled and keeps the problem of the sheet and, rule by rule, those of the
declarations; it is flattened to itself in all scopes; and the sheets that are flattened to themselves
are the settled ones. -/
theorem flatten_fixed_points (s : Sheet) (scopes : ValueScopes) :
    (∀ flat, (s.flatten scopes).1 = .ok flat →
      flat.IsSettled ∧ flat.problem = s.problem ∧ List.Forall₂ Rule.IsKept flat.rules s.rules ∧
        ∀ others : ValueScopes, (flat.flatten others).1 = .ok flat) ∧
    ((s.flatten scopes).1 = .ok s ↔ s.IsSettled) := by
  refine ⟨fun flat h ↦ ?_, fun h ↦ (flatten_kept h).1, fun h ↦ h.flatten scopes⟩
  obtain ⟨settled, problem, kept⟩ := flatten_kept h
  exact ⟨settled, problem, kept, settled.flatten⟩

/-- Problems are everywhere in this sheet: those of the sheet and of the declaration in the branch that
is taken stay, the others go. -/
theorem flatten_fixed_points_reported :
    let mark (line column : Nat) : Mark := ⟨⟨line, column⟩, some .operandMismatch⟩
    let width (value : Expr) : Block := .declaration ⟨"width", value, mark 7 3⟩ .empty
    let sum : Expr := .operation .add (.reference "H" (mark 7 10)) (.reference "G" (mark 7 14)) (mark 7 12)
    let dead : Block := .declaration ⟨"color", .reference "N" (mark 4 10), mark 4 3⟩ .empty
    let live : Block := .ifThen (.literal (.bool true) (mark 6 6)) (width sum) (mark 6 3) .empty
    let s : Sheet := ⟨[
      .assignment ⟨"H", .literal (.pixels ⟨4, by decide, by decide⟩) (mark 1 4), mark 1 1⟩,
      .rule ⟨[.id "#a", .cls ".b"],
        .ifElse (.literal (.bool false) (mark 3 5)) dead (mark 3 2) live (mark 5 2) .empty, mark 2 1⟩],
      some .boolOperand⟩
    let flat : Sheet := ⟨[
      .rule ⟨[.id "#a", .cls ".b"],
        width (.literal (.pixels ⟨6, by decide, by decide⟩) (.clean ⟨7, 12⟩)), .clean ⟨2, 1⟩⟩],
      some .boolOperand⟩
    let globals : ValueScopes := ⟨[[("G", .pixels ⟨2, by decide, by decide⟩)]]⟩
    (s.flatten globals).1 = .ok flat ∧ flat.IsSettled ∧ List.Forall₂ Rule.IsKept flat.rules s.rules ∧
      (flat.flatten ⟨[]⟩).1 = .ok flat := by
  intro mark width sum dead live s flat globals
  have flattened : (s.flatten globals).1 = .ok flat := by rfl
  obtain ⟨settled, _, kept, same⟩ := (flatten_fixed_points s globals).1 flat flattened
  exact ⟨flattened, settled, kept, same ⟨[]⟩⟩

end Sheet

end FlatSheet
