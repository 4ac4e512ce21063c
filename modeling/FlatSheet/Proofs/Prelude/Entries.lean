import Mathlib.Data.String.Basic
import FlatSheet.Prelude.Document
import FlatSheet.Proofs.Source.Bytes

/-!
# Which entries count

A prelude is loaded from entries, of which the last of a name counts. Either all that count are right, and
the prelude has the values that they give, or the one that is wrong and comes first in the order of the
names' bytes is reported. So nothing depends on the order in which entries of different names are written.
-/

namespace FlatSheet

namespace Prelude

/-- The name begins with a letter from A to Z. -/
def IsName (name : String) : Prop :=
  ∃ first rest, name.toList = first :: rest ∧ 'A' ≤ first ∧ first ≤ 'Z'

/-- The text is the one that counts for the name: no later entry has the name. -/
def Counts (entries : Entries) (name text : String) : Prop :=
  ∃ before after, entries = before ++ (name, text) :: after ∧ ∀ entry ∈ after, entry.1 ≠ name

/-- What is wrong with an entry: its text, if that is not a single literal, and otherwise its name. -/
inductive Refused (name text : String) : PreludeError → Prop
  | value {e : ParseError} : Literal.ofSource text = .error e →
    Refused name text (.invalidValue name e)
  | name {v : Literal} : Literal.ofSource text = .ok v → ¬ IsName name →
    Refused name text (.invalidName name)

/-- An entry is right when its text is a literal and its name begins with a capital letter. -/
def Accepted (name text : String) (v : Literal) : Prop := Literal.ofSource text = .ok v ∧ IsName name

/-- An entry that counts is wrong, and the other ones that are have names with greater bytes. -/
structure FirstRefused (entries : Entries) (name text : String) (e : PreludeError) : Prop where
  counts : Counts entries name text
  refused : Refused name text e
  least : ∀ other words e', Counts entries other words → Refused other words e' → other ≠ name →
    bytesOf name < bytesOf other

/-! ### One entry -/

/-- A name is one for a variable when it begins with a letter from A to Z. -/
theorem isVariableName_iff {name : String} : isVariableName name = true ↔ IsName name := by
  unfold isVariableName IsName
  cases name.toList with
  | nil => simp
  | cons first rest => simp [isCapital]

/-- An entry is right or wrong. -/
theorem accepted_or_refused (name text : String) :
    (∃ v, Accepted name text v) ∨ ∃ e, Refused name text e := by
  cases h : Literal.ofSource text with
  | error e => exact .inr ⟨_, .value h⟩
  | ok v =>
    by_cases named : IsName name
    · exact .inl ⟨v, h, named⟩
    · exact .inr ⟨_, .name h named⟩

/-- An entry that is right is not wrong. -/
theorem Accepted.not_refused {name text : String} {v : Literal} (h : Accepted name text v)
    (e : PreludeError) : ¬ Refused name text e := by
  intro refused
  cases refused with
  | value bad => cases h.1.symm.trans bad
  | name _ unnamed => exact unnamed h.2

/-- One thing is wrong with an entry. -/
theorem Refused.unique {name text : String} {e other : PreludeError} (h : Refused name text e)
    (h' : Refused name text other) : e = other := by
  cases h with
  | value bad =>
    cases h' with
    | value bad' =>
      cases bad.symm.trans bad'
      rfl
    | name good => cases bad.symm.trans good
  | name good =>
    cases h' with
    | value bad => cases good.symm.trans bad
    | name => rfl

/-- A definition stores the value of a name that begins with a capital letter. -/
theorem define_of_isName {name : String} (h : IsName name) (p : Prelude) (v : Literal) :
    p.define name v = .ok ⟨p.bindings.insert name v⟩ :=
  if_pos (isVariableName_iff.mpr h)

/-- A definition of another name is refused. -/
theorem define_of_not_isName {name : String} (h : ¬ IsName name) (p : Prelude) (v : Literal) :
    p.define name v = .error (.invalidName name) :=
  if_neg fun named ↦ h (isVariableName_iff.mp named)

/-- An entry that is right is stored. -/
theorem defineTexts_of_accepted {name text : String} {v : Literal} (h : Accepted name text v)
    (p : Prelude) (entries : Entries) :
    p.defineTexts ((name, text) :: entries) =
      Prelude.defineTexts ⟨p.bindings.insert name v⟩ entries := by
  rw [defineTexts, h.1]
  dsimp only
  rw [define_of_isName h.2]

/-- An entry that is wrong is reported, and the entries after it are not looked at. -/
theorem defineTexts_of_refused {name text : String} {e : PreludeError} (h : Refused name text e)
    (p : Prelude) (entries : Entries) : p.defineTexts ((name, text) :: entries) = .error e := by
  rw [defineTexts]
  cases h with
  | value bad => rw [bad]
  | name good unnamed =>
    rw [good]
    dsimp only
    rw [define_of_not_isName unnamed]

/-! ### Entries in order -/

/-- Either all entries are right or one of them is the first that is wrong, and is reported. -/
theorem defineTexts_cases (p : Prelude) (entries : Entries) :
    ((∃ q, p.defineTexts entries = .ok q) ∧ ∀ entry ∈ entries, ∃ v, Accepted entry.1 entry.2 v) ∨
      ∃ before name text after e, entries = before ++ (name, text) :: after ∧
        (∀ entry ∈ before, ∃ v, Accepted entry.1 entry.2 v) ∧ Refused name text e ∧
        p.defineTexts entries = .error e := by
  induction entries generalizing p with
  | nil => exact .inl ⟨⟨p, rfl⟩, nofun⟩
  | cons entry entries ih =>
    obtain ⟨name, text⟩ := entry
    rcases accepted_or_refused name text with ⟨v, right⟩ | ⟨e, wrong⟩
    · rw [defineTexts_of_accepted right]
      rcases ih ⟨p.bindings.insert name v⟩ with
        ⟨done, others⟩ | ⟨before, other, words, after, e, rfl, others, wrong, failed⟩
      · exact .inl ⟨done, List.forall_mem_cons.mpr ⟨⟨v, right⟩, others⟩⟩
      · exact .inr ⟨(name, text) :: before, other, words, after, e, rfl,
          List.forall_mem_cons.mpr ⟨⟨v, right⟩, others⟩, wrong, failed⟩
    · exact .inr ⟨[], name, text, entries, e, rfl, nofun, wrong, defineTexts_of_refused wrong p _⟩

/-- Entries that are right, of different names, give each name its value and leave other names alone. -/
theorem get?_of_defineTexts {p q : Prelude} {entries : Entries}
    (distinct : entries.Pairwise fun a b ↦ a.1 ≠ b.1) (h : p.defineTexts entries = .ok q)
    (name : String) :
    (∀ text, (name, text) ∈ entries → ∃ v, Literal.ofSource text = .ok v ∧ q.get? name = some v) ∧
      ((∀ entry ∈ entries, entry.1 ≠ name) → q.get? name = p.get? name) := by
  induction entries generalizing p with
  | nil =>
    cases h
    exact ⟨nofun, fun _ ↦ rfl⟩
  | cons entry entries ih =>
    obtain ⟨other, words⟩ := entry
    obtain ⟨first, distinct⟩ := List.pairwise_cons.mp distinct
    rcases accepted_or_refused other words with ⟨v, right⟩ | ⟨e, wrong⟩
    · rw [defineTexts_of_accepted right] at h
      obtain ⟨among, apart⟩ := ih distinct h
      constructor
      · intro text mem
        rcases List.mem_cons.mp mem with same | mem
        · cases same
          refine ⟨v, right.1, ?_⟩
          rw [apart fun entry hentry ↦ (first entry hentry).symm, get?,
            Std.ExtTreeMap.getElem?_insert_self]
        · exact among text mem
      · intro free
        obtain ⟨ne, free⟩ := List.forall_mem_cons.mp free
        rw [apart free, get?, Std.ExtTreeMap.getElem?_insert, if_neg (by simpa using ne)]
        rfl
    · rw [defineTexts_of_refused wrong] at h
      cases h

/-! ### Entries that count -/

/-- What counts is among the entries. -/
theorem Counts.mem {entries : Entries} {name text : String} (h : Counts entries name text) :
    (name, text) ∈ entries := by
  obtain ⟨before, after, rfl, -⟩ := h
  exact List.mem_append_right before List.mem_cons_self

/-- A name has a text that counts or no entry at all. -/
theorem counts_or_free (entries : Entries) (name : String) :
    (∃ text, Counts entries name text) ∨ ∀ entry ∈ entries, entry.1 ≠ name := by
  induction entries with
  | nil => exact .inr nofun
  | cons entry entries ih =>
    obtain ⟨other, words⟩ := entry
    rcases ih with ⟨text, before, after, rfl, last⟩ | free
    · exact .inl ⟨text, (other, words) :: before, after, rfl, last⟩
    · by_cases same : other = name
      · subst same
        exact .inl ⟨words, [], entries, rfl, free⟩
      · exact .inr (List.forall_mem_cons.mpr ⟨same, free⟩)

private theorem getElem?_insertMany_of_free {t : Std.ExtTreeMap String String} {entries : Entries}
    {name : String} (free : ∀ entry ∈ entries, entry.1 ≠ name) :
    (t.insertMany entries)[name]? = t[name]? := by
  apply Std.ExtTreeMap.getElem?_insertMany_list_of_contains_eq_false
  simpa [eq_comm, Prod.forall] using fun text mem ↦ free (name, text) mem rfl

/-- The collected texts are those that count. -/
theorem getElem?_ofList_iff {entries : Entries} {name text : String} :
    (Std.ExtTreeMap.ofList entries compare)[name]? = some text ↔ Counts entries name text := by
  have collected {text : String} (h : Counts entries name text) :
      (Std.ExtTreeMap.ofList entries compare)[name]? = some text := by
    obtain ⟨before, after, rfl, last⟩ := h
    rw [Std.ExtTreeMap.ofList_eq_insertMany_empty, Std.ExtTreeMap.insertMany_append,
      Std.ExtTreeMap.insertMany_cons, getElem?_insertMany_of_free last,
      Std.ExtTreeMap.getElem?_insert_self]
  constructor
  · intro h
    rcases counts_or_free entries name with ⟨other, counts⟩ | free
    · rw [collected counts] at h
      cases h
      exact counts
    · rw [Std.ExtTreeMap.ofList_eq_insertMany_empty, getElem?_insertMany_of_free free,
        Std.ExtTreeMap.getElem?_empty] at h
      cases h
  · exact collected

/-- The entries that count, in the order in which they are defined. -/
def counting (entries : Entries) : Entries := (Std.ExtTreeMap.ofList entries compare).toList

theorem mem_counting {entries : Entries} {name text : String} :
    (name, text) ∈ counting entries ↔ Counts entries name text :=
  Std.ExtTreeMap.mem_toList_iff_getElem?_eq_some.trans getElem?_ofList_iff

/-- What is collected by names is listed in the order of their bytes. -/
theorem ordered_toList {V : Type} (t : Std.ExtTreeMap String V) :
    t.toList.Pairwise fun a b ↦ bytesOf a.1 < bytesOf b.1 := by
  apply Std.ExtTreeMap.ordered_keys_toList.imp
  intro a b h
  exact bytesOf_lt_iff.mpr (compare_lt_iff_lt.mp h)

/-- Entries are defined in the order of the bytes of their names. -/
theorem counting_ordered (entries : Entries) :
    (counting entries).Pairwise fun a b ↦ bytesOf a.1 < bytesOf b.1 :=
  ordered_toList _

/-- No two of the entries that count have one name. -/
theorem counting_distinct (entries : Entries) :
    (counting entries).Pairwise fun a b ↦ a.1 ≠ b.1 := by
  apply (counting_ordered entries).imp
  intro a b h same
  rw [same] at h
  exact List.lt_irrefl _ h

/-- A name has one text that counts. -/
theorem Counts.unique {entries : Entries} {name text other : String} (h : Counts entries name text)
    (h' : Counts entries name other) : text = other := by
  have both := (getElem?_ofList_iff.mpr h).symm.trans (getElem?_ofList_iff.mpr h')
  exact Option.some.inj both

/-- One error is the first. -/
theorem FirstRefused.unique {entries : Entries} {name text other words : String}
    {e e' : PreludeError} (h : FirstRefused entries name text e)
    (h' : FirstRefused entries other words e') : e = e' := by
  by_cases same : other = name
  · subst same
    cases h.counts.unique h'.counts
    exact h.refused.unique h'.refused
  · have below := h.least other words e' h'.counts h'.refused same
    have above := h'.least name text e h.counts h.refused (Ne.symm same)
    exact absurd below (List.lt_asymm above)

/-- Without two entries of one name, all of them count. -/
theorem counts_iff_mem {entries : Entries} (distinct : (entries.map Prod.fst).Nodup)
    {name text : String} : Counts entries name text ↔ (name, text) ∈ entries := by
  refine ⟨Counts.mem, fun mem ↦ ?_⟩
  obtain ⟨before, after, rfl⟩ := List.append_of_mem mem
  refine ⟨before, after, rfl, fun entry hentry same ↦ ?_⟩
  rw [List.map_append, List.map_cons] at distinct
  have fresh := (List.nodup_cons.mp (List.nodup_append.mp distinct).2.1).1
  exact fresh (List.mem_map.mpr ⟨entry, hentry, same⟩)

private theorem filter_of_free {entries : Entries} {name : String}
    (free : ∀ entry ∈ entries, entry.1 ≠ name) :
    (entries.filter fun entry ↦ entry.1 = name) = [] := by
  simpa only [List.filter_eq_nil_iff, decide_eq_true_eq] using free

/-- The text that counts for a name is the last among the entries of that name. -/
theorem counts_iff_getLast? {entries : Entries} {name text : String} :
    Counts entries name text ↔
      (entries.filter fun entry ↦ entry.1 = name).getLast? = some (name, text) := by
  have last {text : String} (h : Counts entries name text) :
      (entries.filter fun entry ↦ entry.1 = name).getLast? = some (name, text) := by
    obtain ⟨before, after, rfl, free⟩ := h
    rw [List.filter_append, List.filter_cons_of_pos (by simp), filter_of_free free,
      List.getLast?_concat]
  constructor
  · exact last
  · intro h
    rcases counts_or_free entries name with ⟨other, counts⟩ | free
    · rw [last counts] at h
      cases h
      exact counts
    · rw [filter_of_free free] at h
      cases h

/-! ### The prelude of entries -/

/-- The prelude depends on the entries that count and on nothing else of the list. -/
theorem ofEntries_congr {entries others : Entries}
    (same : ∀ name text, Counts others name text ↔ Counts entries name text) :
    ofEntries others = ofEntries entries := by
  have collected : Std.ExtTreeMap.ofList others compare = Std.ExtTreeMap.ofList entries compare := by
    apply Std.ExtTreeMap.ext_getElem?
    intro name
    apply Option.ext
    intro text
    rw [getElem?_ofList_iff, getElem?_ofList_iff, same]
  rw [ofEntries, ofEntries, collected]

/-- Either all entries that count are right, or the one with the least name that is wrong is reported. -/
theorem ofEntries_cases (entries : Entries) :
    ((∃ p, ofEntries entries = .ok p) ∧
        ∀ name text, Counts entries name text → ∃ v, Accepted name text v) ∨
      ∃ name text e, FirstRefused entries name text e ∧ ofEntries entries = .error e := by
  rcases defineTexts_cases empty (counting entries) with
    ⟨done, right⟩ | ⟨before, name, text, after, e, split, right, wrong, failed⟩
  · exact .inl ⟨done, fun name text counts ↦ right (name, text) (mem_counting.mpr counts)⟩
  · have ordered := counting_ordered entries
    rw [split] at ordered
    have least := (List.pairwise_cons.mp (List.pairwise_append.mp ordered).2.1).1
    refine .inr ⟨name, text, e, ⟨?_, wrong, ?_⟩, failed⟩
    · exact mem_counting.mp (split ▸ List.mem_append_right before List.mem_cons_self)
    · intro other words e' counts bad ne
      have mem := mem_counting.mpr counts
      rw [split] at mem
      rcases List.mem_append.mp mem with mem | mem
      · obtain ⟨v, good⟩ := right _ mem
        exact absurd bad (good.not_refused e')
      · rcases List.mem_cons.mp mem with same | mem
        · cases same
          exact absurd rfl ne
        · exact least _ mem

/-- A prelude is had when all entries that count are right. -/
theorem ofEntries_eq_ok_iff {entries : Entries} :
    (∃ p, ofEntries entries = .ok p) ↔
      ∀ name text, Counts entries name text → ∃ v, Accepted name text v := by
  rcases ofEntries_cases entries with ⟨done, right⟩ | ⟨name, text, e, first, failed⟩
  · exact iff_of_true done right
  · apply iff_of_false
    · rintro ⟨p, h⟩
      cases failed.symm.trans h
    · intro right
      obtain ⟨v, good⟩ := right name text first.counts
      exact good.not_refused e first.refused

/-- The error that is reported is that of the least name with an entry that counts and is wrong. -/
theorem ofEntries_eq_error_iff {entries : Entries} {e : PreludeError} :
    ofEntries entries = .error e ↔ ∃ name text, FirstRefused entries name text e := by
  rcases ofEntries_cases entries with ⟨⟨p, done⟩, right⟩ | ⟨name, text, d, first, failed⟩
  · apply iff_of_false
    · intro h
      cases done.symm.trans h
    · rintro ⟨name, text, first⟩
      obtain ⟨v, good⟩ := right name text first.counts
      exact good.not_refused e first.refused
  · constructor
    · intro h
      cases failed.symm.trans h
      exact ⟨name, text, first⟩
    · rintro ⟨other, words, first'⟩
      rw [first'.unique first]
      exact failed

/-- A prelude that is had gives each name the value of the entry that counts for it. -/
theorem get?_of_ofEntries {entries : Entries} {p : Prelude} (h : ofEntries entries = .ok p)
    {name : String} {v : Literal} :
    p.get? name = some v ↔ ∃ text, Counts entries name text ∧ Literal.ofSource text = .ok v := by
  obtain ⟨among, apart⟩ := get?_of_defineTexts (counting_distinct entries) h name
  constructor
  · intro bound
    rcases counts_or_free entries name with ⟨text, counts⟩ | free
    · obtain ⟨value, good, stored⟩ := among text (mem_counting.mpr counts)
      cases stored.symm.trans bound
      exact ⟨text, counts, good⟩
    · have absent : p.get? name = empty.get? name :=
        apart fun entry hentry ↦ free entry (mem_counting.mp hentry).mem
      cases absent.symm.trans bound
  · rintro ⟨text, counts, good⟩
    obtain ⟨value, good', stored⟩ := among text (mem_counting.mpr counts)
    cases good.symm.trans good'
    exact stored

/-- Loading takes all entries that count or none, whatever the order in which they are written. It
succeeds when each has a literal for its text and a name that begins with a capital letter, and then the
variables are those names with those literals; otherwise the error is that of the first name, in the order
of the bytes, whose entry is wrong, and a text that is wrong is reported before a name. Two documents that
write the entries of each name in the same order, such as one and another whose names are all different and
stand in another order, give the same answer. -/
theorem ofJson_all_or_nothing (path : String) {document : String} {entries : Entries}
    (read : entriesOf document = .ok entries) :
    ((∃ p, ofJson path document = .ok p) ↔ ∀ name text, Counts entries name text →
        (∃ v, Literal.ofSource text = .ok v) ∧ IsName name) ∧
      (∀ p, ofJson path document = .ok p → ∀ name v, p.get? name = some v ↔
        ∃ text, Counts entries name text ∧ Literal.ofSource text = .ok v) ∧
      (∀ e, ofJson path document = .error e ↔ ∃ name text, FirstRefused entries name text e) ∧
      (∀ reordered others, entriesOf reordered = .ok others →
        (∀ name, (others.filter fun entry ↦ entry.1 = name) =
          entries.filter fun entry ↦ entry.1 = name) →
        ofJson path reordered = ofJson path document) ∧
      ∀ reordered others, entriesOf reordered = .ok others →
        others.Perm entries → (entries.map Prod.fst).Nodup →
        ofJson path reordered = ofJson path document := by
  have loaded {document : String} {entries : Entries} (read : entriesOf document = .ok entries) :
      ofJson path document = ofEntries entries := by
    rw [ofJson, read]
  rw [loaded read]
  refine ⟨?_, fun p h name v ↦ get?_of_ofEntries h, fun e ↦ ofEntries_eq_error_iff, ?_, ?_⟩
  · simp only [ofEntries_eq_ok_iff, Accepted, exists_and_right]
  · intro reordered others read' alike
    rw [loaded read']
    apply ofEntries_congr
    intro name text
    rw [counts_iff_getLast?, counts_iff_getLast?, alike]
  · intro reordered others read' perm distinct
    rw [loaded read']
    apply ofEntries_congr
    intro name text
    have distinct' : (others.map Prod.fst).Nodup := (perm.map Prod.fst).nodup_iff.mpr distinct
    rw [counts_iff_mem distinct', counts_iff_mem distinct, perm.mem_iff]

/-- Of two entries that are wrong, that of the first name is reported, though it is written last. -/
theorem ofJson_all_or_nothing_of_two_faults :
    ofJson inline
        "\x7b\"variables\":\x7b\"width\":\"1+\",\"Gap\":\"2px\",\"gap\":\"1px\"\x7d\x7d" =
      .error (.invalidName "gap") := by
  have read : entriesOf
      "\x7b\"variables\":\x7b\"width\":\"1+\",\"Gap\":\"2px\",\"gap\":\"1px\"\x7d\x7d" =
      .ok [("width", "1+"), ("Gap", "2px"), ("gap", "1px")] := by with_unfolding_all rfl
  apply ((ofJson_all_or_nothing inline read).2.2.1 _).mpr
  refine ⟨"gap", "1px", ⟨[("width", "1+"), ("Gap", "2px")], [], rfl, List.forall_mem_nil _⟩,
    .name (v := .pixels ⟨1, by decide, by decide⟩) (by with_unfolding_all rfl) ?_, ?_⟩
  · exact mt isVariableName_iff.mpr (by decide)
  · intro other words e counts wrong ne
    have mem := (counts_iff_mem (by decide)).mp counts
    simp only [List.mem_cons, Prod.mk.injEq, List.not_mem_nil, or_false] at mem
    rcases mem with ⟨rfl, -⟩ | ⟨rfl, rfl⟩ | ⟨rfl, -⟩
    · decide
    · have right : Accepted "Gap" "2px" (.pixels ⟨2, by decide, by decide⟩) :=
        ⟨by with_unfolding_all rfl, isVariableName_iff.mp (by decide)⟩
      exact absurd wrong (right.not_refused e)
    · exact absurd rfl ne
end Prelude

end FlatSheet
