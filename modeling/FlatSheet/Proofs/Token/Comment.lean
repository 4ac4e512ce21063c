import FlatSheet.Proofs.Token.Pattern

/-!
# Closed comments

The pattern of a comment between marks has its text come in parts: characters other than stars, then
stars, and after stars that are not followed by the closing slash some other character and the same
again. It is the texts whose first closing mark ends them.
-/

open Computability

namespace FlatSheet

namespace Pattern

/-- Characters up to a star, and all the stars that follow. -/
def upToStars : Language Char := (oneOf (· ≠ '*'))∗ * repeated (oneOf (· = '*'))

/-- A character that neither closes the comment nor goes on with the stars, and then up to the stars
that follow. -/
def pastStars : Language Char := oneOf (fun c ↦ c ≠ '/' && c ≠ '*') * upToStars

/-- What follows the mark that opens a comment, the closing mark included. -/
def commentTail : Language Char := upToStars * pastStars∗ * exactly ['/']

/-! ### The first closing mark ends a comment -/

private theorem commentEnd?_append_of_no_star {first : List Char} (h : ∀ c ∈ first, c ≠ '*')
    (text : List Char) :
    commentEnd? (first ++ text) = (commentEnd? text).map (first.length + ·) := by
  induction first with
  | nil => simp
  | cons c first ih =>
    obtain ⟨hc, hfirst⟩ := List.forall_mem_cons.mp h
    rw [List.cons_append, commentEnd?, ih hfirst, Option.map_map]
    · congr 1
      funext n
      simp only [Function.comp_apply, List.length_cons]
      omega
    · rintro rest rfl
      exact absurd rfl hc

private theorem commentEnd?_stars {stars : List Char} (hne : stars ≠ [])
    (h : ∀ c ∈ stars, c = '*') (text : List Char) :
    commentEnd? (stars ++ '/' :: text) = some (stars.length + 1) := by
  induction stars with
  | nil => exact absurd rfl hne
  | cons c stars ih =>
    obtain ⟨rfl, hstars⟩ := List.forall_mem_cons.mp h
    cases stars with
    | nil => rfl
    | cons d stars =>
      obtain ⟨rfl, -⟩ := List.forall_mem_cons.mp hstars
      have next := ih (List.cons_ne_nil _ _) hstars
      rw [List.cons_append, commentEnd?, next]
      · simp only [Option.map_some, List.length_cons, Option.some.injEq]
        omega
      · rintro rest - ⟨⟩

private theorem commentEnd?_past_stars {stars : List Char} (h : ∀ c ∈ stars, c = '*')
    {c : Char} (hslash : c ≠ '/') (hstar : c ≠ '*') (text : List Char) :
    commentEnd? (stars ++ c :: text) =
      (commentEnd? text).map (stars.length + 1 + ·) := by
  induction stars with
  | nil =>
    rw [List.nil_append, commentEnd?]
    · simp
    · rintro rest rfl
      exact absurd rfl hstar
  | cons d stars ih =>
    obtain ⟨rfl, hstars⟩ := List.forall_mem_cons.mp h
    rw [List.cons_append, commentEnd?, ih hstars, Option.map_map]
    · congr 1
      funext n
      simp only [Function.comp_apply, List.length_cons]
      omega
    · rintro rest - hrest
      cases stars with
      | nil => exact absurd (List.cons.inj hrest).1 hslash
      | cons e stars =>
        obtain ⟨rfl, -⟩ := List.forall_mem_cons.mp hstars
        cases hrest

private theorem mem_upToStars {w : List Char} :
    w ∈ upToStars ↔ ∃ first stars, (∀ c ∈ first, c ≠ '*') ∧ stars ≠ [] ∧ (∀ c ∈ stars, c = '*') ∧
      first ++ stars = w := by
  simp only [upToStars, Language.mem_mul, mem_kstar_oneOf, mem_repeated_oneOf, decide_eq_true_eq]
  constructor
  · rintro ⟨first, hfirst, stars, ⟨hne, hstars⟩, rfl⟩
    exact ⟨first, stars, hfirst, hne, hstars, rfl⟩
  · rintro ⟨first, stars, hfirst, hne, hstars, rfl⟩
    exact ⟨first, hfirst, stars, ⟨hne, hstars⟩, rfl⟩

private theorem mem_pastStars {w : List Char} :
    w ∈ pastStars ↔ ∃ c rest, c ≠ '/' ∧ c ≠ '*' ∧ rest ∈ upToStars ∧ w = c :: rest := by
  simp only [pastStars, mem_oneOf_mul, Bool.and_eq_true, decide_eq_true_eq]
  constructor
  · rintro ⟨c, rest, ⟨hslash, hstar⟩, hrest, rfl⟩
    exact ⟨c, rest, hslash, hstar, hrest, rfl⟩
  · rintro ⟨c, rest, hslash, hstar, hrest, rfl⟩
    exact ⟨c, rest, ⟨hslash, hstar⟩, hrest, rfl⟩

private theorem mem_commentTail {w : List Char} :
    w ∈ commentTail ↔ ∃ first ∈ upToStars, ∃ middle ∈ pastStars∗, first ++ (middle ++ ['/']) = w := by
  simp only [commentTail, Language.mem_mul, mem_exactly]
  constructor
  · rintro ⟨_, ⟨first, hfirst, middle, hmiddle, rfl⟩, _, rfl, rfl⟩
    exact ⟨first, hfirst, middle, hmiddle, (List.append_assoc _ _ _).symm⟩
  · rintro ⟨first, hfirst, middle, hmiddle, rfl⟩
    exact ⟨_, ⟨first, hfirst, middle, hmiddle, rfl⟩, _, rfl, List.append_assoc _ _ _⟩

-- The parts after the first stars are taken one by one; each leads from stars to stars.
private theorem commentEnd?_of_parts {parts : List (List Char)} (hparts : ∀ w ∈ parts, w ∈ pastStars)
    {stars : List Char} (hne : stars ≠ []) (hstars : ∀ c ∈ stars, c = '*') (rest : List Char) :
    commentEnd? (stars ++ (parts.flatten ++ '/' :: rest)) =
      some (stars.length + parts.flatten.length + 1) := by
  induction parts generalizing stars with
  | nil => exact commentEnd?_stars hne hstars rest
  | cons part parts ih =>
    obtain ⟨hpart, hothers⟩ := List.forall_mem_cons.mp hparts
    obtain ⟨c, _, hslash, hstar, hmore, rfl⟩ := mem_pastStars.mp hpart
    obtain ⟨first, more, hfirst, hmoreNe, hmoreStars, rfl⟩ := mem_upToStars.mp hmore
    have next := ih hothers hmoreNe hmoreStars
    simp only [List.flatten_cons, List.cons_append, List.append_assoc]
    rw [commentEnd?_past_stars hstars hslash hstar, commentEnd?_append_of_no_star hfirst, next]
    simp only [Option.map_some, List.length_cons, List.length_append, Option.some.injEq]
    omega

/-- A comment is closed at its end, whatever comes after it. -/
theorem commentEnd?_of_mem {w : List Char} (h : w ∈ commentTail) (rest : List Char) :
    commentEnd? (w ++ rest) = some w.length := by
  obtain ⟨_, hopening, _, hmiddle, rfl⟩ := mem_commentTail.mp h
  obtain ⟨first, stars, hfirst, hne, hstars, rfl⟩ := mem_upToStars.mp hopening
  obtain ⟨parts, rfl, hparts⟩ := Language.mem_kstar.mp hmiddle
  have closed := commentEnd?_of_parts hparts hne hstars rest
  simp only [List.append_assoc, List.singleton_append]
  rw [commentEnd?_append_of_no_star hfirst, closed]
  simp only [Option.map_some, List.length_cons, List.length_append, List.length_nil,
    Option.some.injEq]
  omega

/-! ### What is closed at its end is a comment -/

private theorem commentTail_closing : ['*', '/'] ∈ commentTail := by
  apply mem_commentTail.mpr
  refine ⟨['*'], mem_upToStars.mpr ⟨[], ['*'], ?_⟩, [], Language.nil_mem_kstar _, rfl⟩
  simp

-- A character in front of a tail is one more before its stars, one more of the stars in front, or the
-- first past a star of its own.
private theorem commentTail_cons {c : Char} {w : List Char} (h : w ∈ commentTail)
    (hopen : ¬ (c = '*' ∧ ∃ rest, w = '/' :: rest)) : c :: w ∈ commentTail := by
  obtain ⟨_, hopening, middle, hmiddle, rfl⟩ := mem_commentTail.mp h
  obtain ⟨first, stars, hfirst, hne, hstars, rfl⟩ := mem_upToStars.mp hopening
  apply mem_commentTail.mpr
  by_cases hc : c = '*'
  · subst hc
    cases first with
    | nil =>
      have more : ∀ d ∈ '*' :: stars, d = '*' := List.forall_mem_cons.mpr ⟨rfl, hstars⟩
      refine ⟨'*' :: stars, mem_upToStars.mpr ⟨[], _, nofun, List.cons_ne_nil _ _, more, rfl⟩,
        middle, hmiddle, rfl⟩
    | cons d first =>
      obtain ⟨hstar, hothers⟩ := List.forall_mem_cons.mp hfirst
      have hslash : d ≠ '/' := by
        rintro rfl
        exact hopen ⟨rfl, _, rfl⟩
      have inner : first ++ stars ∈ upToStars :=
        mem_upToStars.mpr ⟨first, stars, hothers, hne, hstars, rfl⟩
      have part : d :: (first ++ stars) ∈ pastStars :=
        mem_pastStars.mpr ⟨d, _, hslash, hstar, inner, rfl⟩
      have single : ['*'] ∈ upToStars := mem_upToStars.mpr ⟨[], ['*'], by simp⟩
      have parts : (d :: (first ++ stars)) ++ middle ∈ pastStars∗ := by
        obtain ⟨L, rfl, hL⟩ := Language.mem_kstar.mp hmiddle
        exact Language.mem_kstar.mpr ⟨_ :: L, rfl, List.forall_mem_cons.mpr ⟨part, hL⟩⟩
      refine ⟨['*'], single, _, parts, ?_⟩
      simp
  · have more : ∀ d ∈ c :: first, d ≠ '*' := List.forall_mem_cons.mpr ⟨hc, hfirst⟩
    refine ⟨c :: first ++ stars, mem_upToStars.mpr ⟨_, stars, more, hne, hstars, rfl⟩,
      middle, hmiddle, ?_⟩
    simp

/-- The text up to and with its first closing mark is that of a comment. -/
theorem mem_of_commentEnd? {text : List Char} {n : Nat} (h : commentEnd? text = some n) :
    text.take n ∈ commentTail := by
  fun_induction commentEnd? text generalizing n with
  | case1 rest =>
    cases h
    exact commentTail_closing
  | case2 c text hopen ih =>
    obtain ⟨m, hm, rfl⟩ := Option.map_eq_some_iff.mp h
    rw [Nat.add_comm, List.take_succ_cons]
    apply commentTail_cons (ih hm)
    rintro ⟨rfl, rest, hrest⟩
    cases text with
    | nil => cases hm
    | cons d text =>
      have hd : d = '/' := by
        cases m with
        | zero => cases hrest
        | succ m => exact (List.cons.inj hrest).1
      exact hopen text rfl (by rw [hd])
  | case3 => cases h

/-- The tail of a comment is measured by its first closing mark. -/
theorem measures_commentEnd? (text : List Char) :
    Measures commentTail text (commentEnd? text) := by
  constructor
  · intro n h
    refine ⟨text.take n, mem_of_commentEnd? h, List.take_prefix n text, ?_⟩
    have closed := commentEnd?_of_mem (mem_of_commentEnd? h) (text.drop n)
    rw [List.take_append_drop, h] at closed
    exact (Option.some.inj closed).symm
  · rintro w hw ⟨rest, rfl⟩
    exact ⟨w.length, commentEnd?_of_mem hw rest, Nat.le_refl _⟩

end Pattern

end FlatSheet
