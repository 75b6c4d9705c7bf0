/- Module: T113Boot/Lib/Words
   layer: library
   digest: The maximal runs of a list between its separators, in their order. -/

import Mathlib.Data.List.Basic

set_option autoImplicit false
set_option relaxedAutoImplicit false

namespace T113Boot.Lib.Words

section Words

variable {α : Type} (sep : α → Bool) (text : List α)

/-- A separator stands at a position. -/
def Separates (i : Nat) : Prop := text[i]?.any sep = true

instance (i : Nat) : Decidable (Separates sep text i) := inferInstanceAs (Decidable (_ = true))

/-- A maximal run without separators, from `start` up to before `stop`. -/
structure IsWord (start stop : Nat) : Prop where
  nonempty : start < stop
  inside : stop ≤ text.length
  free : ∀ i, start ≤ i → i < stop → ¬ Separates sep text i
  first : start = 0 ∨ Separates sep text (start - 1)
  last : stop = text.length ∨ Separates sep text stop

/-- The maximal runs, each once and from the left to the right. -/
structure Enumerates (words : List (Nat × Nat)) : Prop where
  sorted : words.Pairwise fun w w' => w.1 < w'.1
  mem_iff : ∀ w, w ∈ words ↔ IsWord sep text w.1 w.2

/-- A run begins at a position. -/
def Begins (i : Nat) : Prop :=
  i < text.length ∧ ¬ Separates sep text i ∧ (i = 0 ∨ Separates sep text (i - 1))

instance (i : Nat) : Decidable (Begins sep text i) := inferInstanceAs (Decidable (_ ∧ _))

/-- The positions from `p` on at which a run begins. -/
def startsFrom (p : Nat) : List Nat :=
  (List.range' p (text.length - p)).filter (Begins sep text)

/-- The first separator from `start` on, or the end. -/
def stopOf (start : Nat) : Nat :=
  start + ((text.drop start).takeWhile fun c => !sep c).length

def words : List (Nat × Nat) :=
  (startsFrom sep text 0).map fun start => (start, stopOf sep text start)

end Words

variable {α : Type} {sep : α → Bool} {text : List α}

private theorem separates_at {i : Nat} (inside : i < text.length) :
    Separates sep text i ↔ sep text[i] = true := by
  rw [Separates, List.getElem?_eq_getElem inside, Option.any_some]

theorem not_separates_end : ¬ Separates sep text text.length := by
  rw [Separates, List.getElem?_eq_none (Nat.le_refl _)]
  exact Bool.false_ne_true

theorem stopOf_eq {start stop : Nat} (order : start ≤ stop) (inside : stop ≤ text.length)
    (free : ∀ i, start ≤ i → i < stop → ¬ Separates sep text i)
    (last : stop = text.length ∨ Separates sep text stop) : stopOf sep text start = stop := by
  induction left : stop - start generalizing start with
  | zero =>
    obtain rfl : start = stop := by omega
    rcases last with rfl | last
    · rw [stopOf, List.drop_length]
      rfl
    · have more : start < text.length := by
        refine Nat.lt_of_le_of_ne inside ?_
        rintro rfl
        exact not_separates_end last
      rw [stopOf, List.drop_eq_getElem_cons more, List.takeWhile_cons_of_neg]
      · rfl
      · rw [(separates_at more).mp last]
        exact Bool.false_ne_true
  | succ left ih =>
    have more : start < text.length := by omega
    have further : start + 1 ≤ stop := by omega
    have rest := ih further (fun i low => free i (by omega)) (by omega)
    have here : (!sep text[start]) = true := by
      rw [Bool.not_eq_true', ← Bool.not_eq_true, ← separates_at more]
      exact free start (Nat.le_refl _) further
    rw [stopOf] at rest ⊢
    rw [List.drop_eq_getElem_cons more, List.takeWhile_cons, if_pos here, List.length_cons]
    omega

theorem exists_stop (sep : α → Bool) {start : Nat} (inside : start ≤ text.length) : ∃ stop,
    start ≤ stop ∧ stop ≤ text.length ∧ (∀ i, start ≤ i → i < stop → ¬ Separates sep text i) ∧
      (stop = text.length ∨ Separates sep text stop) := by
  induction left : text.length - start generalizing start with
  | zero =>
    exact ⟨start, Nat.le_refl _, inside, fun i low high => absurd high (by omega), .inl (by omega)⟩
  | succ left ih =>
    by_cases here : Separates sep text start
    · exact ⟨start, Nat.le_refl _, inside, fun i low high => absurd high (by omega), .inr here⟩
    · have more : start + 1 ≤ text.length := by omega
      obtain ⟨stop, order, bound, free, last⟩ := ih more (by omega)
      refine ⟨stop, by omega, bound, fun i low high => ?_, last⟩
      rcases Nat.eq_or_lt_of_le low with rfl | low
      · exact here
      · exact free i low high

theorem isWord_iff (start stop : Nat) :
    IsWord sep text start stop ↔ Begins sep text start ∧ stop = stopOf sep text start := by
  constructor
  · rintro ⟨nonempty, inside, free, first, last⟩
    refine ⟨⟨by omega, free start (Nat.le_refl _) nonempty, first⟩, ?_⟩
    exact (stopOf_eq (by omega) inside free last).symm
  · rintro ⟨⟨inside, here, first⟩, rfl⟩
    obtain ⟨stop, order, bound, free, last⟩ := exists_stop sep (Nat.le_of_lt inside)
    rw [stopOf_eq order bound free last]
    refine ⟨Nat.lt_of_le_of_ne order ?_, bound, free, first, last⟩
    rintro rfl
    rcases last with rfl | last
    · exact absurd inside (Nat.lt_irrefl _)
    · exact here last

theorem startsFrom_skip {p q : Nat} (order : p ≤ q) (inside : q ≤ text.length)
    (none : ∀ i, p ≤ i → i < q → ¬ Begins sep text i) :
    startsFrom sep text p = startsFrom sep text q := by
  have split : List.range' p (text.length - p) =
      List.range' p (q - p) ++ List.range' q (text.length - q) := by
    have joined := List.range'_append_1 (s := p) (m := q - p) (n := text.length - q)
    rw [Nat.add_sub_cancel' order] at joined
    rw [joined]
    congr 1
    omega
  have empty : (List.range' p (q - p)).filter (Begins sep text) = [] := by
    apply List.filter_eq_nil_iff.mpr
    intro i member
    rw [List.mem_range'_1] at member
    rw [decide_eq_true_eq]
    exact none i member.1 (by omega)
  rw [startsFrom, startsFrom, split, List.filter_append, empty, List.nil_append]

theorem startsFrom_begins {p : Nat} (begins : Begins sep text p) :
    startsFrom sep text p = p :: startsFrom sep text (p + 1) := by
  have more : text.length - p = text.length - (p + 1) + 1 := by
    have inside := begins.1
    omega
  rw [startsFrom, more, List.range'_succ, List.filter_cons, if_pos (decide_eq_true begins)]
  rfl

theorem startsFrom_end : startsFrom sep text text.length = [] := by
  rw [startsFrom, Nat.sub_self]
  rfl

theorem begins_of_mem {p i : Nat} (member : i ∈ startsFrom sep text p) : Begins sep text i :=
  of_decide_eq_true (List.mem_filter.mp member).2

theorem words_enumerate : Enumerates sep text (words sep text) := by
  constructor
  · apply List.pairwise_map.mpr
    exact List.Pairwise.filter _ List.pairwise_lt_range'
  · rintro ⟨start, stop⟩
    rw [isWord_iff, words, List.mem_map]
    constructor
    · rintro ⟨_, member, same⟩
      cases same
      exact ⟨begins_of_mem member, rfl⟩
    · rintro ⟨begins, same⟩
      refine ⟨start, List.mem_filter.mpr ⟨?_, decide_eq_true begins⟩, Prod.ext rfl same.symm⟩
      rw [List.mem_range'_1]
      exact ⟨Nat.zero_le _, by have inside := begins.1; omega⟩

end T113Boot.Lib.Words
