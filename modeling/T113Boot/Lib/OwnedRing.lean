/- Module: T113Boot/Lib/OwnedRing
   layer: library
   digest: A ring of slots that a producer fills and a consumer empties, each slot owned by one. -/

import Mathlib.Data.Nat.ModEq

set_option autoImplicit false
set_option relaxedAutoImplicit false

namespace T113Boot.Lib.OwnedRing

variable {β : Type}

/-- From slot `t % n` on the ring of `n` slots holds a queue, and the producer owns all others. The
first slot of the queue may be handed back to the producer before its element is taken out. -/
structure Backed (n : Nat) (own : Nat → Bool) (holds : Nat → β → Prop) (t : Nat) (q : List β)
    (back : Bool) : Prop where
  short : q.length ≤ n
  stored : ∀ j b, q[j]? = some b → holds ((t + j) % n) b
  taken : ∀ j < q.length, own ((t + j) % n) = (back && j == 0)
  free : ∀ j < n, q.length ≤ j → own ((t + j) % n) = true
  inside : back = true → q ≠ []

section Backed

variable {n t : Nat} {own own' : Nat → Bool} {holds holds' : Nat → β → Prop} {q : List β} {b : β}
  {back : Bool}

theorem slot_inj {i j : Nat} (hi : i < n) (hj : j < n) (same : (t + i) % n = (t + j) % n) :
    i = j := by
  have cancelled : i ≡ j [MOD n] := Nat.ModEq.add_left_cancel' t same
  rwa [Nat.ModEq, Nat.mod_eq_of_lt hi, Nat.mod_eq_of_lt hj] at cancelled

theorem backed_nil (t : Nat) (owned : ∀ i < n, own i = true) (pos : 0 < n) :
    Backed n own holds t [] false where
  short := Nat.zero_le n
  stored j b there := by cases there
  taken j inside := absurd inside (Nat.not_lt_zero j)
  free j _ _ := owned _ (Nat.mod_lt _ pos)
  inside h := absurd h Bool.noConfusion

theorem Backed.first (ring : Backed n own holds t q back) (some : q ≠ []) :
    own (t % n) = back := by
  have own := ring.taken 0 (List.length_pos_iff.mpr some)
  rw [Nat.add_zero, BEq.rfl, Bool.and_true] at own
  exact own

theorem Backed.head (ring : Backed n own holds t (b :: q) back) : holds (t % n) b :=
  ring.stored 0 b rfl

theorem Backed.ne_nil (ring : Backed n own holds t q back) (pos : 0 < n)
    (owned : own (t % n) = false) : q ≠ [] := by
  rintro rfl
  have free := ring.free 0 pos (Nat.le_refl 0)
  rw [Nat.add_zero, owned] at free
  cases free

/-- Where the producer owns the slot behind the queue, and that is not the first one handed back,
there is room. -/
theorem Backed.room (ring : Backed n own holds t q back) (pos : 0 < n)
    (owned : own ((t + q.length) % n) = true)
    (apart : back = true → (t + q.length) % n ≠ t % n) : q.length < n := by
  refine Nat.lt_of_le_of_ne ring.short fun full => ?_
  have same : (t + q.length) % n = t % n := by rw [full, Nat.add_mod_right]
  cases back
  · rw [same, ring.first (List.length_pos_iff.mp (full ▸ pos))] at owned
    cases owned
  · exact apart rfl same

/-- The producer fills the slot behind the queue. -/
theorem Backed.push (ring : Backed n own holds t q back) (room : q.length < n)
    (given : own' ((t + q.length) % n) = false)
    (others : ∀ i, i ≠ (t + q.length) % n → own' i = own i)
    (filled : holds' ((t + q.length) % n) b)
    (keeps : ∀ i, i ≠ (t + q.length) % n → ∀ c, holds i c → holds' i c) :
    Backed n own' holds' t (q ++ [b]) back := by
  have apart {j : Nat} (inside : j < n) (other : j ≠ q.length) :
      (t + j) % n ≠ (t + q.length) % n := fun same => other (slot_inj inside room same)
  refine ⟨?_, fun j c there => ?_, fun j inside => ?_, fun j inside behind => ?_, fun _ => by simp⟩
  · rw [List.length_append]
    exact room
  · rcases Nat.lt_or_ge j q.length with before | after
    · rw [List.getElem?_append_left before] at there
      exact keeps _ (apart (Nat.lt_trans before room) (Nat.ne_of_lt before)) c
        (ring.stored j c there)
    · rw [List.getElem?_append_right after] at there
      obtain ⟨last, same⟩ : j - q.length = 0 ∧ b = c := by
        rcases rest : j - q.length with _ | k
        · rw [rest] at there
          exact ⟨rfl, Option.some.inj there⟩
        · rw [rest] at there
          cases there
      obtain rfl : j = q.length := by omega
      rw [← same]
      exact filled
  · rw [List.length_append, List.length_singleton] at inside
    by_cases last : j = q.length
    · rw [last, given]
      rcases back with _ | _
      · rfl
      · have pos := List.length_pos_iff.mpr (ring.inside rfl)
        simp only [Bool.true_and]
        exact (beq_eq_false_iff_ne.mpr (Nat.ne_of_gt pos)).symm
    · rw [others _ (apart (by omega) last)]
      exact ring.taken j (by omega)
  · rw [List.length_append, List.length_singleton] at behind
    rw [others _ (apart inside (by omega))]
    exact ring.free j inside (by omega)

/-- The consumer hands the first slot back. -/
theorem Backed.handBack (ring : Backed n own holds t q false) (some : q ≠ [])
    (given : own' (t % n) = true) (others : ∀ i, i ≠ t % n → own' i = own i)
    (keeps : ∀ i c, holds i c → holds' i c) : Backed n own' holds' t q true := by
  refine ⟨ring.short, fun j c there => keeps _ c (ring.stored j c there), fun j inside => ?_,
    fun j inside behind => ?_, fun _ => some⟩
  · by_cases first : j = 0
    · rw [first, Nat.add_zero, given]
      rfl
    · have other : (t + j) % n ≠ (t + 0) % n := fun same =>
        first (slot_inj (Nat.lt_of_lt_of_le inside ring.short)
          (Nat.lt_of_lt_of_le (Nat.zero_lt_of_lt inside) ring.short) same)
      rw [others _ other, ring.taken j inside, Bool.false_and, Bool.true_and]
      exact (beq_eq_false_iff_ne.mpr first).symm
  · have pos : 0 < j := Nat.lt_of_lt_of_le (List.length_pos_iff.mpr some) behind
    have other : (t + j) % n ≠ (t + 0) % n := fun same =>
      absurd (slot_inj inside (Nat.zero_lt_of_lt inside) same) (Nat.ne_of_gt pos)
    rw [others _ other]
    exact ring.free j inside behind

theorem Backed.pop (ring : Backed n own holds t (b :: q) true) :
    Backed n own holds (t + 1) q false := by
  have shift (j : Nat) : t + 1 + j = t + (j + 1) := by omega
  refine ⟨Nat.le_of_succ_le ring.short, fun j c there => ?_, fun j inside => ?_,
    fun j inside behind => ?_, fun h => absurd h Bool.noConfusion⟩
  · rw [shift]
    exact ring.stored (j + 1) c there
  · rw [shift, ring.taken (j + 1) (Nat.succ_lt_succ inside)]
    rfl
  · rw [shift]
    by_cases last : j + 1 < n
    · exact ring.free (j + 1) last (Nat.succ_le_succ behind)
    · have round : (t + (j + 1)) % n = t % n := by
        rw [show j + 1 = n by omega, Nat.add_mod_right]
      rw [round]
      exact ring.first (List.cons_ne_nil b q)

/-- The slots of the ring, described otherwise. -/
theorem Backed.mono (ring : Backed n own holds t q back)
    (keeps : ∀ i c, holds i c → holds' i c) : Backed n own holds' t q back :=
  ⟨ring.short, fun j c there => keeps _ c (ring.stored j c there), ring.taken, ring.free,
    ring.inside⟩

end Backed

end T113Boot.Lib.OwnedRing
