/- Module: T113Boot/Lib/BoundedQueue
   layer: library
   digest: Queues that drop their oldest elements when full, and rings of slots that hold one. -/

import Mathlib.Data.List.Basic
import T113Boot.Lib.OwnedRing

set_option autoImplicit false
set_option relaxedAutoImplicit false

namespace T113Boot.Lib.BoundedQueue

open T113Boot.Lib.OwnedRing (slot_inj)

variable {β : Type}

/-- The last `n` elements, or all of them if there are not so many. -/
def keepLast (n : Nat) (q : List β) : List β := q.drop (q.length - n)

theorem keepLast_of_le {n : Nat} {q : List β} (short : q.length ≤ n) : keepLast n q = q := by
  rw [keepLast, Nat.sub_eq_zero_of_le short, List.drop_zero]

theorem keepLast_append (n : Nat) (q bs : List β) :
    keepLast n (keepLast n q ++ bs) = keepLast n (q ++ bs) := by
  have joined : q.drop (q.length - n) ++ bs = (q ++ bs).drop (q.length - n) :=
    (List.drop_append_of_le_length (Nat.sub_le _ _)).symm
  unfold keepLast
  rw [joined, List.drop_drop, List.length_drop, List.length_append]
  congr 1
  omega

/-- The slot behind slot `i` on a ring of `n` slots. -/
def next (n i : Nat) : Nat := if i + 1 ≥ n then 0 else i + 1

theorem next_eq {n i : Nat} (inside : i < n) : next n i = (i + 1) % n := by
  unfold next
  split
  · rw [show i + 1 = n by omega, Nat.mod_self]
  · rw [Nat.mod_eq_of_lt (by omega)]

theorem next_lt {n i : Nat} (inside : i < n) : next n i < n := by
  rw [next_eq inside]
  exact Nat.mod_lt _ (by omega)

/-- From slot `get` to slot `put` a ring of `n` slots holds a queue. One slot stays free, so that a
full ring differs from an empty one. -/
structure Ring (n : Nat) (holds : Nat → β → Prop) (get put : Nat) (q : List β) : Prop where
  inside : get < n
  short : q.length < n
  behind : put = (get + q.length) % n
  stored : ∀ j b, q[j]? = some b → holds ((get + j) % n) b

section Ring

variable {n get put : Nat} {holds holds' : Nat → β → Prop} {q : List β} {b : β}

theorem ring_nil (inside : get < n) : Ring n holds get get [] where
  inside := inside
  short := by rw [List.length_nil]; omega
  behind := by rw [List.length_nil, Nat.add_zero, Nat.mod_eq_of_lt inside]
  stored j b there := by cases there

theorem Ring.put_lt (ring : Ring n holds get put q) : put < n := by
  rw [ring.behind]
  exact Nat.mod_lt _ (Nat.lt_of_le_of_lt (Nat.zero_le _) ring.short)

theorem Ring.empty_iff (ring : Ring n holds get put q) : get = put ↔ q = [] := by
  constructor
  · intro met
    have same : (get + 0) % n = (get + q.length) % n := by
      rw [← ring.behind, Nat.add_zero, Nat.mod_eq_of_lt ring.inside, met]
    have zero := slot_inj (Nat.lt_of_le_of_lt (Nat.zero_le _) ring.short) ring.short same
    exact List.length_eq_zero_iff.mp zero.symm
  · rintro rfl
    rw [ring.behind, List.length_nil, Nat.add_zero, Nat.mod_eq_of_lt ring.inside]

theorem Ring.head (ring : Ring n holds get put (b :: q)) : holds get b := by
  have first := ring.stored 0 b rfl
  rwa [Nat.add_zero, Nat.mod_eq_of_lt ring.inside] at first

/-- Taking out the first element, or dropping it. -/
theorem Ring.tail (ring : Ring n holds get put (b :: q)) : Ring n holds (next n get) put q where
  inside := next_lt ring.inside
  short := by
    have := ring.short
    rw [List.length_cons] at this
    omega
  behind := by
    rw [ring.behind, next_eq ring.inside, List.length_cons, Nat.mod_add_mod]
    congr 1
    omega
  stored j c there := by
    have held := ring.stored (j + 1) c there
    rw [next_eq ring.inside, Nat.mod_add_mod]
    rwa [show get + (j + 1) = get + 1 + j by omega] at held

/-- Filling the slot behind the queue. -/
theorem Ring.fill (ring : Ring n holds get put q) (filled : holds' put b)
    (keeps : ∀ i ≠ put, ∀ c, holds i c → holds' i c) (j : Nat) (c : β)
    (there : (q ++ [b])[j]? = some c) : holds' ((get + j) % n) c := by
  rcases Nat.lt_trichotomy j q.length with before | rfl | past
  · rw [List.getElem?_append_left before] at there
    refine keeps _ (fun same => ?_) c (ring.stored j c there)
    rw [ring.behind] at same
    exact Nat.ne_of_lt before (slot_inj (before.trans ring.short) ring.short same)
  · rw [List.getElem?_concat_length] at there
    cases there
    rwa [← ring.behind]
  · rw [List.getElem?_eq_none (by simp; omega)] at there
    cases there

/-- Where there is room, the queue grows. -/
theorem Ring.push (ring : Ring n holds get put q) (room : q.length + 1 < n) (filled : holds' put b)
    (keeps : ∀ i ≠ put, ∀ c, holds i c → holds' i c) :
    next n put ≠ get ∧ Ring n holds' get (next n put) (q ++ [b]) := by
  have longer : Ring n holds' get (next n put) (q ++ [b]) :=
    { inside := ring.inside
      short := by
        rw [List.length_append, List.length_singleton]
        exact room
      behind := by
        rw [next_eq ring.put_lt, ring.behind, Nat.mod_add_mod, List.length_append,
          List.length_singleton, Nat.add_assoc]
      stored := ring.fill filled keeps }
  refine ⟨fun met => ?_, longer⟩
  have none := longer.empty_iff.mp met.symm
  exact absurd none (by simp)

theorem Ring.push_full (ring : Ring n holds get put q) (full : q.length + 1 = n)
    (filled : holds' put b) (keeps : ∀ i ≠ put, ∀ c, holds i c → holds' i c) :
    next n put = get ∧ Ring n holds' (next n get) (next n put) ((q ++ [b]).drop 1) := by
  have round : (get + n) % n = get := by
    rw [Nat.add_mod_right, Nat.mod_eq_of_lt ring.inside]
  have length : ((q ++ [b]).drop 1).length = q.length := by simp
  have met : next n put = get := by
    rw [next_eq ring.put_lt, ring.behind, Nat.mod_add_mod, Nat.add_assoc, full, round]
  refine ⟨met, ?_⟩
  exact
    { inside := next_lt ring.inside
      short := by
        rw [length]
        exact ring.short
      behind := by
        rw [met, length, next_eq ring.inside, Nat.mod_add_mod, Nat.add_assoc, Nat.add_comm 1, full,
          round]
      stored := by
        intro j c there
        rw [List.getElem?_drop] at there
        rw [next_eq ring.inside, Nat.mod_add_mod, Nat.add_assoc]
        exact ring.fill filled keeps (1 + j) c there }

end Ring

end T113Boot.Lib.BoundedQueue
