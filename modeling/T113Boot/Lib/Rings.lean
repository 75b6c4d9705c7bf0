/- Module: T113Boot/Lib/Rings
   layer: library
   digest: Doubly linked rings, and what links have to change where a node enters or leaves one. -/

import Mathlib.Data.List.Chain
import Mathlib.Data.List.Nodup

set_option autoImplicit false
set_option relaxedAutoImplicit false

namespace T113Boot.Lib.Rings

variable {α : Type} {next prev next' prev' : α → α} {h x y : α} {l l' s t : List α}

/-- Two nodes that follow each other: each has a link to the other. -/
def Joined (next prev : α → α) (x y : α) : Prop := next x = y ∧ prev y = x

/-- The ring of a header and its members: every node is joined to the one behind it, and the last
one to the header. -/
structure Ring (next prev : α → α) (h : α) (l : List α) : Prop where
  nodup : (h :: l).Nodup
  joined : (h :: (l ++ [h])).IsChain (Joined next prev)

theorem joined_row (row : l.IsChain (Joined next prev))
    (same : ∀ a b, a ∈ l.dropLast → b ∈ l → Joined next prev a b → Joined next' prev' a b) :
    l.IsChain (Joined next' prev') := by
  rw [List.isChain_iff_forall_rel_of_append_cons_cons] at row ⊢
  rintro a b front back rfl
  refine same a b ?_ (by simp) (row rfl)
  rw [List.dropLast_append_of_ne_nil (List.cons_ne_nil _ _), List.dropLast_cons_cons]
  simp

namespace Ring

/-- Only the links of the nodes matter. -/
theorem congr (ring : Ring next prev h l) (sameNext : ∀ a ∈ h :: l, next' a = next a)
    (samePrev : ∀ a ∈ h :: l, prev' a = prev a) : Ring next' prev' h l := by
  refine ⟨ring.nodup, ring.joined.imp_of_mem_imp fun a b first second linked => ?_⟩
  have node {c : α} (member : c ∈ h :: (l ++ [h])) : c ∈ h :: l := by
    simp only [List.mem_cons, List.mem_append, List.not_mem_nil, or_false] at member ⊢
    tauto
  exact ⟨(sameNext a (node first)).trans linked.1, (samePrev b (node second)).trans linked.2⟩

/-- The turn of the ring through a node. -/
theorem turn (ring : Ring next prev h l) (split : h :: l = s ++ x :: t) :
    (s ++ [x]).IsChain (Joined next prev) ∧
      (x :: (t ++ [h])).IsChain (Joined next prev) := by
  have whole : h :: (l ++ [h]) = s ++ x :: (t ++ [h]) := by
    rw [← List.cons_append, split, List.append_assoc, List.cons_append]
  have joined := ring.joined
  rw [whole] at joined
  exact List.isChain_split.mp joined

/-- Behind a node stands the next one of the list, or the header. -/
theorem next_eq (ring : Ring next prev h l) (split : h :: l = s ++ x :: t) :
    next x = t.headD h := by
  have turn := (ring.turn split).2
  cases t with
  | nil => exact (List.isChain_cons_cons.mp turn).1.1
  | cons y t => exact (List.isChain_cons_cons.mp turn).1.1

theorem prev_eq (ring : Ring next prev h l) (split : l = s ++ x :: t) :
    prev x = s.getLastD h := by
  have turn := (ring.turn (s := h :: s) (x := x) (t := t) (by rw [split]; rfl)).1
  rcases List.eq_nil_or_concat' s with rfl | ⟨front, y, rfl⟩
  · exact (List.isChain_pair.mp turn).2
  · rw [List.getLastD_concat]
    have seam : (h :: (front ++ [y])) ++ [x] = (h :: front) ++ y :: [x] := by simp
    rw [seam] at turn
    exact (List.isChain_append_cons_cons.mp turn).2.1.2

theorem next_mem (ring : Ring next prev h l) (member : x ∈ h :: l) : next x ∈ h :: l := by
  obtain ⟨s, t, split⟩ := List.append_of_mem member
  rw [ring.next_eq split]
  cases t with
  | nil => exact List.mem_cons_self
  | cons y t =>
    rw [split]
    simp

theorem prev_mem (ring : Ring next prev h l) (member : x ∈ l) : prev x ∈ h :: l := by
  obtain ⟨s, t, split⟩ := List.append_of_mem member
  rw [ring.prev_eq split]
  rcases List.eq_nil_or_concat' s with rfl | ⟨front, y, rfl⟩
  · exact List.mem_cons_self
  · rw [List.getLastD_concat, split]
    simp

theorem prev_next (ring : Ring next prev h l) (member : x ∈ h :: l) : prev (next x) = x := by
  obtain ⟨s, t, split⟩ := List.append_of_mem member
  have turn := (ring.turn split).2
  rw [ring.next_eq split]
  cases t with
  | nil => exact (List.isChain_cons_cons.mp turn).1.2
  | cons y t => exact (List.isChain_cons_cons.mp turn).1.2

private theorem joined_of_kept (ring : Ring next prev h l) (member : x ∈ h :: l) {a b : α}
    (keepNext : next' a = next a) (keepPrev : b ≠ next x → prev' b = prev b) (other : a ≠ x)
    (joint : Joined next prev a b) : Joined next' prev' a b := by
  obtain ⟨forth, back⟩ := joint
  refine ⟨keepNext.trans forth, (keepPrev ?_).trans back⟩
  rintro rfl
  exact other (back.symm.trans (ring.prev_next member))

theorem insert (ring : Ring next prev h l) (split : h :: l = s ++ x :: t)
    (split' : h :: l' = s ++ x :: y :: t) (new : y ∉ h :: l)
    (forth : next' x = y) (back : prev' y = x) (on : next' y = next x) (off : prev' (next x) = y)
    (keepNext : ∀ a ∈ h :: l, a ≠ x → next' a = next a)
    (keepPrev : ∀ a ∈ h :: l, a ≠ next x → prev' a = prev a) : Ring next' prev' h l' := by
  have nodup := ring.nodup
  have member : x ∈ h :: l := by grind
  have header : h ∈ h :: l := List.mem_cons_self
  have keep {a b : α} (first : a ∈ h :: l) (second : b ∈ h :: l) (other : a ≠ x) :
      Joined next prev a b → Joined next' prev' a b :=
    ring.joined_of_kept member (keepNext a first other) (keepPrev b second) other
  obtain ⟨before, after⟩ := ring.turn split
  have whole : h :: (l' ++ [h]) = s ++ x :: y :: (t ++ [h]) := by
    rw [← List.cons_append, split', List.append_assoc, List.cons_append, List.cons_append]
  refine ⟨by grind, ?_⟩
  rw [whole, List.isChain_append_cons_cons]
  refine ⟨joined_row before fun a b first second => ?_, ⟨forth, back⟩, ?_⟩
  · exact keep (by grind) (by grind) (by grind)
  · rw [ring.next_eq split] at on off
    cases t with
    | nil => exact List.isChain_pair.mpr ⟨on, off⟩
    | cons z t =>
      rw [List.cons_append, List.isChain_cons_cons] at after ⊢
      refine ⟨⟨on, off⟩, joined_row after.2 fun a b first second => ?_⟩
      exact keep (by grind) (by grind) (by grind)

/-- A node leaves the ring: its two neighbours are joined. -/
theorem remove (ring : Ring next prev h l) (split : l = s ++ y :: t)
    (forth : next' (prev y) = next y) (back : prev' (next y) = prev y)
    (keepNext : ∀ a ∈ h :: l, a ≠ y → a ≠ prev y → next' a = next a)
    (keepPrev : ∀ a ∈ h :: l, a ≠ y → a ≠ next y → prev' a = prev a) :
    Ring next' prev' h (s ++ t) := by
  have nodup := ring.nodup
  have member : y ∈ h :: l := by grind
  obtain none | ⟨front, x, here⟩ := List.eq_nil_or_concat' (h :: s)
  · cases none
  have around : h :: l = front ++ x :: y :: t := by
    rw [split, ← List.cons_append, here, List.append_assoc, List.singleton_append]
  have whole : h :: ((s ++ t) ++ [h]) = front ++ x :: (t ++ [h]) := by
    rw [List.append_assoc, ← List.cons_append, here, List.append_assoc, List.singleton_append]
  obtain ⟨before, after⟩ := ring.turn around
  rw [List.cons_append, List.isChain_cons_cons] at after
  obtain ⟨⟨on, off⟩, behind⟩ := after
  rw [off] at forth back keepNext
  have keep {a b : α} (first : a ∈ h :: l) (second : b ∈ h :: l) (other : a ≠ x)
      (another : a ≠ y) (joint : Joined next prev a b) : Joined next' prev' a b := by
    refine ring.joined_of_kept member (keepNext a first another other) ?_ another joint
    refine keepPrev b second ?_
    rintro rfl
    exact other (joint.2.symm.trans off)
  refine ⟨by grind, ?_⟩
  rw [whole, List.isChain_split]
  refine ⟨joined_row before fun a b first second => ?_, ?_⟩
  · exact keep (by grind) (by grind) (by grind) (by grind)
  · rw [ring.next_eq (s := front ++ [x]) (t := t) (by rw [around]; simp)] at forth back
    cases t with
    | nil => exact List.isChain_pair.mpr ⟨forth, back⟩
    | cons z t =>
      rw [List.cons_append, List.isChain_cons_cons] at behind ⊢
      refine ⟨⟨forth, back⟩, joined_row behind.2 fun a b first second => ?_⟩
      exact keep (by grind) (by grind) (by grind) (by grind)

end Ring

end T113Boot.Lib.Rings
