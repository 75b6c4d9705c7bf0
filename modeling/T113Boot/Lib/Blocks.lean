/- Module: T113Boot/Lib/Blocks
   layer: library
   digest: Blocks of an address space, and the images in which they lie at their own addresses. -/

import Mathlib.Data.List.Sort

set_option autoImplicit false
set_option relaxedAutoImplicit false

namespace T113Boot.Lib.Blocks

variable {α : Type}

/-- Some cells that belong at an address. -/
structure Block (α : Type) where
  start : Nat
  data : List α

def Block.stop (b : Block α) : Nat := b.start + b.data.length

/-- The cell at address `a` of an image that lies at `base`. -/
def cell (base : Nat) (image : List α) (a : Nat) : Option α :=
  if base ≤ a then image[a - base]? else none

/-- The image holds a block at the block's own address. -/
def Shows (base : Nat) (image : List α) (b : Block α) : Prop :=
  ∀ k x, b.data[k]? = some x → cell base image (b.start + k) = some x

/-- The cells of some blocks, one block behind the other. -/
def joined (bs : List (Block α)) : List α := bs.flatMap (·.data)

/-- Each block starts where the one before it stops. -/
def Chained : Nat → List (Block α) → Prop
  | _, [] => True
  | base, b :: bs => b.start = base ∧ Chained b.stop bs

/-- No two blocks share a cell. -/
def NoOverlap (bs : List (Block α)) : Prop :=
  bs.Pairwise fun b c => b.stop ≤ c.start ∨ c.stop ≤ b.start

/-- The blocks in the order of their addresses. -/
def ordered (bs : List (Block α)) : List (Block α) := bs.insertionSort fun b c => b.start ≤ c.start

theorem cell_append_left {base a : Nat} {image : List α} {x : α}
    (h : cell base image a = some x) (more : List α) : cell base (image ++ more) a = some x := by
  unfold cell at h ⊢
  split at h
  · rename_i above
    obtain ⟨inside, -⟩ := List.getElem?_eq_some_iff.mp h
    rw [if_pos above, List.getElem?_append_left inside]
    exact h
  · cases h

theorem cell_append_right {base a : Nat} {image : List α} {x : α} (before : List α)
    (h : cell (base + before.length) image a = some x) : cell base (before ++ image) a = some x := by
  unfold cell at h ⊢
  split at h
  · rename_i above
    rw [if_pos (by omega), List.getElem?_append_right (by omega), Nat.sub_sub]
    exact h
  · cases h

theorem image_ext {base : Nat} {image other : List α} (length : image.length = other.length)
    (same : ∀ a x, cell base image a = some x → cell base other a = some x) : image = other := by
  apply List.ext_getElem length
  intro i inside _
  have here := same (base + i) image[i] (by
    rw [cell, if_pos (Nat.le_add_right _ _), Nat.add_sub_cancel_left,
      List.getElem?_eq_getElem inside])
  rw [cell, if_pos (Nat.le_add_right _ _), Nat.add_sub_cancel_left, List.getElem?_eq_some_iff] at here
  exact here.2.symm

/-- A block that has cells lies within an image that shows it. -/
theorem Shows.within {base : Nat} {image : List α} {b : Block α} (shown : Shows base image b)
    (cells : b.data ≠ []) : base ≤ b.start ∧ b.stop ≤ base + image.length := by
  have length := List.length_pos_of_ne_nil cells
  have bounds (k : Nat) (inside : k < b.data.length) :
      base ≤ b.start + k ∧ b.start + k - base < image.length := by
    have at_k := shown k b.data[k] (List.getElem?_eq_getElem inside)
    unfold cell at at_k
    split at at_k
    · exact ⟨by assumption, (List.getElem?_eq_some_iff.mp at_k).1⟩
    · cases at_k
  have first := bounds 0 length
  have last := bounds (b.data.length - 1) (by omega)
  unfold Block.stop
  omega

theorem length_joined_cons (b : Block α) (bs : List (Block α)) :
    (joined (b :: bs)).length = b.data.length + (joined bs).length := by
  simp [joined]

/-- A chain shows each of its blocks. -/
theorem Chained.shows {base : Nat} {bs : List (Block α)} (chained : Chained base bs) :
    ∀ b ∈ bs, Shows base (joined bs) b := by
  induction bs generalizing base with
  | nil => simp
  | cons c bs ih =>
    obtain ⟨start, rest⟩ := chained
    intro b member k x at_k
    rw [joined, List.flatMap_cons]
    rcases List.mem_cons.mp member with rfl | later
    · apply cell_append_left
      rw [cell, if_pos (by omega), start, Nat.add_sub_cancel_left]
      exact at_k
    · apply cell_append_right
      rw [← start]
      exact ih rest b later k x at_k

theorem Chained.cell_joined {base : Nat} {bs : List (Block α)} (chained : Chained base bs) {a : Nat}
    {x : α} (h : cell base (joined bs) a = some x) :
    ∃ b ∈ bs, ∃ k, b.data[k]? = some x ∧ a = b.start + k := by
  induction bs generalizing base with
  | nil => simp [joined, cell] at h
  | cons b bs ih =>
    obtain ⟨start, rest⟩ := chained
    unfold cell at h
    split at h
    · rename_i above
      rw [joined, List.flatMap_cons, List.getElem?_append] at h
      split at h
      · exact ⟨b, List.mem_cons_self, a - base, h, by omega⟩
      · have behind : cell b.stop (joined bs) a = some x := by
          unfold Block.stop
          rw [cell, if_pos (by omega), start, ← Nat.sub_sub]
          exact h
        obtain ⟨c, member, k, at_k, here⟩ := ih rest behind
        exact ⟨c, List.mem_cons_of_mem _ member, k, at_k, here⟩
    · cases h

theorem length_joined_le {bs : List (Block α)} (sorted : bs.Pairwise fun b c => b.stop ≤ c.start)
    {low high : Nat} (room : low ≤ high) (inside : ∀ b ∈ bs, low ≤ b.start ∧ b.stop ≤ high) :
    low + (joined bs).length ≤ high := by
  induction bs generalizing low with
  | nil => simpa [joined] using room
  | cons b bs ih =>
    obtain ⟨above, below⟩ := inside b List.mem_cons_self
    rw [List.pairwise_cons] at sorted
    have rest := ih sorted.2 below fun c member =>
      ⟨sorted.1 c member, (inside c (List.mem_cons_of_mem _ member)).2⟩
    rw [length_joined_cons]
    unfold Block.stop at rest
    omega

theorem chained_of_tight {base : Nat} {bs : List (Block α)}
    (sorted : bs.Pairwise fun b c => b.stop ≤ c.start)
    (inside : ∀ b ∈ bs, base ≤ b.start ∧ b.stop ≤ base + (joined bs).length) : Chained base bs := by
  induction bs generalizing base with
  | nil => trivial
  | cons b bs ih =>
    obtain ⟨above, below⟩ := inside b List.mem_cons_self
    rw [List.pairwise_cons] at sorted
    have behind : ∀ c ∈ bs, b.stop ≤ c.start ∧ c.stop ≤ base + (joined (b :: bs)).length :=
      fun c member => ⟨sorted.1 c member, (inside c (List.mem_cons_of_mem _ member)).2⟩
    have tight := length_joined_le sorted.2 below behind
    rw [length_joined_cons] at tight behind
    unfold Block.stop at tight
    have start : b.start = base := by omega
    refine ⟨start, ih sorted.2 fun c member => ?_⟩
    have bounds := behind c member
    unfold Block.stop at bounds ⊢
    omega

theorem mem_ordered {bs : List (Block α)} {b : Block α} : b ∈ ordered bs ↔ b ∈ bs :=
  List.mem_insertionSort _

theorem length_joined_ordered (bs : List (Block α)) :
    (joined (ordered bs)).length = (joined bs).length :=
  ((List.perm_insertionSort _ bs).flatMap_right _).length_eq

theorem ordered_pairwise {bs : List (Block α)} (disjoint : NoOverlap bs)
    (cells : ∀ b ∈ bs, b.data ≠ []) : (ordered bs).Pairwise fun b c => b.stop ≤ c.start := by
  have ascending : (ordered bs).Pairwise fun b c => b.start ≤ c.start := by
    have total : Std.Total fun b c : Block α => b.start ≤ c.start := ⟨fun b c => Nat.le_total _ _⟩
    have trans : IsTrans (Block α) fun b c => b.start ≤ c.start := ⟨fun _ _ _ => Nat.le_trans⟩
    exact List.pairwise_insertionSort _ bs
  have apart : NoOverlap (ordered bs) :=
    (List.perm_insertionSort _ bs).symm.pairwise disjoint fun h => h.symm
  refine (ascending.and apart).imp_of_mem fun {b c} hb hc both => ?_
  rcases both.2 with done | other
  · exact done
  · have length := List.length_pos_of_ne_nil (cells c (mem_ordered.mp hc))
    have start := both.1
    unfold Block.stop at other
    omega

/-- NoOverlap blocks laid one behind the other lie at their own addresses exactly if they form a
chain in the order of addresses, and that order gives the same image. -/
theorem shows_joined_iff {base : Nat} {bs : List (Block α)} (disjoint : NoOverlap bs)
    (cells : ∀ b ∈ bs, b.data ≠ []) : (∀ b ∈ bs, Shows base (joined bs) b) ↔
      Chained base (ordered bs) ∧ joined (ordered bs) = joined bs := by
  constructor
  · intro all
    have chained : Chained base (ordered bs) := by
      refine chained_of_tight (ordered_pairwise disjoint cells) fun b member => ?_
      rw [length_joined_ordered]
      have listed := mem_ordered.mp member
      exact (all b listed).within (cells b listed)
    have agree : ∀ a x, cell base (joined (ordered bs)) a = some x →
        cell base (joined bs) a = some x := by
      intro a x at_a
      obtain ⟨b, member, k, at_k, rfl⟩ := chained.cell_joined at_a
      exact all b (mem_ordered.mp member) k x at_k
    exact ⟨chained, image_ext (length_joined_ordered bs) agree⟩
  · rintro ⟨chained, same⟩ b member
    rw [← same]
    exact chained.shows b (mem_ordered.mpr member)

end T113Boot.Lib.Blocks
