/- Module: T113Boot/Heap/Setup
   layer: specification
   digest: rt_memheap_init makes one free block of the whole pool. -/

import T113Boot.Heap.Rows
import T113Boot.Lib.Rounding

set_option autoImplicit false
set_option relaxedAutoImplicit false

namespace T113Boot.Heap.Setup

open T113Boot.Lib.Cells
open T113Boot.Lib.Rings
open T113Boot.Lib.Rounding
open T113Boot.Heap.Memheap
open T113Boot.Heap.Headers
open T113Boot.Heap.Links
open T113Boot.Heap.Threads
open T113Boot.Heap.Rows

variable (P : Pool) (m : Mem)

theorem rtAlignDown_eq (n : UInt32) : (rtAlignDown n rtAlignSize).toNat = n.toNat / 4 * 4 := by
  have power : (4 : BitVec 32).toNat = 2 ^ 2 := rfl
  exact toNat_and_not_pred power n.toBitVec

/-- One free block. -/
def initial : Layout P where
  blocks := [⟨P.start, P.poolSize - 48, false⟩]
  order := [P.start]
  fills := by
    have room := P.room_poolSize
    refine ⟨rfl, ?_⟩
    change P.start + 24 + (P.poolSize - 48) = P.start + P.poolSize - 24
    omega
  shaped b member := by
    have room := P.room_poolSize
    have aligned := P.aligned
    rw [List.mem_singleton.mp member]
    unfold Pool.poolSize at room ⊢
    refine ⟨aligned, ?_, ?_⟩ <;> simp only <;> omega
  coalesced := List.isChain_singleton _
  nodup := List.nodup_singleton _
  listed a := by
    rw [List.mem_singleton, eq_comm]
    simp

private theorem distinct :
    freeHeader P.heap ≠ P.start ∧ freeHeader P.heap ≠ P.tail ∧ P.start ≠ P.tail := by
  have room := P.room_poolSize
  have tail := P.tail_add
  have apart := P.apart_stop
  unfold Pool.stop at tail apart
  unfold freeHeader
  omega

private theorem rtMemheapInit_reads :
    (rtMemheapInit m P.heap P.start P.size).1 = 0 ∧
    ∀ m', m' = (rtMemheapInit m P.heap P.start P.size).2 →
      (get m' P.tail .next = P.start ∧ get m' P.start .prev = P.tail ∧
        get m' P.start .next = P.tail ∧ get m' P.tail .prev = P.start) ∧
      (get m' (freeHeader P.heap) .nextFree = P.start ∧
        get m' P.start .prevFree = freeHeader P.heap ∧
        get m' P.start .nextFree = freeHeader P.heap ∧
        get m' (freeHeader P.heap) .prevFree = P.start) ∧
      (get m' P.start .magic = magicFreed ∧ get m' P.tail .magic = magicUsed ∧
        get m' P.start .poolPtr = P.heap) ∧
      field m' P.heap .freeList = freeHeader P.heap ∧ field m' P.heap .poolSize = P.poolSize ∧
      field m' P.heap .availableSize = P.poolSize - 48 ∧ field m' P.heap .maxUsedSize = 48 := by
  have room := P.room_poolSize
  have tail := P.tail_add
  have top := P.stop_le
  have fits := P.heapFits
  have nh : (initial P).fills.grid.node (freeHeader P.heap) := Or.inl rfl
  have nt : (initial P).fills.grid.node P.tail := Or.inr (Or.inl rfl)
  have ns : (initial P).fills.grid.node P.start := Or.inr (Or.inr ⟨_, List.mem_cons_self, rfl⟩)
  have header : freeHeader P.heap < 4294967296 := Grid.lt _ nh
  have ends : P.tail < 4294967296 := Grid.lt _ nt
  have starts : P.start < 4294967296 := Grid.lt _ ns
  have heap : P.heap < 4294967296 := by omega
  have small : P.poolSize < 4294967296 := Nat.lt_of_le_of_lt P.poolSize_le P.size.toNat_lt
  have less : P.poolSize - 48 < 4294967296 := by omega
  have zero : 0 < 4294967296 := by decide
  have two : 48 < 4294967296 := by decide
  have freed : magicFreed < 4294967296 := by decide
  have used : magicUsed < 4294967296 := by decide
  obtain ⟨hs, ht, st⟩ := distinct P
  have pool : (rtAlignDown P.size rtAlignSize).toNat = P.poolSize := rtAlignDown_eq P.size
  have available : sub32 P.poolSize (2 * headerSize) = P.poolSize - 48 :=
    sub32_eq (by unfold headerSize; omega) small
  have first : sub32 P.poolSize (P.poolSize - 48) = 48 := by
    rw [sub32_eq (by omega) small]
    omega
  have last : add32 (add32 P.start (P.poolSize - 48)) headerSize = P.tail := by
    unfold Pool.stop at tail
    unfold headerSize
    rw [add32_eq (a := P.start) (by omega), add32_eq (by omega)]
    omega
  refine ⟨by rw [rtMemheapInit, if_neg P.nonnull], ?_⟩
  rintro m' rfl
  simp (disch := assumption) only [rtMemheapInit, if_neg P.nonnull, pool, available, first, last,
    newItem, insertFree, get_set nh nh, get_set nh nt, get_set nh ns, get_set nt nh, get_set nt nt,
    get_set nt ns, get_set ns nh, get_set ns nt, get_set ns ns, field_set nh, field_set nt,
    field_set ns, get_setField nh, get_setField nt, get_setField ns, field_setField, hs, ht, st,
    hs.symm, ht.symm, st.symm, if_true, if_false, and_true, and_false, and_self, reduceCtorEq]

theorem rtMemheapInit_represents : ∃ m', rtMemheapInit m P.heap P.start P.size = (0, m') ∧
    Represents m' (initial P) := by
  obtain ⟨answer, reads⟩ := rtMemheapInit_reads P m
  obtain ⟨⟨tailNext, startPrev, startNext, tailPrev⟩, ⟨headNext, startPrevFree, startNextFree,
    headPrev⟩, ⟨startMark, tailMark, startPool⟩, freeList, poolSize, available, maxUsed⟩ :=
    reads _ rfl
  have room := P.room_poolSize
  have spare : spares (initial P).blocks = P.poolSize - 48 := rfl
  obtain ⟨hs, -, st⟩ := distinct P
  refine ⟨_, Prod.ext answer rfl,
    ⟨⟨?_, ?_⟩, ⟨?_, ?_⟩, ?_, tailMark, ?_, freeList, poolSize⟩, ?_, ?_, ?_⟩
  · change [P.tail, P.start].Nodup
    simp [st.symm]
  · exact List.isChain_cons_cons.mpr ⟨⟨tailNext, startPrev⟩, List.isChain_pair.mpr
      ⟨startNext, tailPrev⟩⟩
  · change [freeHeader P.heap, P.start].Nodup
    simp [hs]
  · exact List.isChain_cons_cons.mpr ⟨⟨headNext, startPrevFree⟩, List.isChain_pair.mpr
      ⟨startNextFree, headPrev⟩⟩
  · intro b member
    rw [List.mem_singleton.mp member]
    exact startMark
  · intro b member
    rw [List.mem_singleton.mp member]
    exact startPool
  · rw [available, spare]
  · rw [maxUsed, spare]
    omega
  · rw [maxUsed]
    omega

end T113Boot.Heap.Setup
