/- Module: T113Boot/Heap/Sessions
   layer: results
   digest: What holds of the heap after any calls that its clients may make. -/

import Mathlib.Algebra.Order.BigOperators.Group.List
import Mathlib.Algebra.Order.Group.Nat
import T113Boot.Heap.Buffers

set_option autoImplicit false
set_option relaxedAutoImplicit false

namespace T113Boot.Heap.Sessions

open T113Boot.Lib.Cells
open T113Boot.Lib.Runs
open T113Boot.Lib.Tilings
open T113Boot.Heap.Memheap
open T113Boot.Heap.Headers
open T113Boot.Heap.Threads
open T113Boot.Heap.Rows
open T113Boot.Heap.Allocation
open T113Boot.Heap.Setup
open T113Boot.Heap.Buffers

variable {P : Pool} {m : Mem} {L : Layout P} {calls : List Call} {s : Session}

/-- The calls are permitted, each at its moment. -/
def Fair (P : Pool) (m : Mem) (calls : List Call) : Prop :=
  Along (step P.heap) (fun s c => Permitted s.buffers c) (start P m) calls

/-- The heap and its client agree about the blocks. -/
def Agreed (P : Pool) (s : Session) : Prop := ∃ L : Layout P, Owned s.mem L s.buffers

instance (P : Pool) (m : Mem) (calls : List Call) : Decidable (Fair P m calls) :=
  inferInstanceAs (Decidable (Along _ _ _ _))

theorem throughout_agreed (fair : Fair P m calls) :
    Throughout (step P.heap) (Agreed P) (start P m) calls := by
  refine throughout_of_along (fun {s c} agreed permitted => ?_) ⟨initial P, start_owned P m⟩ fair
  obtain ⟨L, owned⟩ := agreed
  obtain ⟨ptr, m', L', answered, owned', -⟩ := call_serves owned permitted
  refine ⟨⟨m', next s.buffers c ptr⟩, ?_, L', owned'⟩
  rw [step, answered]
  rfl

theorem throughout_intact (fair : Fair P m calls) :
    Throughout (step P.heap) (Intact P) (start P m) calls :=
  (throughout_agreed fair).imp fun _ ⟨_, owned⟩ => owned.intact

/-- A pool of 256 bytes. -/
def tinyPool : Pool where
  heap := 64
  start := 128
  size := 256
  nonnull := by decide
  aligned := by decide
  room := by decide
  fits := by decide
  heapFits := by decide
  apart := by decide

/-- Two buffers; the one that grows moves behind the other, and leaves a gap. -/
def busyCalls : List Call :=
  [.alloc 10, .alloc 20, .write 152 3 7, .realloc 152 40, .write 188 1 9, .write 232 4 5]

theorem busyCalls_fair : Fair tinyPool (fun _ => 0) busyCalls := by decide +kernel

theorem busyCalls_runs : ∃ s, run (step tinyPool.heap) (start tinyPool fun _ => 0) busyCalls =
    some s ∧ s.buffers.map Buffer.ptr = [232, 188] :=
  Option.map_eq_some_iff.mp
    (show (run (step tinyPool.heap) (start tinyPool fun _ => 0) busyCalls).map
      (fun s => s.buffers.map Buffer.ptr) = some [232, 188] by decide +kernel)

theorem busyCalls_intact : Throughout (step tinyPool.heap) (Intact tinyPool)
    (start tinyPool fun _ => 0) busyCalls :=
  throughout_intact busyCalls_fair

theorem agreed_of_run (fair : Fair P m calls)
    (reached : run (step P.heap) (start P m) calls = some s) :
    Agreed P s := by
  obtain ⟨s', again, agreed⟩ := throughout_agreed fair calls.length
  rw [List.take_length] at again
  cases reached.symm.trans again
  exact agreed

/-- An allocation is refused exactly if no more is available in all than is asked for, or no free
block is large enough; so one that would take the last free byte is refused, too. Any other is
served from the first block of the free list that is large enough. -/
def FirstFit (m : Mem) (L : Layout P) : Prop :=
  ∀ n : UInt32, n.toNat ≤ 0xFFFFFFFC → ∃ ptr m', rtMemheapAlloc m P.heap n = some (ptr, m') ∧
    (ptr = 0 ↔ spares L.blocks ≤ roundSize n ∨
      ∀ b ∈ L.blocks, b.used = false → b.size < roundSize n) ∧
    (ptr ≠ 0 → ∃ b ∈ L.blocks, ∃ front back, L.order = front ++ b.addr :: back ∧
      ptr = b.ptr ∧ roundSize n ≤ b.size ∧
      ∀ c ∈ L.blocks, c.addr ∈ front → c.size < roundSize n)

theorem alloc_first_fit (fair : Fair P m calls)
    (reached : run (step P.heap) (start P m) calls = some s) :
    ∃ L : Layout P, Owned s.mem L s.buffers ∧ FirstFit s.mem L := by
  obtain ⟨L, owned⟩ := agreed_of_run fair reached
  refine ⟨L, owned, fun n small => ?_⟩
  obtain ⟨r, answered, allocated⟩ := rtMemheapAlloc_outcome owned.rep small
  cases allocated with
  | refused none =>
    exact ⟨0, s.mem, answered, iff_of_true rfl none, fun nonzero => absurd rfl nonzero⟩
  | @served _ _ b m' _ row free fits enough first =>
    have member : b ∈ L.blocks := by simp [row]
    refine ⟨b.ptr, m', answered, iff_of_false ?_ ?_, fun _ => ?_⟩
    · unfold Block.ptr
      omega
    · rintro (less | short)
      · omega
      · have small := short b member free
        omega
    · obtain ⟨front, back, split, before⟩ := first
      exact ⟨b, member, front, back, split, rfl, fits, before⟩

theorem busyCalls_first_fit : ∃ s, run (step tinyPool.heap) (start tinyPool fun _ => 0) busyCalls =
    some s ∧ s.buffers.map Buffer.ptr = [232, 188] ∧
      ∃ L : Layout tinyPool, Owned s.mem L s.buffers ∧ FirstFit s.mem L := by
  obtain ⟨s, reached, held⟩ := busyCalls_runs
  exact ⟨s, reached, held, alloc_first_fit busyCalls_fair reached⟩

theorem blocks_of_unused (unused : ∀ b ∈ L.blocks, b.used = false) :
    L.blocks = (initial P).blocks := by
  have tiles : Tiles Block.addr Block.stop P.start L.blocks P.tail := L.fills
  have merged := L.coalesced
  have room := P.room_poolSize
  have tail : P.tail = P.start + P.poolSize - 24 := rfl
  rcases row : L.blocks with _ | ⟨b, rest⟩
  · rw [row] at tiles
    have whole : P.start = P.tail := tiles
    omega
  · have free := unused b (by simp [row])
    rw [row] at tiles merged
    cases rest with
    | nil =>
      obtain ⟨first, last⟩ := tiles
      have stop : b.addr + 24 + b.size = P.tail := last
      have addr : b.addr = P.start := first
      have size : b.size = P.poolSize - 48 := by omega
      rw [show b = ⟨b.addr, b.size, b.used⟩ from rfl, addr, size, free]
      rfl
    | cons c rest =>
      have free' := unused c (by simp [row])
      have either := (List.isChain_cons_cons.mp merged).1
      rw [free, free'] at either
      simp at either

/-- Once a client has freed all it had, the pool is one free block again, whatever it has done: no
byte is lost, and nothing stays cut up. -/
theorem whole_pool_returns (fair : Fair P m calls)
    (reached : run (step P.heap) (start P m) calls = some s) (none : s.buffers = []) :
    (rtMemheapInfo s.mem P.heap).2.1 = 48 ∧ ∀ n : UInt32, n.toNat ≤ 0xFFFFFFFC →
      (roundSize n < P.poolSize - 48 ↔ ∃ m', rtMemheapAlloc s.mem P.heap n =
        some (P.start + 24, m')) := by
  obtain ⟨L, owned⟩ := agreed_of_run fair reached
  have unused (b : Block) (member : b ∈ L.blocks) : b.used = false := by
    rcases used : b.used with _ | _
    · rfl
    · obtain ⟨c, here, -⟩ := owned.owner b member used
      rw [none] at here
      cases here
  have blocks := blocks_of_unused unused
  have spare : spares L.blocks = P.poolSize - 48 := by
    rw [blocks]
    rfl
  have room := P.room_poolSize
  have small : P.poolSize < 4294967296 := Nat.lt_of_le_of_lt P.poolSize_le P.size.toNat_lt
  constructor
  · rw [rtMemheapInfo, owned.rep.spells.poolSize, owned.rep.available, spare, sub32_eq (by omega) small]
    simp only
    omega
  · intro n fits
    obtain ⟨r, answered, allocated⟩ := rtMemheapAlloc_outcome owned.rep fits
    rw [answered]
    cases allocated with
    | refused none =>
      rw [blocks] at none
      refine iff_of_false (fun less => ?_) ?_
      · rcases none with less' | short
        · rw [← blocks, spare] at less'
          omega
        · have small' := short _ List.mem_cons_self rfl
          simp only at small'
          omega
      · rintro ⟨m', same⟩
        have ptr := congrArg Prod.fst (Option.some.inj same)
        simp only at ptr
        omega
    | @served l l' b m' _ row _ _ enough =>
      rw [spare] at enough
      refine iff_of_true enough ⟨m', ?_⟩
      have member : b ∈ L.blocks := by simp [row]
      rw [blocks] at member
      rw [List.mem_singleton.mp member]
      rfl

/-- The same, and then both are freed. -/
def freedCalls : List Call := busyCalls ++ [.free 188, .realloc 232 50, .free 232]

theorem freedCalls_fair : Fair tinyPool (fun _ => 0) freedCalls := by decide +kernel

theorem freedCalls_return : ∃ s, run (step tinyPool.heap) (start tinyPool fun _ => 0) freedCalls =
    some s ∧ (rtMemheapInfo s.mem tinyPool.heap).2.1 = 48 ∧ ∀ n : UInt32, n.toNat ≤ 0xFFFFFFFC →
      (roundSize n < tinyPool.poolSize - 48 ↔ ∃ m', rtMemheapAlloc s.mem tinyPool.heap n =
        some (tinyPool.start + 24, m')) := by
  have ends : (run (step tinyPool.heap) (start tinyPool fun _ => 0) freedCalls).map
      (fun s => s.buffers.isEmpty) = some true := by decide +kernel
  obtain ⟨s, reached, empty⟩ := Option.map_eq_some_iff.mp ends
  exact ⟨s, reached, whole_pool_returns freedCalls_fair reached (List.isEmpty_iff.mp empty)⟩

/-- Used blocks with their headers, and free bytes, are part of all blocks. -/
theorem used_and_spares (bs : List Block) :
    ((bs.filter Block.used).map fun b => b.size + 24).sum + spares bs ≤
      (bs.map fun b => b.size + 24).sum := by
  induction bs with
  | nil => exact Nat.le_refl _
  | cons b bs ih =>
    have inner : spares (b :: bs) = Block.spare b + spares bs := by simp [spares]
    rcases used : b.used with _ | _
    · rw [List.filter_cons_of_neg (by simp [used]), inner, List.map_cons, List.sum_cons, Block.spare,
        used]
      simp only [Bool.false_eq_true, if_false]
      omega
    · rw [List.filter_cons_of_pos used, inner, List.map_cons, List.map_cons, List.sum_cons,
        List.sum_cons, Block.spare, used]
      simp only [if_true]
      omega

theorem sum_blocks {bs : List Block} {lo : Nat}
    (tiles : Tiles Block.addr Block.stop lo bs P.tail) :
    lo + (bs.map fun b => b.size + 24).sum = P.tail := by
  induction bs generalizing lo with
  | nil => exact tiles
  | cons b bs ih =>
    have behind := ih tiles.2
    have first : b.addr = lo := tiles.1
    unfold Block.stop at behind
    rw [List.map_cons, List.sum_cons]
    omega

theorem sum_buffers {buffers : List Buffer} (owned : Owned m L buffers) :
    (buffers.map fun b => b.bytes.length + 24).sum ≤
      ((L.blocks.filter Block.used).map fun b => b.size + 24).sum := by
  let sizeAt (ptr : Nat) : Nat := ((L.blocks.find? fun c => c.ptr = ptr).map Block.size).getD 0
  have sizeAt_eq (c : Block) (member : c ∈ L.blocks) : sizeAt c.ptr = c.size := by
    have found : L.blocks.find? (fun d => d.ptr = c.ptr) = some c := by
      obtain ⟨d, found⟩ := Option.isSome_iff_exists.mp
        ((List.find?_isSome (p := fun d : Block => decide (d.ptr = c.ptr))).mpr
          ⟨c, member, decide_eq_true rfl⟩)
      have same : d.ptr = c.ptr :=
        of_decide_eq_true (List.find?_some (p := fun d : Block => decide (d.ptr = c.ptr)) found)
      rw [found, ptr_inj (List.mem_of_find?_eq_some found) member same]
    unfold sizeAt
    rw [found]
    rfl
  have ptrs : (buffers.map Buffer.ptr).Perm ((L.blocks.filter Block.used).map Block.ptr) := by
    have nodup : (L.blocks.map Block.ptr).Nodup := by
      refine List.Nodup.map_on (fun c first d second same => ptr_inj first second same) ?_
      exact List.Nodup.of_map _ (Fills.nodup L.fills)
    refine (List.perm_ext_iff_of_nodup owned.nodup
      (nodup.sublist (List.filter_sublist.map _))).mpr fun ptr => ?_
    constructor
    · intro there
      obtain ⟨b, member, rfl⟩ := List.mem_map.mp there
      obtain ⟨c, inside, used, same, -⟩ := owned.has b member
      exact List.mem_map.mpr ⟨c, List.mem_filter.mpr ⟨inside, used⟩, same⟩
    · intro there
      obtain ⟨c, member, rfl⟩ := List.mem_map.mp there
      obtain ⟨inside, used⟩ := List.mem_filter.mp member
      obtain ⟨b, here, same⟩ := owned.owner c inside used
      exact List.mem_map.mpr ⟨b, here, same⟩
  calc (buffers.map fun b => b.bytes.length + 24).sum
      ≤ (buffers.map fun b => sizeAt b.ptr + 24).sum := by
        refine List.sum_le_sum fun b member => ?_
        obtain ⟨c, there, -, same, fits⟩ := owned.has b member
        rw [← same, sizeAt_eq c there]
        omega
    _ = ((buffers.map Buffer.ptr).map fun ptr => sizeAt ptr + 24).sum := by rw [List.map_map]; rfl
    _ = (((L.blocks.filter Block.used).map Block.ptr).map fun ptr => sizeAt ptr + 24).sum :=
        (ptrs.map _).sum_eq
    _ = ((L.blocks.filter Block.used).map fun b => b.size + 24).sum := by
        rw [List.map_map]
        refine congrArg List.sum (List.map_congr_left fun b member => ?_)
        exact congrArg (· + 24) (sizeAt_eq b (List.mem_of_mem_filter member))

theorem Owned.used_eq {buffers : List Buffer} (owned : Owned m L buffers) :
    (rtMemheapInfo m P.heap).2.1 = P.poolSize - spares L.blocks := by
  have sum := Fills.spares_le L.fills
  have tail := P.tail_add
  have small : P.poolSize < 4294967296 := Nat.lt_of_le_of_lt P.poolSize_le P.size.toNat_lt
  unfold Pool.stop at tail
  rw [rtMemheapInfo, owned.rep.spells.poolSize, owned.rep.available, sub32_eq (by omega) small]

theorem peak_of_run {s' : Session} (agreed : Agreed P s)
    (fair : Along (step P.heap) (fun s c => Permitted s.buffers c) s calls)
    (reached : run (step P.heap) s calls = some s') :
    field s.mem P.heap .maxUsedSize ≤ field s'.mem P.heap .maxUsedSize := by
  refine (run_invariant_along
    (fun t => Agreed P t ∧ field s.mem P.heap .maxUsedSize ≤ field t.mem P.heap .maxUsedSize)
    (fun {t t' c} inv permitted stepped => ?_) ⟨agreed, Nat.le_refl _⟩ fair reached).2
  obtain ⟨⟨L, owned⟩, less⟩ := inv
  obtain ⟨ptr, m', L', answered, owned', peak⟩ := call_serves owned permitted
  rw [step, answered] at stepped
  cases stepped
  exact ⟨⟨L', owned'⟩, Nat.le_trans less peak⟩

/-- `rt_memheap_info` at two moments: the total is the pool, what is used covers all buffers with
their headers, and the maximum is no less than what was used at any moment before. -/
theorem info_accounts (fair : Fair P m calls) {i j : Nat} (order : i ≤ j) :
    ∃ s s', run (step P.heap) (start P m) (calls.take i) = some s ∧
      run (step P.heap) (start P m) (calls.take j) = some s' ∧
      (rtMemheapInfo s'.mem P.heap).1 = P.poolSize ∧
      (s'.buffers.map fun b => b.bytes.length + 24).sum + 24 ≤ (rtMemheapInfo s'.mem P.heap).2.1 ∧
      (rtMemheapInfo s.mem P.heap).2.1 ≤ (rtMemheapInfo s'.mem P.heap).2.2 ∧
      (rtMemheapInfo s'.mem P.heap).2.2 ≤ P.poolSize := by
  obtain ⟨s, early, agreed⟩ := throughout_agreed fair i
  obtain ⟨s', late, L', owned'⟩ := throughout_agreed fair j
  have parts : calls.take j = calls.take i ++ (calls.take j).drop i := by
    have cut := (List.take_append_drop i (calls.take j)).symm
    rwa [List.take_take, Nat.min_eq_left order] at cut
  have between : run (step P.heap) s ((calls.take j).drop i) = some s' := by
    rw [parts, run_append, early] at late
    exact late
  have along := (fair.take j).drop (n := i) (by
    rw [List.take_take, Nat.min_eq_left order]
    exact early)
  have peak := peak_of_run agreed along between
  obtain ⟨L, owned⟩ := agreed
  have most := owned.rep.maxUsed
  have held := sum_buffers owned'
  have split := used_and_spares L'.blocks
  have whole := sum_blocks L'.fills
  have tail := P.tail_add
  unfold Pool.stop at tail
  refine ⟨s, s', early, late, owned'.rep.spells.poolSize, ?_, ?_, owned'.rep.capped⟩
  · rw [Owned.used_eq owned']
    omega
  · rw [Owned.used_eq owned]
    have high : (rtMemheapInfo s'.mem P.heap).2.2 = field s'.mem P.heap .maxUsedSize := rfl
    omega

theorem busyCalls_accounts :
    ∃ s s', run (step tinyPool.heap) (start tinyPool fun _ => 0) (busyCalls.take 3) = some s ∧
      run (step tinyPool.heap) (start tinyPool fun _ => 0) (busyCalls.take 6) = some s' ∧
      (rtMemheapInfo s'.mem tinyPool.heap).1 = tinyPool.poolSize ∧
      (s'.buffers.map fun b => b.bytes.length + 24).sum + 24 ≤
        (rtMemheapInfo s'.mem tinyPool.heap).2.1 ∧
      (rtMemheapInfo s.mem tinyPool.heap).2.1 ≤ (rtMemheapInfo s'.mem tinyPool.heap).2.2 ∧
      (rtMemheapInfo s'.mem tinyPool.heap).2.2 ≤ tinyPool.poolSize :=
  info_accounts busyCalls_fair (by decide)

end T113Boot.Heap.Sessions
