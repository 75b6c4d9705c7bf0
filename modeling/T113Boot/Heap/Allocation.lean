/- Module: T113Boot/Heap/Allocation
   layer: specification
   digest: rt_memheap_alloc takes the first free block that is large enough, or nothing. -/

import Mathlib.Data.List.Perm.Subperm
import T113Boot.Heap.Rows
import T113Boot.Lib.Rounding

set_option autoImplicit false
set_option relaxedAutoImplicit false

namespace T113Boot.Heap.Allocation

open T113Boot.Lib.Cells
open T113Boot.Lib.Rings
open T113Boot.Lib.Rounding
open T113Boot.Lib.Tilings
open T113Boot.Heap.Memheap
open T113Boot.Heap.Headers
open T113Boot.Heap.Links
open T113Boot.Heap.Threads
open T113Boot.Heap.Rows

variable {P : Pool} {m m' : Mem} {L L' : Layout P} {b : Block} {bs l l' : List Block}
  {order pre rest : List Nat} {size : Nat}

theorem rtAlign_eq {n : UInt32} (small : n.toNat ≤ 0xFFFFFFFC) :
    (rtAlign n rtAlignSize).toNat = (n.toNat + 3) / 4 * 4 := by
  have power : (4 : BitVec 32).toNat = 2 ^ 2 := rfl
  have whole := toNat_and_not_pred power (n.toBitVec + 4 - 1)
  have sum : (n.toBitVec + 4 - 1).toNat = n.toNat + 3 := by
    have size := UInt32.toNat_toBitVec n
    bv_omega
  rw [sum] at whole
  exact whole

theorem roundSize_eq {n : UInt32} (small : n.toNat ≤ 0xFFFFFFFC) :
    roundSize n = max 12 ((n.toNat + 3) / 4 * 4) := by
  unfold roundSize miniAlloc
  simp only [rtAlign_eq small]
  split <;> omega

theorem roundSize_least {n : UInt32} (small : n.toNat ≤ 0xFFFFFFFC) :
    roundSize n % 4 = 0 ∧ 12 ≤ roundSize n := by
  have size := roundSize_eq small
  omega

theorem search_eq (spells : Spells P m bs (pre ++ rest)) {turns freeSize : Nat}
    (enough : rest.length < turns) (short : freeSize < size) :
    ∃ x last, search m (freeHeader P.heap) size turns (rest.headD (freeHeader P.heap)) freeSize =
      some (x, last) ∧
      ((∃ front back, rest = front ++ x :: back ∧ last = memitemSize m x ∧ size ≤ last ∧
          ∀ a ∈ front, memitemSize m a < size) ∨
        last < size ∧ ∀ a ∈ rest, memitemSize m a < size) := by
  induction rest generalizing pre turns freeSize with
  | nil =>
    obtain ⟨turns, rfl⟩ := Nat.exists_eq_succ_of_ne_zero (Nat.ne_of_gt enough)
    refine ⟨freeHeader P.heap, freeSize, ?_, Or.inr ⟨short, by simp⟩⟩
    rw [List.headD_nil, search, if_neg fun more => more.1 rfl]
  | cons a rest ih =>
    obtain ⟨turns, rfl⟩ := Nat.exists_eq_succ_of_ne_zero (Nat.ne_of_gt (Nat.zero_lt_of_lt enough))
    rw [List.length_cons] at enough
    have nodup := spells.frees.nodup
    have other : a ≠ freeHeader P.heap := by grind
    rw [List.headD_cons, search, if_pos ⟨other, short⟩]
    by_cases large : memitemSize m a < size
    · have next : get m a .nextFree = rest.headD (freeHeader P.heap) :=
        Ring.next_eq (x := a) (s := freeHeader P.heap :: pre) (t := rest) spells.frees rfl
      rw [show pre ++ a :: rest = (pre ++ [a]) ++ rest by simp] at spells
      obtain ⟨x, last, ends, found⟩ := ih spells (Nat.lt_of_succ_lt_succ enough) large
      simp only [if_pos large]
      refine ⟨x, last, by rw [next, ends], ?_⟩
      rcases found with ⟨front, back, rfl, same, fits, before⟩ | ⟨last_lt, none⟩
      · exact Or.inl ⟨a :: front, back, rfl, same, fits, List.forall_mem_cons.mpr ⟨large, before⟩⟩
      · exact Or.inr ⟨last_lt, List.forall_mem_cons.mpr ⟨large, none⟩⟩
    · obtain ⟨turns, rfl⟩ := Nat.exists_eq_succ_of_ne_zero (n := turns) (by omega)
      simp only [if_neg large]
      refine ⟨a, memitemSize m a, ?_, Or.inl ⟨[], rest, rfl, rfl, by omega, by simp⟩⟩
      rw [search, if_neg fun more => large more.2]

theorem newPtr_eq {a : Nat} (small : a + 24 + size < 4294967296) :
    add32 (add32 a size) headerSize = a + 24 + size := by
  unfold headerSize
  rw [add32_eq (a := a) (by omega), add32_eq (by omega)]
  omega

/-- The row that a free block becomes where `size` bytes of it are taken. -/
def taken (b : Block) (size : Nat) : List Block :=
  if size + 36 ≤ b.size then
    [⟨b.addr, size, true⟩, ⟨b.addr + 24 + size, b.size - size - 24, false⟩]
  else [⟨b.addr, b.size, true⟩]

/-- What an allocation of `size` bytes answers, and what becomes of the memory. -/
inductive Allocated (m : Mem) (L : Layout P) (size : Nat) : Nat × Mem → Prop
  | served {l l' : List Block} {b : Block} {m' : Mem} {L' : Layout P}
      (row : L.blocks = l ++ b :: l') (free : b.used = false) (fits : size ≤ b.size)
      (enough : size < spares L.blocks)
      (first : ∃ front back, L.order = front ++ b.addr :: back ∧
        ∀ c ∈ L.blocks, c.addr ∈ front → c.size < size)
      (rep : Represents m' L') (row' : L'.blocks = l ++ (taken b size ++ l'))
      (kept : Kept L'.blocks m m')
      (peak : field m' P.heap .maxUsedSize =
        max (field m P.heap .maxUsedSize) (P.poolSize - spares L'.blocks)) :
      Allocated m L size (b.ptr, m')
  | refused (none : spares L.blocks ≤ size ∨ ∀ b ∈ L.blocks, b.used = false → b.size < size) :
      Allocated m L size (0, m)

/-- What is done with a block that is broken down. -/
def breakOff (m : Mem) (heap headerPtr size : Nat) : Mem :=
  let newPtr := add32 (add32 headerPtr size) headerSize
  let m := newItem m heap newPtr
  let m := breakDown m headerPtr newPtr
  let m := clearFree (removeFree m headerPtr) headerPtr
  let m := insertFree m heap newPtr
  charge m heap (sub32 (sub32 (field m heap .availableSize) size) headerSize)

/-- What is done with a block that is taken whole. -/
def takeWhole (m : Mem) (heap headerPtr freeSize : Nat) : Mem :=
  let m := charge m heap (sub32 (field m heap .availableSize) freeSize)
  clearFree (removeFree m headerPtr) headerPtr

section Taking

variable (rep : Represents m L) (row : L.blocks = l ++ b :: l') (free : b.used = false)

include rep row free

theorem takeWhole_serves : ∃ L' : Layout P,
    Represents (set (takeWhole m P.heap b.addr b.size) b.addr .magic magicUsed) L' ∧
      L'.blocks = l ++ ⟨b.addr, b.size, true⟩ :: l' ∧
      Kept L'.blocks m (set (takeWhole m P.heap b.addr b.size) b.addr .magic magicUsed) ∧
      field (set (takeWhole m P.heap b.addr b.size) b.addr .magic magicUsed) P.heap .maxUsedSize =
        max (field m P.heap .maxUsedSize) (P.poolSize - spares L'.blocks) := by
  have member : b ∈ L.blocks := by simp [row]
  have listed : b.addr ∈ L.order := (L.listed _).mpr ⟨b, member, free, rfl⟩
  obtain ⟨pre, post, split⟩ := List.append_of_mem listed
  have distinct := L.nodup
  have merged := L.coalesced
  have spells := rep.spells
  have available := rep.available
  have inside := Fills.spares_le L.fills
  have tail := P.tail_add
  rw [split] at distinct
  rw [row, coalesced_middle] at merged
  rw [row, split] at spells
  obtain ⟨front, back, before, behind⟩ := merged
  let L' : Layout P := L.replace (s := [b]) (t := [⟨b.addr, b.size, true⟩])
    (o := pre ++ post) row (fun lo hi tiles => tiles)
    (fun c here => by
      rw [List.mem_singleton.mp here]
      exact L.shaped b member)
    (coalesced_middle.mpr ⟨front, back, by simp, by simp⟩) (by grind)
    (fun a => by
      rw [mem_without distinct, ← split]
      simp)
  have sum : spares L.blocks = spares L'.blocks + b.size := by
    have old : spares L.blocks = spares l + (b.size + spares l') := by
      rw [row, spares_middle, Block.spare, free]
      rfl
    have new : spares L'.blocks = spares l + (0 + spares l') := spares_middle
    omega
  have covers {o : List Nat} (listed : ∀ a ∈ o, a ∈ L.order) :
      Covers L'.fills.grid (l ++ b :: l') o :=
    L.covers_before (s := [b]) (t := [⟨b.addr, b.size, true⟩]) row rfl (by simp) listed
  have whole := covers fun a there => split ▸ there
  have less := covers (o := pre ++ post) fun a there => by rw [split]; grind
  have left : sub32 (field m P.heap .availableSize) b.size = spares L'.blocks := by
    have top := P.stop_le
    rw [available, sub32_eq (by omega) (by omega)]
    omega
  have room : spares L'.blocks ≤ P.poolSize := by
    unfold Pool.tail at inside
    omega
  have new : b.addr ∉ freeHeader P.heap :: (pre ++ post) := by
    have nodup := spells.frees.nodup
    grind
  have charged := (Reached.start spells).charge whole room
  have removed := charged.step (charged.spells.removeFree whole)
  have node : L'.fills.grid.node b.addr := whole.order _ (by simp)
  have cleared := removed.step (removed.spells.clearFree less node new)
  have marked := cleared.step
    (cleared.spells.mark (c := ⟨b.addr, b.size, true⟩) less rfl)
  have same : takeWhole m P.heap b.addr b.size = Memheap.clearFree (Memheap.removeFree
      (Memheap.charge m P.heap (spares L'.blocks)) b.addr) b.addr := by
    rw [takeWhole, left]
  rw [same]
  have capped := rep.capped
  refine ⟨L', marked.represents rfl ?_ ?_, rfl, marked.kept, marked.maxUsed_eq⟩ <;> omega

omit rep in
private theorem exists_broken (split : L.order = pre ++ b.addr :: rest) (words : size % 4 = 0)
    (least : 12 ≤ size) (room : size + 36 ≤ b.size) :
    ∃ L' : Layout P, L'.blocks = l ++ ⟨b.addr, size, true⟩ ::
        ⟨b.addr + 24 + size, b.size - size - 24, false⟩ :: l' ∧
      L'.order = (b.addr + 24 + size) :: (pre ++ rest) := by
  have member : b ∈ L.blocks := by simp [row]
  have shaped := L.shaped b member
  have distinct := L.nodup
  have merged := L.coalesced
  rw [split] at distinct
  rw [row] at merged
  obtain ⟨front, back, -, -⟩ := coalesced_middle.mp merged
  obtain ⟨-, -, fresh⟩ := Fills.no_header L.fills member (a := b.addr + 24 + size) (by omega)
    (by unfold Block.stop; omega)
  have unlisted : b.addr + 24 + size ∉ L.order := by
    intro there
    obtain ⟨c, here, -, same⟩ := (L.listed _).mp there
    exact fresh c here same
  let n : Block := ⟨b.addr + 24 + size, b.size - size - 24, false⟩
  refine ⟨L.replace (s := [b]) (t := [⟨b.addr, size, true⟩, n]) (o := n.addr :: (pre ++ rest)) row
    ?_ ?_ ?_ ?_ fun a => ?_, rfl, rfl⟩
  · rintro lo hi ⟨start, stop⟩
    refine ⟨start, rfl, ?_⟩
    change b.addr + 24 + size + 24 + (b.size - size - 24) = hi
    have : b.addr + 24 + b.size = hi := stop
    omega
  · intro c here
    simp only [List.mem_cons, List.not_mem_nil, or_false] at here
    rcases here with rfl | rfl
    · exact ⟨shaped.1, words, least⟩
    · refine ⟨?_, ?_, ?_⟩ <;> simp only [n] <;> omega
  · have last := merged.used_behind free
    exact coalesced_middle.mpr ⟨front,
      List.isChain_cons.mpr ⟨fun c first => Or.inr (last c first), back⟩, by simp, by simp⟩
  · grind
  · rw [List.mem_cons, mem_without distinct, ← split]
    simp only [List.mem_cons, List.not_mem_nil, or_false, List.map_cons, List.map_nil,
      or_and_right, exists_or, exists_eq_left]
    grind

theorem breakOff_serves (words : size % 4 = 0) (least : 12 ≤ size) (room : size + 36 ≤ b.size) :
    ∃ L' : Layout P, Represents (set (breakOff m P.heap b.addr size) b.addr .magic magicUsed) L' ∧
      L'.blocks = l ++ ⟨b.addr, size, true⟩ ::
        ⟨b.addr + 24 + size, b.size - size - 24, false⟩ :: l' ∧
      Kept L'.blocks m (set (breakOff m P.heap b.addr size) b.addr .magic magicUsed) ∧
      field (set (breakOff m P.heap b.addr size) b.addr .magic magicUsed) P.heap .maxUsedSize =
        max (field m P.heap .maxUsedSize) (P.poolSize - spares L'.blocks) := by
  have member : b ∈ L.blocks := by simp [row]
  have listed : b.addr ∈ L.order := (L.listed _).mpr ⟨b, member, free, rfl⟩
  obtain ⟨pre, post, split⟩ := List.append_of_mem listed
  have spells : Spells P m (l ++ b :: l') (pre ++ b.addr :: post) := row ▸ split ▸ rep.spells
  have fills : Fills P (l ++ b :: l') := row ▸ L.fills
  have inside := Fills.spares_le L.fills
  have within := L.fills.inside member
  have tail := P.tail_add
  have top := P.stop_le
  have capped := rep.capped
  let c : Block := ⟨b.addr, size, false⟩
  let n : Block := ⟨b.addr + 24 + size, b.size - size - 24, false⟩
  obtain ⟨L', blocks, order⟩ := exists_broken row free split words least room
  have sum : spares L.blocks = spares L'.blocks + size + 24 := by
    rw [row, blocks, spares_middle, spares_middle, spares_cons]
    simp only [Block.spare, free, if_true]
    simp only [Bool.false_eq_true, if_false]
    omega
  have left : sub32 (sub32 (spares L.blocks) size) headerSize = spares L'.blocks := by
    unfold headerSize
    rw [sub32_eq (a := spares L.blocks) (by omega) (by omega), sub32_eq (by omega) (by omega)]
    omega
  have fits : spares L'.blocks ≤ P.poolSize := by
    unfold Pool.tail at inside
    omega
  have place : add32 (add32 b.addr size) headerSize = n.addr := by
    unfold Block.stop at within
    exact newPtr_eq (by omega)
  obtain ⟨fills', covers, new, cut⟩ := Reached.cut (c := c) (n := n) spells fills
    (fun a there => mem_addrs row (split ▸ there)) (by omega) (by rw [free]) rfl
  have removed := cut.step (cut.spells.removeFree covers)
  have gone : b.addr ∉ freeHeader P.heap :: (pre ++ post) := by
    have nodup := spells.frees.nodup
    grind
  have cleared := removed.step
    (removed.spells.clearFree covers.remove (covers.blocks c (by simp)) gone)
  have node : fills'.grid.node n.addr := covers.blocks n (by simp)
  have less : (pre ++ post).Sublist (pre ++ b.addr :: post) :=
    (List.sublist_cons_self _ _).append_left _
  have inserted := cleared.step (cleared.spells.insertFree covers.remove node fun there =>
    new ((less.cons_cons _).subset there))
  have charged := inserted.charge (covers.remove.cons node) fits
  have marked := charged.step
    (charged.spells.mark (c := ⟨b.addr, size, true⟩) (covers.remove.cons node) rfl)
  have same : breakOff m P.heap b.addr size = Memheap.charge (Memheap.insertFree
      (Memheap.clearFree (Memheap.removeFree (Memheap.breakDown (newItem m P.heap n.addr)
        b.addr n.addr) b.addr) b.addr) P.heap n.addr) P.heap (spares L'.blocks) := by
    unfold breakOff
    simp only [place]
    rw [inserted.available_eq, rep.available, left]
  have reached := marked
  have order' : L'.order = n.addr :: (pre ++ post) := order
  rw [← blocks, ← order'] at reached
  rw [same]
  refine ⟨L', reached.represents rfl ?_ ?_, blocks, fun d there => ?_, marked.maxUsed_eq⟩
  · omega
  · omega
  · rw [blocks] at there
    rcases List.mem_append.mp there with front | back
    · exact marked.kept d (by simp [front])
    rcases List.mem_cons.mp back with rfl | back
    · exact marked.kept c (by simp)
    · exact marked.kept d (by simp [n, back])

end Taking

/-- What is made of the block at which a search ends. -/
def allocFound (m : Mem) (heap size : Nat) (found : Nat × Nat) : Nat × Mem :=
  if found.2 ≥ size then
    (add32 found.1 headerSize,
      set (if found.2 ≥ add32 (add32 size headerSize) miniAlloc then breakOff m heap found.1 size
        else takeWhole m heap found.1 found.2) found.1 .magic magicUsed)
  else (0, m)

theorem rtMemheapAlloc_eq (m : Mem) (heap : Nat) (n : UInt32) : rtMemheapAlloc m heap n =
    if heap = 0 then some (0, m)
    else if roundSize n < field m heap .availableSize then
      (search m (field m heap .freeList) (roundSize n) (searchTurns m heap)
        (get m (field m heap .freeList) .nextFree) 0).map (allocFound m heap (roundSize n))
    else some (0, m) := rfl

theorem rtMemheapAlloc_outcome (rep : Represents m L) {n : UInt32} (small : n.toNat ≤ 0xFFFFFFFC) :
    ∃ r, rtMemheapAlloc m P.heap n = some r ∧ Allocated m L (roundSize n) r := by
  have spells := rep.spells
  have size := roundSize_eq small
  have whole := Fills.spares_le L.fills
  have top := P.stop_le
  have tail := P.tail_add
  by_cases enough : roundSize n < spares L.blocks
  · have length : L.order.length < searchTurns m P.heap := by
      have shorter : L.order.length ≤ (L.blocks.map Block.addr).length := by
        refine (List.subperm_of_subset L.nodup fun a there => ?_).length_le
        obtain ⟨b, member, -, rfl⟩ := (L.listed a).mp there
        exact List.mem_map_of_mem member
      rw [List.length_map] at shorter
      rw [searchTurns, spells.poolSize]
      unfold Pool.tail at whole
      omega
    have list : Spells P m L.blocks ([] ++ L.order) := spells
    have short : 0 < roundSize n := by omega
    obtain ⟨x, last, ends, found⟩ := search_eq list length short
    have start : get m (freeHeader P.heap) .nextFree = L.order.headD (freeHeader P.heap) :=
      Ring.next_eq (s := []) (x := freeHeader P.heap) (t := L.order) spells.frees rfl
    rw [rtMemheapAlloc_eq, if_neg P.nonnull, rep.available, if_pos enough, spells.freeList, start,
      ends, Option.map_some]
    refine ⟨_, rfl, ?_⟩
    unfold allocFound
    rcases found with ⟨front, back, split, same, fits, before⟩ | ⟨last_lt, none⟩
    · obtain ⟨b, member, free, rfl⟩ := (L.listed x).mp (by rw [split]; simp)
      obtain ⟨l, l', row⟩ := List.append_of_mem member
      rw [memitemSize_eq spells L.fills member] at same
      subst same
      have inside := L.fills.inside member
      have least := roundSize_least small
      unfold Block.stop at inside
      have wide : add32 (add32 (roundSize n) headerSize) miniAlloc = roundSize n + 36 := by
        unfold headerSize miniAlloc
        rw [add32_eq (a := roundSize n) (by omega), add32_eq (by omega)]
      have place : add32 b.addr headerSize = b.ptr := add32_eq (by unfold headerSize; omega)
      have first : ∃ front back, L.order = front ++ b.addr :: back ∧
          ∀ c ∈ L.blocks, c.addr ∈ front → c.size < roundSize n := by
        refine ⟨front, back, split, fun c there listed => ?_⟩
        have short := before c.addr listed
        rwa [memitemSize_eq spells L.fills there] at short
      simp only [if_pos fits, wide, place]
      by_cases room : roundSize n + 36 ≤ b.size
      · obtain ⟨L', rep', row', kept, peak⟩ := breakOff_serves rep row free least.1 least.2 room
        rw [if_pos room]
        refine .served row free fits enough first rep' ?_ kept peak
        rw [row', taken, if_pos room]
        rfl
      · obtain ⟨L', rep', row', kept, peak⟩ := takeWhole_serves rep row free
        rw [if_neg room]
        refine .served row free fits enough first rep' ?_ kept peak
        rw [row', taken, if_neg room]
        rfl
    · rw [if_neg (Nat.not_le.mpr last_lt)]
      refine .refused (Or.inr fun b member free => ?_)
      have short := none b.addr ((L.listed _).mpr ⟨b, member, free, rfl⟩)
      rwa [memitemSize_eq spells L.fills member] at short
  · refine ⟨(0, m), ?_, .refused (Or.inl (Nat.not_lt.mp enough))⟩
    rw [rtMemheapAlloc_eq, if_neg P.nonnull, rep.available, if_neg enough]

theorem Allocated.exchanged {r : Nat × Mem} (allocated : Allocated m L size r) :
    (r = (0, m) ∧ (spares L.blocks ≤ size ∨ ∀ b ∈ L.blocks, b.used = false → b.size < size)) ∨
      ∃ c L', r.1 = c.ptr ∧ size ≤ c.size ∧ Exchanged m r.2 L L' none (some c) := by
  cases allocated with
  | refused none => exact Or.inl ⟨rfl, none⟩
  | @served l l' b m' L' row free fits _ _ rep row' kept peak =>
    obtain ⟨c, made, addr, large, here⟩ : ∃ c, c.used = true ∧ c.ptr = b.ptr ∧ size ≤ c.size ∧
        ∀ d, d ∈ taken b size ∧ d.used = true ↔ d = c := by
      unfold taken
      split
      next =>
        refine ⟨⟨b.addr, size, true⟩, rfl, rfl, Nat.le_refl _, fun d => ?_⟩
        simp only [List.mem_cons, List.not_mem_nil, or_false]
        grind
      next =>
        refine ⟨⟨b.addr, b.size, true⟩, rfl, rfl, fits, fun d => ?_⟩
        simp only [List.mem_singleton]
        grind
    have held (d : Block) : d ∈ L'.blocks ∧ d.used = true ↔
        d ∈ some c ∨ d ∈ L.blocks ∧ d.used = true ∧ d ∉ (none : Option Block) := by
      have new := here d
      rw [row, row']
      simp only [List.mem_append, List.mem_cons, Option.mem_some, Option.not_mem_none,
        not_false_eq_true, and_true]
      grind
    have fresh (d : Block) (member : d ∈ L.blocks) (used : d.used = true) : d ∉ some c := by
      have there : b ∈ L.blocks := by simp [row]
      refine fresh_at there (Nat.add_right_cancel addr) d member fun same => ?_
      obtain rfl : b = d := Option.some.inj same
      rw [free] at used
      cases used
    refine Or.inr ⟨c, L', addr.symm, large, rep, held, fun d member used _ => fresh d member used,
      fun d member used _ => ?_, ?_⟩
    · have there := (held d).mpr (Or.inr ⟨member, used, by simp⟩)
      exact kept d there.1
    · rw [peak]
      exact Nat.le_max_left _ _

end T113Boot.Heap.Allocation
