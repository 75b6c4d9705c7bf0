/- Module: T113Boot/Heap/Resizing
   layer: specification
   digest: rt_memheap_realloc shrinks a block, grows it into the free one behind, or moves it. -/

import T113Boot.Heap.Allocation
import T113Boot.Heap.Release

set_option autoImplicit false
set_option relaxedAutoImplicit false

namespace T113Boot.Heap.Resizing

open T113Boot.Lib.Cells
open T113Boot.Lib.Moves
open T113Boot.Lib.Rings
open T113Boot.Lib.Tilings
open T113Boot.Heap.Memheap
open T113Boot.Heap.Headers
open T113Boot.Heap.Links
open T113Boot.Heap.Threads
open T113Boot.Heap.Rows
open T113Boot.Heap.Allocation
open T113Boot.Heap.Release

variable {P : Pool} {m m' : Mem} {L L' : Layout P} {b c : Block} {l l' : List Block}
  {size : Nat}

theorem rtMemcpy_eq (m : Mem) {dst src n : Nat} (small : src + n < 4294967296) :
    rtMemcpy m dst src n = store m dst (slice m src n) := by
  unfold rtMemcpy
  rw [add32_eq small]
  split
  next apart => exact copyUp_eq_apart m (by omega)
  next overlap => exact copyDown_eq m (by omega) n

/-- What is done where the block behind the broken off one is free. -/
def reclaim (m : Mem) (heap newPtr : Nat) : Mem :=
  if isUsed m (get m newPtr .next) then m
  else
    let freePtr := get m newPtr .next
    let m := setAvailable m heap (sub32 (field m heap .availableSize) (memitemSize m freePtr))
    removeFree (mergeNext m newPtr freePtr) freePtr

/-- The end of a block is broken off, and joined with the free block behind it. -/
def shrink (m : Mem) (heap headerPtr size : Nat) : Mem :=
  let newPtr := add32 (add32 headerPtr size) headerSize
  let m := newItem m heap newPtr
  let m := breakDown m headerPtr newPtr
  let m := reclaim m heap newPtr
  let m := insertFree m heap newPtr
  setAvailable m heap (add32 (field m heap .availableSize) (memitemSize m newPtr))

section Shrinking

variable {G : Grid P} {m₀ : Mem} {x : Block} {order : List Nat} {available maxUsed : Nat}

theorem reclaim_joins (pending : Pending G m₀ m l x l' order False available maxUsed)
    (uncounted : available + x.size = spares (l ++ x :: l')) :
    ∃ l₁ x' order' available', Pending G m₀ (reclaim m P.heap x.addr) l x' l₁ order' False
        available' maxUsed ∧ x'.addr = x.addr ∧
      available' + x'.size = spares (l ++ x' :: l₁) ∧
      l₁.filter Block.used = l'.filter Block.used ∧ (∀ c ∈ l₁.head?, c.used = true) ∧
      spares (l ++ x :: l') ≤ spares (l ++ x' :: l₁) := by
  by_cases used : ∀ c ∈ l'.head?, c.used = true
  · refine ⟨l', x, order, available, ?_, rfl, uncounted, rfl, used, Nat.le_refl _⟩
    rw [reclaim, if_pos ((isUsed_next pending.reached.spells pending.fills rfl).mpr used)]
    exact pending
  · obtain ⟨c, l₁, pre, post, rfl, free, rfl, first⟩ := pending.free_behind used
    have room := pending.room
    have unused : ¬ isUsed m (get m x.addr .next) := by
      rw [isUsed_next pending.reached.spells pending.fills rfl]
      simp [free]
    have behind := next_eq pending.reached.spells pending.fills (b := x) (by simp)
    have tiles : Tiles Block.addr Block.stop P.start (l ++ x :: c :: l₁) P.tail := pending.fills
    have addr : c.addr = x.stop := (tiles_middle.mp tiles).2.1
    have size := memitemSize_eq pending.reached.spells pending.fills (b := c) (by simp)
    have inner : spares (l ++ x :: c :: l₁) = spares l + (x.size + (c.size + spares l₁)) := by
      rw [spares_middle, spares_cons]
      simp only [Block.spare, pending.free, free]
      simp only [Bool.false_eq_true, if_false]
    have less : sub32 available c.size = available - c.size := sub32_eq (by omega) (by omega)
    have small : available - c.size < 4294967296 := by omega
    have joined := (pending.setAvailable small).absorbNext
    have sum : spares (l ++ x :: c :: l₁) + 24 = spares (l ++ join x c :: l₁) :=
      spares_join pending.free free
    have same : reclaim m P.heap x.addr = removeFree (mergeNext
        (setAvailable m P.heap (available - c.size)) x.addr c.addr) c.addr := by
      rw [reclaim, if_neg unused, behind, ← addr]
      simp only [size, pending.reached.available_eq, less]
    refine ⟨l₁, join x c, pre ++ post, available - c.size, ?_, rfl, ?_, ?_, first, by omega⟩
    · rw [same]
      exact joined
    · rw [← sum]
      simp only [join]
      omega
    · simp [free]

theorem pending_cut (spells : Spells P m (l ++ b :: l') order) (fills : Fills P (l ++ b :: l'))
    (used : b.used = true)
    (shaped : ∀ c ∈ l ++ b :: l', c.addr % 4 = 0 ∧ c.size % 4 = 0 ∧ 12 ≤ c.size)
    (front : Coalesced l) (back : Coalesced l')
    (listed : ∀ y, y ∈ order ↔ ∃ c ∈ l ++ l', c.used = false ∧ c.addr = y)
    (words : size % 4 = 0) (least : 12 ≤ size) (room : size + 36 ≤ b.size) {c n : Block}
    (first : c = ⟨b.addr, size, true⟩)
    (second : n = ⟨b.addr + 24 + size, b.size - size - 24, false⟩) :
    ∃ fills' : Fills P (l ++ c :: n :: l'), Pending fills'.grid m
      (breakDown (newItem m P.heap n.addr) b.addr n.addr) (l ++ [c]) n l' order False
      (field m P.heap .availableSize) (field m P.heap .maxUsedSize) := by
  obtain ⟨fills', covers, -, cut⟩ := Reached.cut (c := c) (n := n) spells fills (fun a there => by
    obtain ⟨d, member, -, rfl⟩ := (listed a).mp there
    refine List.mem_map_of_mem ?_
    simp only [List.mem_append, List.mem_cons] at member ⊢
    tauto) (by omega) (by rw [first, used]) second
  have shape := shaped b (by simp)
  have same : (l ++ [c]) ++ n :: l' = l ++ c :: n :: l' := by simp
  refine ⟨fills', by rw [same]; exact cut, by rw [same]; exact covers, by rw [same]; exact fills',
    by rw [second], fun d there => ?_, ?_, back, fun y => ?_⟩
  · rw [same] at there
    rcases List.mem_append.mp there with old | there
    · exact shaped d (by simp [old])
    rcases List.mem_cons.mp there with rfl | there
    · rw [first]
      exact ⟨shape.1, words, least⟩
    rcases List.mem_cons.mp there with rfl | old
    · rw [second]
      refine ⟨?_, ?_, ?_⟩ <;> simp only <;> omega
    · exact shaped d (by simp [old])
  · exact coalesced_middle.mpr ⟨front, List.isChain_nil, by simp [first], by simp⟩
  · rw [listed y]
    have taken : c.used = true := by rw [first]
    grind

end Shrinking

theorem shrink_exchanges (rep : Represents m L) (row : L.blocks = l ++ b :: l')
    (used : b.used = true) (words : size % 4 = 0) (least : 12 ≤ size)
    (room : size + 36 < b.size) :
    ∃ L', Exchanged m (shrink m P.heap b.addr size) L L' (some b) (some ⟨b.addr, size, true⟩) ∧
      AgreeOn (shrink m P.heap b.addr size) m b.ptr size := by
  have spells : Spells P m (l ++ b :: l') L.order := row ▸ rep.spells
  have fills : Fills P (l ++ b :: l') := row ▸ L.fills
  have merged : Coalesced (l ++ b :: l') := row ▸ L.coalesced
  have shaped := L.shaped
  have within := fills.inside (b := b) (by simp)
  have tail := P.tail_add
  have top := P.stop_le
  have most := rep.maxUsed
  rw [row] at shaped
  obtain ⟨front, back, -, -⟩ := coalesced_middle.mp merged
  let c : Block := ⟨b.addr, size, true⟩
  let n : Block := ⟨b.addr + 24 + size, b.size - size - 24, false⟩
  obtain ⟨fills', start⟩ := pending_cut (c := c) (n := n) spells fills used shaped front back
    (fun y => by
      rw [L.listed y, row]
      grind) words least (by omega) rfl rfl
  rw [rep.available] at start
  have whole : spares ((l ++ [c]) ++ n :: l') = spares L.blocks + n.size := by
    have same : (l ++ [c]) ++ n :: l' = l ++ c :: n :: l' := by simp
    rw [same, row, spares_middle, spares_middle, spares_cons]
    simp only [Block.spare, used, c, n, if_true]
    simp only [Bool.false_eq_true, if_false]
    omega
  have bound := start.room
  obtain ⟨l₁, x, order', available, reclaimed, addr, uncounted, kept, last, more⟩ :=
    reclaim_joins start whole.symm
  have listed := reclaimed.insertFree
  have size_eq := memitemSize_eq listed.reached.spells listed.fills (b := x) (by simp)
  have bound' := listed.room
  have small : available + x.size < 4294967296 := by omega
  have done := listed.setAvailable small
  have place : add32 (add32 b.addr size) headerSize = n.addr := by
    unfold Block.stop at within
    exact newPtr_eq (by omega)
  have sum : add32 available x.size = available + x.size := add32_eq (by omega)
  have equation : shrink m P.heap b.addr size = setAvailable (insertFree (reclaim (breakDown
      (newItem m P.heap n.addr) b.addr n.addr) P.heap n.addr) P.heap x.addr) P.heap
        (available + x.size) := by
    rw [addr] at size_eq listed ⊢
    simp only [shrink, place]
    rw [listed.reached.available_eq, size_eq, sum]
  obtain ⟨L', blocks, order⟩ := done.settles (by simp [c]) last
  have reached := done.reached
  rw [← blocks, ← order, ← equation] at reached
  rw [← blocks] at uncounted more
  have filtered : L'.blocks.filter Block.used =
      l.filter Block.used ++ ([c] ++ l'.filter Block.used) := by
    rw [blocks]
    simp [reclaimed.free, kept, c]
  refine ⟨L', ⟨reached.represents uncounted (by omega) rep.capped, held_iff row filtered,
    fun d there _ other => fresh_at (b := b) (c := c) (by simp [row]) rfl d there other,
    fun d there _ other => ?_, Nat.le_of_eq reached.maxUsed_eq.symm⟩, reached.kept c (by simp)⟩
  refine reached.kept d ?_
  have different : d ≠ b := fun same => other (same ▸ rfl)
  rw [row] at there
  grind

/-- A block takes bytes of the free block behind it. -/
def grow (m : Mem) (heap ptr headerPtr nextPtr size oldsize : Nat) : Mem :=
  let m := charge m heap (sub32 (field m heap .availableSize) (sub32 size oldsize))
  let m := removeBlock (removeFree m nextPtr) nextPtr
  let nextPtr := add32 ptr size
  let m := newItem m heap nextPtr
  let m := breakDown m headerPtr nextPtr
  insertFree m heap nextPtr

/-- What the bytes of a block are copied to is allocated, and the block is freed. -/
def move (m : Mem) (heap ptr size oldsize : Nat) : Option (Nat × Mem) :=
  (rtMemheapAlloc m heap (.ofNat size)).map fun (newPtr, m) =>
    if newPtr ≠ 0 then
      let m := rtMemcpy m newPtr ptr (if oldsize < size then oldsize else size)
      (newPtr, rtMemheapFree m ptr)
    else (newPtr, m)

theorem rtMemheapRealloc_eq (m : Mem) (heap ptr : Nat) (newsize : UInt32) :
    rtMemheapRealloc m heap ptr newsize =
      if heap = 0 then some (0, m)
      else if newsize = 0 then some (0, rtMemheapFree m ptr)
      else if ptr = 0 then rtMemheapAlloc m heap (.ofNat (roundSize newsize))
      else
        let size := roundSize newsize
        let headerPtr := sub32 ptr headerSize
        let oldsize := memitemSize m headerPtr
        let nextPtr := get m headerPtr .next
        if size > oldsize then
          if nextPtr < headerPtr then some (0, m)
          else if ¬ isUsed m nextPtr ∧ nextPtr = 0 then some (0, m)
          else if ¬ isUsed m nextPtr ∧
              add32 (memitemSize m nextPtr) oldsize > add32 size miniAlloc then
            some (ptr, grow m heap ptr headerPtr nextPtr size oldsize)
          else move m heap ptr size oldsize
        else if add32 (add32 size headerSize) miniAlloc ≥ oldsize then some (ptr, m)
        else some (ptr, shrink m heap headerPtr size) := rfl

private theorem listed_rest {pre post : List Nat} (row : L.blocks = l ++ b :: c :: l')
    (used : b.used = true) (split : L.order = pre ++ c.addr :: post) (y : Nat) :
    y ∈ pre ++ post ↔ ∃ d ∈ l ++ l', d.used = false ∧ d.addr = y := by
  have distinct := L.nodup
  have behind : L.blocks = (l ++ [b]) ++ c :: l' := by simp [row]
  have apart {d : Block} (there : d ∈ l ++ l') : d.addr ≠ c.addr :=
    Fills.addr_ne L.fills behind (by grind)
  rw [split] at distinct
  rw [mem_without distinct, ← split, L.listed y, row]
  constructor
  · rintro ⟨⟨d, there, unused, rfl⟩, other⟩
    refine ⟨d, ?_, unused, rfl⟩
    grind
  · rintro ⟨d, there, unused, rfl⟩
    exact ⟨⟨d, by grind, unused, rfl⟩, apart there⟩

theorem grow_exchanges (rep : Represents m L) (row : L.blocks = l ++ b :: c :: l')
    (used : b.used = true) (free : c.used = false) (words : size % 4 = 0) (least : 12 ≤ size)
    (more : b.size < size) (room : size + 12 < c.size + b.size) :
    ∃ L', Exchanged m (grow m P.heap b.ptr b.addr c.addr size b.size) L L' (some b)
        (some ⟨b.addr, size, true⟩) ∧
      AgreeOn (grow m P.heap b.ptr b.addr c.addr size b.size) m b.ptr b.size := by
  have member : c ∈ L.blocks := by simp [row]
  have listed : c.addr ∈ L.order := (L.listed _).mpr ⟨c, member, free, rfl⟩
  obtain ⟨pre, post, split⟩ := List.append_of_mem listed
  have spells : Spells P m (l ++ b :: c :: l') (pre ++ c.addr :: post) := row ▸ split ▸ rep.spells
  have fills : Fills P (l ++ b :: c :: l') := row ▸ L.fills
  have merged : Coalesced (l ++ b :: c :: l') := row ▸ L.coalesced
  have shaped := L.shaped
  have within := fills.inside (b := b) (by simp)
  have within' := fills.inside (b := c) (by simp)
  have whole := Fills.spares_le L.fills
  have tail := P.tail_add
  have top := P.stop_le
  have most := rep.maxUsed
  rw [row] at shaped
  obtain ⟨front, rest, -, -⟩ := coalesced_middle.mp merged
  obtain ⟨-, back⟩ := List.isChain_cons.mp rest
  have last := rest.used_behind (l := []) free
  have covers : Covers L.fills.grid (l ++ b :: c :: l') (pre ++ c.addr :: post) :=
    L.covers_before (s := [b, c]) (t := [b, c]) row row (fun d there => ⟨d, there, rfl⟩)
      fun a there => split ▸ there
  have sum : spares L.blocks = spares l + (c.size + spares l') := by
    rw [row, spares_middle, spares_cons]
    simp only [Block.spare, used, free, if_true]
    simp only [Bool.false_eq_true, if_false]
    omega
  have tiles : Tiles Block.addr Block.stop P.start (l ++ b :: c :: l') P.tail := fills
  have here : c.addr = b.stop := (tiles_middle.mp tiles).2.1
  unfold Block.stop at within within' here
  have left : sub32 (field m P.heap .availableSize) (sub32 size b.size) =
      spares L.blocks - (size - b.size) := by
    rw [rep.available, sub32_eq (a := size) (by omega) (by omega), sub32_eq (by omega) (by omega)]
  have smaller : spares L.blocks - (size - b.size) ≤ P.poolSize := by
    unfold Pool.tail at whole
    omega
  have charged := (Reached.start spells).charge covers smaller
  have removed := charged.step (charged.spells.removeFree covers)
  have joined := removeBlock_joins removed covers.remove
  let c' : Block := ⟨b.addr, size, true⟩
  let n : Block := ⟨b.addr + 24 + size, b.size + 24 + c.size - size - 24, false⟩
  obtain ⟨fills', start⟩ := pending_cut (c := c') (n := n) joined.spells (fills_join fills) used
    (shaped_join shaped) front back (listed_rest row used split) words least
    (by simp only [join]; omega) rfl rfl
  rw [joined.available_eq, joined.maxUsed_eq] at start
  have inserted := start.insertFree
  obtain ⟨L', blocks, order⟩ := inserted.settles (by simp [c']) last
  have reached := inserted.reached
  rw [← blocks, ← order] at reached
  have equation : grow m P.heap b.ptr b.addr c.addr size b.size = insertFree (breakDown (newItem
      (removeBlock (removeFree (charge m P.heap (spares L.blocks - (size - b.size))) c.addr) c.addr)
        P.heap n.addr) (join b c).addr n.addr) P.heap n.addr := by
    have same : (join b c).addr = b.addr := rfl
    have place : add32 b.ptr size = n.addr := add32_eq (by unfold Block.ptr; omega)
    simp only [grow, left, place, same]
  have filtered : L'.blocks.filter Block.used =
      l.filter Block.used ++ ([c'] ++ (c :: l').filter Block.used) := by
    rw [blocks]
    simp [c', n, free]
  have sum' : spares L'.blocks = spares l + (0 + (n.size + spares l')) := by
    have same : (l ++ [c']) ++ n :: l' = l ++ c' :: n :: l' := by simp
    rw [blocks, same, spares_middle, spares_cons]
    rfl
  have rest : n.size = b.size + 24 + c.size - size - 24 := rfl
  have capped := rep.capped
  rw [← equation] at reached
  have kept (d : Block) (old : d ∈ l ++ c' :: n :: l') := reached.kept d old
  refine ⟨L', ⟨reached.represents ?_ ?_ ?_, held_iff row filtered,
    fun d there _ other => fresh_at (b := b) (c := c') (by simp [row]) rfl d there other,
    fun d there mark other => ?_, ?_⟩, ?_⟩
  · omega
  · omega
  · omega
  · have different : d ≠ b := fun same => other (same ▸ rfl)
    refine (kept d ?_).trans (joined.kept d there)
    rw [row] at there
    grind
  · rw [reached.maxUsed_eq]
    exact Nat.le_max_left _ _
  · refine ((kept c' (by simp)).mono (Nat.le_refl _) ?_).trans (joined.kept b (by simp [row]))
    change b.addr + 24 + b.size ≤ b.addr + 24 + size
    omega

theorem roundSize_ofNat (words : size % 4 = 0) (least : 12 ≤ size) (small : size ≤ 0xFFFFFFFC) :
    roundSize (.ofNat size) = size := by
  have same : (UInt32.ofNat size).toNat = size := by
    rw [UInt32.toNat_ofNat']
    omega
  rw [roundSize_eq (by omega), same]
  omega

/-- What a reallocation answers, and what becomes of the memory: the block is as it was, or its
bytes are in one that is large enough. -/
inductive Reallocated (m : Mem) (L : Layout P) (b : Block) (size : Nat) : Nat × Mem → Prop
  | refused (short : b.size < size)
      (none : spares L.blocks ≤ size ∨ ∀ c ∈ L.blocks, c.used = false → c.size < size) :
      Reallocated m L b size (0, m)
  | moved {c : Block} {m' : Mem} {L' : Layout P} (large : size ≤ c.size)
      (exchanged : Exchanged m m' L L' (some b) (some c))
      (same : ∀ i, i < b.size → i < size → m' (c.ptr + i) = m (b.ptr + i)) :
      Reallocated m L b size (c.ptr, m')

theorem move_outcome (rep : Represents m L) (member : b ∈ L.blocks) (used : b.used = true)
    (words : size % 4 = 0) (least : 12 ≤ size) (small : size ≤ 0xFFFFFFFC) (more : b.size < size) :
    ∃ r, move m P.heap b.ptr size b.size = some r ∧ Reallocated m L b size r := by
  obtain ⟨⟨p, m₁⟩, answered, allocated⟩ := rtMemheapAlloc_outcome (n := .ofNat size) rep (by
    rw [UInt32.toNat_ofNat']
    omega)
  rw [roundSize_ofNat words least small] at allocated
  rw [move, answered, Option.map_some]
  rcases allocated.exchanged with ⟨same, none⟩ | ⟨c, L₁, answer, large, first⟩
  · cases same
    exact ⟨(0, m), rfl, .refused more none⟩
  · have fresh (d : Block) (there : d ∈ L.blocks) (mark : d.used = true) : d ≠ c := fun same =>
      first.fresh d there mark (Option.not_mem_none d) (congrArg some same.symm)
    have other := fresh b member used
    have inside : b ∈ L₁.blocks := ((first.held b).mpr (Or.inr ⟨member, used, by simp⟩)).1
    obtain ⟨here, made⟩ := (first.held c).mpr (Or.inl rfl)
    have within := L₁.fills.inside inside
    have tail := P.tail_add
    have top := P.stop_le
    have apart := Fills.disjoint L₁.fills inside here other
    unfold Block.stop at within
    obtain rfl : p = c.ptr := answer
    have copied : rtMemcpy m₁ c.ptr b.ptr b.size = store m₁ c.ptr (slice m₁ b.ptr b.size) :=
      rtMemcpy_eq m₁ (by unfold Block.ptr; omega)
    have outside (x : Nat) (away : x < c.ptr ∨ c.ptr + c.size ≤ x) :
        rtMemcpy m₁ c.ptr b.ptr b.size x = m₁ x := by
      rw [copied]
      exact store_outside (by rw [length_slice]; omega)
    obtain ⟨rep₁, fields⟩ := first.rep.write here outside
    obtain ⟨L₂, second⟩ := rtMemheapFree_exchanges rep₁ inside used
    refine ⟨(c.ptr, rtMemheapFree (rtMemcpy m₁ c.ptr b.ptr b.size) b.ptr), ?_, ?_⟩
    · simp only [if_pos c.ptr_ne_zero, if_pos more]
    · refine .moved large ⟨second.rep, fun d => ?_,
        fun d there mark _ => first.fresh d there mark (Option.not_mem_none d),
        fun d there mark gone => ?_, ?_⟩ fun i low _ => ?_
      · rw [second.held d, ← and_assoc, first.held d]
        simp only [Option.mem_def, Option.some.injEq, reduceCtorEq, false_or, not_false_eq_true,
          and_true]
        grind
      · have inside' := ((first.held d).mpr (Or.inr ⟨there, mark, by simp⟩)).1
        have beside := Fills.disjoint L₁.fills inside' here (fresh d there mark)
        refine (second.others d inside' mark gone).trans (AgreeOn.trans (fun x low high => ?_)
          (first.others d there mark (by simp)))
        exact outside x (by omega)
      · exact (first.peak.trans_eq (fields _).symm).trans second.peak
      · have kept := second.others c here made (by simp [other]) (c.ptr + i) (by omega) (by omega)
        rw [kept, copied, store_inside (by omega) (by rw [length_slice]; omega),
          Nat.add_sub_cancel_left, getD_slice _ _ _ _ low]
        exact first.others b member used (by simp) (b.ptr + i) (by omega) (by omega)

private theorem Reallocated.stays {n : Nat}
    (exchanged : Exchanged m m' L L' (some b) (some ⟨b.addr, size, true⟩))
    (same : AgreeOn m' m b.ptr n) (enough : min b.size size ≤ n) :
    Reallocated m L b size (b.ptr, m') := by
  refine .moved (c := ⟨b.addr, size, true⟩) (Nat.le_refl _) exchanged fun i low low' => ?_
  exact same _ (Nat.le_add_right _ _) (by unfold Block.ptr; simp only; omega)

section Outcomes

variable (rep : Represents m L) (row : L.blocks = l ++ b :: l') (used : b.used = true)
  (words : size % 4 = 0) (least : 12 ≤ size) (small : size ≤ 0xFFFFFFF0)

include rep row used words least small

private theorem fits_outcome (fits : size ≤ b.size) :
    ∃ r, (if add32 (add32 size headerSize) miniAlloc ≥ b.size then some (b.ptr, m)
      else some (b.ptr, shrink m P.heap b.addr size)) = some r ∧ Reallocated m L b size r := by
  have within := L.fills.inside (b := b) (by simp [row])
  have tail := P.tail_add
  have top := P.stop_le
  unfold Block.stop at within
  have wide : add32 (add32 size headerSize) miniAlloc = size + 36 := by
    unfold headerSize miniAlloc
    rw [add32_eq (a := size) (by omega), add32_eq (by omega)]
  rw [wide]
  by_cases room : size + 36 ≥ b.size
  · rw [if_pos room]
    have kept : Exchanged m m L L (some b) (some b) := by
      refine ⟨rep, fun d => ?_, fun d _ _ other => other, fun d _ _ _ => ?_, Nat.le_refl _⟩
      · simp only [Option.mem_def, Option.some.injEq]
        grind
      · exact AgreeOn.refl m d.ptr d.size
    exact ⟨_, rfl, .moved fits kept fun i _ _ => rfl⟩
  · obtain ⟨L', exchanged, same⟩ := shrink_exchanges rep row used words least
      (Nat.not_le.mp room)
    rw [if_neg room]
    exact ⟨_, rfl, .stays exchanged same (Nat.min_le_right _ _)⟩

private theorem more_outcome (more : b.size < size) :
    ∃ r, (if ¬ isUsed m b.stop ∧
        add32 (memitemSize m b.stop) b.size > add32 size miniAlloc then
          some (b.ptr, grow m P.heap b.ptr b.addr b.stop size b.size)
        else move m P.heap b.ptr size b.size) = some r ∧ Reallocated m L b size r := by
  have spells := rep.spells
  have member : b ∈ L.blocks := by simp [row]
  have within := L.fills.inside member
  have tail := P.tail_add
  have top := P.stop_le
  have others (not : ¬ (¬ isUsed m b.stop ∧
      add32 (memitemSize m b.stop) b.size > add32 size miniAlloc)) :
      ∃ r, (if ¬ isUsed m b.stop ∧
        add32 (memitemSize m b.stop) b.size > add32 size miniAlloc then
          some (b.ptr, grow m P.heap b.ptr b.addr b.stop size b.size)
        else move m P.heap b.ptr size b.size) = some r ∧ Reallocated m L b size r := by
    rw [if_neg not]
    exact move_outcome rep member used words least (by omega) more
  by_cases last : ∀ c ∈ l'.head?, c.used = true
  · have all := (isUsed_next spells L.fills row).mpr last
    rw [next_eq spells L.fills member] at all
    exact others fun both => both.1 all
  · obtain ⟨c, l₁, rfl⟩ : ∃ c l₁, l' = c :: l₁ := by
      cases l' with
      | nil => exact absurd (by simp) last
      | cons c l₁ => exact ⟨c, l₁, rfl⟩
    have free : c.used = false := by simpa using last
    have there : c ∈ L.blocks := by simp [row]
    have tiles : Tiles Block.addr Block.stop P.start L.blocks P.tail := L.fills
    rw [row, tiles_middle] at tiles
    have addr : c.addr = b.stop := tiles.2.1
    have within' := L.fills.inside there
    have unused : ¬ isUsed m c.addr := by
      rw [isUsed_iff spells there, free]
      simp
    have sum : add32 c.size b.size = c.size + b.size := by
      unfold Block.stop at addr within within'
      exact add32_eq (by omega)
    have sum' : add32 size miniAlloc = size + 12 := add32_eq (by unfold miniAlloc; omega)
    rw [← addr, memitemSize_eq spells L.fills there, sum, sum'] at others ⊢
    by_cases room : size + 12 < c.size + b.size
    · obtain ⟨L', exchanged, same⟩ := grow_exchanges rep row used free words least more room
      rw [if_pos ⟨unused, room⟩]
      exact ⟨_, rfl, .stays exchanged same (Nat.min_le_left _ _)⟩
    · exact others fun both => room both.2

end Outcomes

theorem rtMemheapRealloc_outcome (rep : Represents m L) (member : b ∈ L.blocks)
    (used : b.used = true) {n : UInt32} (positive : n ≠ 0) (small : n.toNat ≤ 0xFFFFFFF0) :
    ∃ r, rtMemheapRealloc m P.heap b.ptr n = some r ∧ Reallocated m L b (roundSize n) r := by
  obtain ⟨l, l', row⟩ := List.append_of_mem member
  have rounded := roundSize_eq (n := n) (by omega)
  have least := roundSize_least (n := n) (by omega)
  have shaped := L.shaped b member
  have size := memitemSize_eq rep.spells L.fills member
  have next := next_eq rep.spells L.fills member
  rw [rtMemheapRealloc_eq, if_neg P.nonnull, if_neg positive, if_neg b.ptr_ne_zero]
  simp only [Fills.header_eq L.fills member, size, next]
  by_cases more : roundSize n > b.size
  · have behind : ¬ b.stop < b.addr := by
      unfold Block.stop
      omega
    have nonzero : ¬ (¬ isUsed m b.stop ∧ b.stop = 0) := by
      unfold Block.stop
      omega
    rw [if_pos more, if_neg behind, if_neg nonzero]
    exact more_outcome rep row used least.1 least.2 (by omega) more
  · rw [if_neg more]
    exact fits_outcome rep row used least.1 least.2 (by omega) (Nat.not_lt.mp more)

end T113Boot.Heap.Resizing
