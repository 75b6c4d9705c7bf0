/- Module: T113Boot/Heap/Release
   layer: specification
   digest: rt_memheap_free joins a block with its free neighbours; nothing else is freed or moved. -/

import T113Boot.Heap.Rows

set_option autoImplicit false
set_option relaxedAutoImplicit false

namespace T113Boot.Heap.Release

open T113Boot.Lib.Cells
open T113Boot.Lib.Rings
open T113Boot.Lib.Tilings
open T113Boot.Heap.Memheap
open T113Boot.Heap.Headers
open T113Boot.Heap.Links
open T113Boot.Heap.Threads
open T113Boot.Heap.Rows

variable {P : Pool} {G : Grid P} {m m' m₀ : Mem} {L L' : Layout P} {a b c x y : Block}
  {bs l l' : List Block} {order pre post : List Nat} {available maxUsed : Nat}

/-- The block and the one behind it, as one. -/
def join (b c : Block) : Block := ⟨b.addr, b.size + 24 + c.size, b.used⟩

/-- What is done where the block before is free: the header that is gone on with, too. -/
def joinPrev (m : Mem) (heap headerPtr : Nat) : Nat × Mem :=
  if isUsed m (get m headerPtr .prev) then (headerPtr, m)
  else
    let m := setAvailable m heap (add32 (field m heap .availableSize) headerSize)
    let m := mergePrev m headerPtr
    (get m headerPtr .prev, m)

/-- What is done where the block behind is free. -/
def joinNext (m : Mem) (heap headerPtr : Nat) : Mem :=
  if isUsed m (get m headerPtr .next) then m
  else
    let m := setAvailable m heap (add32 (field m heap .availableSize) headerSize)
    let newPtr := get m headerPtr .next
    removeFree (mergeNext m headerPtr newPtr) newPtr

theorem rtMemheapFree_eq (m : Mem) (ptr : Nat) : rtMemheapFree m ptr =
    if ptr = 0 then m
    else if get m (sub32 ptr headerSize) .magic ≠ magicUsed ∨
      magicMasked (get m (get m (sub32 ptr headerSize) .next) .magic) ≠ magicFreed then m
    else if get m (sub32 ptr headerSize) .poolPtr = 0 then m
    else
      let headerPtr := sub32 ptr headerSize
      let heap := get m headerPtr .poolPtr
      let marked := set m headerPtr .magic magicFreed
      let marked := setAvailable marked heap
        (add32 (field marked heap .availableSize) (memitemSize marked headerPtr))
      let merged := joinPrev marked heap headerPtr
      let joined := joinNext merged.2 heap merged.1
      if isUsed marked (get marked headerPtr .prev) then putBack joined heap merged.1
      else joined := rfl

section Joining

variable (reached : Reached G m₀ m (l ++ a :: x :: l') order available maxUsed)
  (covers : Covers G (l ++ a :: x :: l') order)

include reached covers

private theorem neighbours : get m x.addr .prev = a.addr ∧ get m a.addr .next = x.addr ∧
    G.node x.addr ∧ G.node (get m x.addr .prev) ∧ G.node (get m x.addr .next) ∧
    get m x.addr .next ≠ x.addr := by
  have ring := reached.spells.blocks
  have before := Ring.prev_eq (s := l.map Block.addr ++ [a.addr]) (x := x.addr)
    (t := l'.map Block.addr) ring (by simp)
  have behind := Ring.next_eq (s := P.tail :: l.map Block.addr) (x := a.addr)
    (t := x.addr :: l'.map Block.addr) ring (by simp)
  have on := Ring.next_eq (s := P.tail :: (l.map Block.addr ++ [a.addr])) (x := x.addr)
    (t := l'.map Block.addr) ring (by simp)
  have nodup := ring.nodup
  rw [List.getLastD_concat] at before
  refine ⟨before, behind, covers.blocks x (by simp), before ▸ covers.blocks a (by simp),
    Spells.node covers (ring.next_mem (by simp)), ?_⟩
  rw [on]
  simp only [List.map_append, List.map_cons] at nodup
  cases l' with
  | nil =>
    simp only [List.map_nil, List.headD_nil]
    grind
  | cons d l' =>
    simp only [List.map_cons, List.headD_cons]
    grind

private theorem reached_join (frame : Frame G [.next, .prev] [] m m')
    (gone : Gone G .next .prev m m' x.addr) :
    Reached G m₀ m' (l ++ join a x :: l') order available maxUsed :=
  reached.step ⟨reached.spells.merge covers rfl rfl frame gone,
    frame.mono (mem_anyMember _) (fun _ none => none)⟩

theorem mergePrev_joins : Reached G m₀ (mergePrev m x.addr) (l ++ join a x :: l') order available
    maxUsed ∧ get (mergePrev m x.addr) x.addr .prev = a.addr := by
  obtain ⟨before, -, nx, na, behind, other⟩ := neighbours reached covers
  have gone : Gone G .next .prev m (mergePrev m x.addr) x.addr := by
    rw [mergePrev_eq nx behind na]
    exact gone_of_sets' (by decide) behind na
  refine ⟨reached_join reached covers (frame_mergePrev nx behind na) gone, ?_⟩
  rw [(gone _ nx).2, if_neg (Ne.symm other), before]

theorem mergeNext_joins : Reached G m₀ (mergeNext m a.addr x.addr) (l ++ join a x :: l') order
    available maxUsed := by
  obtain ⟨before, -, nx, na, behind, -⟩ := neighbours reached covers
  have frame := frame_mergeNext nx behind na
  have gone : Gone G .next .prev m (mergeNext m (get m x.addr .prev) x.addr) x.addr := by
    rw [mergeNext_eq nx behind na]
    exact gone_of_sets (by decide) behind na
  rw [before] at frame gone
  exact reached_join reached covers frame gone

theorem removeBlock_joins : Reached G m₀ (removeBlock m x.addr) (l ++ join a x :: l') order
    available maxUsed := by
  obtain ⟨-, -, nx, na, behind, -⟩ := neighbours reached covers
  have gone : Gone G .next .prev m (removeBlock m x.addr) x.addr := by
    rw [removeBlock_eq nx behind na]
    exact gone_of_sets (by decide) behind na
  exact reached_join reached covers (frame_removeBlock nx behind na) gone

end Joining

theorem covers_join (covers : Covers G (l ++ a :: x :: l') order) :
    Covers G (l ++ join a x :: l') order := by
  refine ⟨covers.header, covers.tail, fun c there => ?_, covers.order⟩
  rcases List.mem_append.mp there with front | back
  · exact covers.blocks c (by simp [front])
  rcases List.mem_cons.mp back with rfl | back
  · exact covers.blocks a (by simp)
  · exact covers.blocks c (by simp [back])

theorem stop_join (joint : x.addr = a.stop) : (join a x).stop = x.stop := by
  unfold join Block.stop at *
  simp only
  omega

theorem fills_join (fills : Fills P (l ++ a :: x :: l')) : Fills P (l ++ join a x :: l') := by
  have tiles : Tiles Block.addr Block.stop P.start (l ++ a :: x :: l') P.tail := fills
  obtain ⟨front, joint, back⟩ := tiles_middle.mp tiles
  refine tiles_middle.mpr ⟨front, ?_⟩
  rw [stop_join joint]
  exact back

theorem shaped_join
    (shaped : ∀ c ∈ l ++ a :: x :: l', c.addr % 4 = 0 ∧ c.size % 4 = 0 ∧ 12 ≤ c.size) :
    ∀ c ∈ l ++ join a x :: l', c.addr % 4 = 0 ∧ c.size % 4 = 0 ∧ 12 ≤ c.size := by
  intro c there
  rcases List.mem_append.mp there with front | back
  · exact shaped c (by simp [front])
  rcases List.mem_cons.mp back with rfl | back
  · have first := shaped a (by simp)
    have second := shaped x (by simp)
    unfold join
    simp only
    omega
  · exact shaped c (by simp [back])

theorem spares_join (first : a.used = false) (second : x.used = false) :
    spares (l ++ a :: x :: l') + 24 = spares (l ++ join a x :: l') := by
  rw [spares_middle, spares_middle, spares_cons]
  simp only [Block.spare, join, first, second]
  simp only [Bool.false_eq_true, if_false]
  omega

/-- A free block `x` whose free neighbours it has not been joined with yet. It may be in the free
list or not. -/
structure Pending (G : Grid P) (m₀ m : Mem) (l : List Block) (x : Block) (l' : List Block)
    (order : List Nat) (listed : Prop) (available maxUsed : Nat) : Prop where
  reached : Reached G m₀ m (l ++ x :: l') order available maxUsed
  covers : Covers G (l ++ x :: l') order
  fills : Fills P (l ++ x :: l')
  free : x.used = false
  shaped : ∀ c ∈ l ++ x :: l', c.addr % 4 = 0 ∧ c.size % 4 = 0 ∧ 12 ≤ c.size
  front : Coalesced l
  back : Coalesced l'
  inOrder : ∀ y, y ∈ order ↔
    (∃ c ∈ l ++ l', c.used = false ∧ c.addr = y) ∨ (listed ∧ y = x.addr)

namespace Pending

variable {listed : Prop}

theorem setAvailable (pending : Pending G m₀ m l x l' order listed available maxUsed) {size : Nat}
    (small : size < 4294967296) :
    Pending G m₀ (setAvailable m P.heap size) l x l' order listed size maxUsed :=
  { pending with reached := pending.reached.setAvailable pending.covers small }

theorem settles (pending : Pending G m₀ m l x l' order True available maxUsed)
    (first : ∀ a ∈ l.getLast?, a.used = true) (last : ∀ c ∈ l'.head?, c.used = true) :
    ∃ L' : Layout P, L'.blocks = l ++ x :: l' ∧ L'.order = order := by
  refine ⟨⟨l ++ x :: l', order, pending.fills, pending.shaped, ?_, ?_, fun y => ?_⟩, rfl, rfl⟩
  · exact coalesced_middle.mpr ⟨pending.front, pending.back, fun a here => Or.inl (first a here),
      fun c here => Or.inr (last c here)⟩
  · exact (List.nodup_cons.mp pending.reached.spells.frees.nodup).2
  · rw [pending.inOrder y]
    have free := pending.free
    grind

theorem absorbNext {pre post : List Nat}
    (pending : Pending G m₀ m l x (c :: l') (pre ++ c.addr :: post) listed available maxUsed) :
    Pending G m₀ (removeFree (mergeNext m x.addr c.addr) c.addr) l (join x c) l' (pre ++ post)
      listed available maxUsed := by
  have merged := mergeNext_joins pending.reached pending.covers
  have covers := covers_join pending.covers
  have removed := merged.step (merged.spells.removeFree covers)
  have nodup := (List.nodup_cons.mp pending.reached.spells.frees.nodup).2
  obtain ⟨-, back⟩ := List.isChain_cons.mp pending.back
  refine ⟨removed, ⟨covers.header, covers.tail, covers.blocks, fun y here => ?_⟩,
    fills_join pending.fills, pending.free, shaped_join pending.shaped, pending.front, back,
    fun y => ?_⟩
  · exact covers.order y ((mem_without nodup).mp here).1
  · rw [mem_without nodup, pending.inOrder y]
    have apart {d : Block} (there : d ∈ l ++ [x] ++ l') : d.addr ≠ c.addr :=
      Fills.addr_ne pending.fills (by simp) there
    have other : x.addr ≠ c.addr := apart (by simp)
    have same : (join x c).addr = x.addr := rfl
    rw [same]
    grind

theorem absorbPrev (pending : Pending G m₀ m (l ++ [a]) x l' order False available maxUsed)
    (free : a.used = false) :
    Pending G m₀ (mergePrev m x.addr) l (join a x) l' order True available maxUsed ∧
      get (mergePrev m x.addr) x.addr .prev = a.addr := by
  have row : (l ++ [a]) ++ x :: l' = l ++ a :: x :: l' := by simp
  obtain ⟨reached, covers, fills, -, shaped, front, back, inOrder⟩ := pending
  rw [row] at reached covers fills shaped
  obtain ⟨merged, before⟩ := mergePrev_joins reached covers
  refine ⟨⟨merged, covers_join covers, fills_join fills, free, shaped_join shaped,
    front.left_of_append, back, fun y => ?_⟩, before⟩
  rw [inOrder y]
  have same : (join a x).addr = a.addr := rfl
  rw [same]
  grind

theorem unlisted (pending : Pending G m₀ m l x l' order False available maxUsed) :
    x.addr ∉ freeHeader P.heap :: order := by
  have header := Fills.ne_freeHeader pending.fills (b := x) (by simp)
  intro there
  rcases List.mem_cons.mp there with same | there
  · exact header same
  rcases (pending.inOrder _).mp there with ⟨c, member, -, same⟩ | ⟨none, -⟩
  · exact Fills.addr_ne pending.fills rfl member same
  · exact none

private theorem enters (pending : Pending G m₀ m l x l' order False available maxUsed)
    (piece : Spells P m' (l ++ x :: l') (x.addr :: order) ∧ Frame G anyMember [] m m') :
    Pending G m₀ m' l x l' (x.addr :: order) True available maxUsed where
  reached := pending.reached.step piece
  covers := ⟨pending.covers.header, pending.covers.tail, pending.covers.blocks, fun y there => by
    rcases List.mem_cons.mp there with rfl | there
    · exact pending.covers.blocks x (by simp)
    · exact pending.covers.order y there⟩
  fills := pending.fills
  free := pending.free
  shaped := pending.shaped
  front := pending.front
  back := pending.back
  inOrder y := by
    rw [List.mem_cons, pending.inOrder y]
    simp [or_comm]

theorem putBack (pending : Pending G m₀ m l x l' order False available maxUsed) :
    Pending G m₀ (putBack m P.heap x.addr) l x l' (x.addr :: order) True available maxUsed :=
  pending.enters (pending.reached.spells.putBack pending.covers
    (pending.covers.blocks x (by simp)) pending.unlisted)

theorem insertFree (pending : Pending G m₀ m l x l' order False available maxUsed) :
    Pending G m₀ (insertFree m P.heap x.addr) l x l' (x.addr :: order) True available maxUsed :=
  pending.enters (pending.reached.spells.insertFree pending.covers
    (pending.covers.blocks x (by simp)) pending.unlisted)

theorem joinPrev_used (pending : Pending G m₀ m l x l' order listed available maxUsed)
    (used : ∀ a ∈ l.getLast?, a.used = true) : joinPrev m P.heap x.addr = (x.addr, m) :=
  if_pos ((isUsed_prev pending.reached.spells rfl).mpr used)

theorem joinPrev_free (pending : Pending G m₀ m (l ++ [a]) x l' order False available maxUsed)
    (free : a.used = false) (small : available + 24 < 4294967296) :
    ∃ m', joinPrev m P.heap x.addr = (a.addr, m') ∧
      Pending G m₀ m' l (join a x) l' order True (available + 24) maxUsed := by
  have unused : ¬ isUsed m (get m x.addr .prev) := by
    rw [isUsed_prev pending.reached.spells rfl]
    simp [free]
  have sum : add32 (field m P.heap .availableSize) headerSize = available + 24 := by
    rw [pending.reached.available_eq]
    exact add32_eq small
  obtain ⟨joined, before⟩ := (pending.setAvailable small).absorbPrev free
  refine ⟨_, ?_, joined⟩
  simp only [joinPrev, if_neg unused, sum, before]

theorem joinNext_used (pending : Pending G m₀ m l x l' order listed available maxUsed)
    (used : ∀ c ∈ l'.head?, c.used = true) : joinNext m P.heap x.addr = m :=
  if_pos ((isUsed_next pending.reached.spells pending.fills rfl).mpr used)

theorem joinNext_free {pre post : List Nat}
    (pending : Pending G m₀ m l x (c :: l') (pre ++ c.addr :: post) listed available maxUsed)
    (free : c.used = false) (small : available + 24 < 4294967296) :
    Pending G m₀ (joinNext m P.heap x.addr) l (join x c) l' (pre ++ post) listed (available + 24)
      maxUsed := by
  have unused : ¬ isUsed m (get m x.addr .next) := by
    rw [isUsed_next pending.reached.spells pending.fills rfl]
    simp [free]
  have sum : add32 (field m P.heap .availableSize) headerSize = available + 24 := by
    rw [pending.reached.available_eq]
    exact add32_eq small
  have set := pending.setAvailable small
  have behind := (neighbours set.reached set.covers).2.1
  simpa only [joinNext, if_neg unused, sum, behind] using set.absorbNext

theorem room (pending : Pending G m₀ m l x l' order listed available maxUsed) :
    spares (l ++ x :: l') + 24 * (l.length + l'.length + 1) + 24 ≤ 4294967296 := by
  have sum := Fills.spares_le pending.fills
  have tail := P.tail_add
  have top := P.stop_le
  simp only [List.length_append, List.length_cons] at sum
  omega

theorem afterPrev
    (pending : Pending G m₀ m l x l' order False (spares (l ++ x :: l')) maxUsed) :
    ∃ l₀ x' m' listed, joinPrev m P.heap x.addr = (x'.addr, m') ∧
      Pending G m₀ m' l₀ x' l' order listed (spares (l₀ ++ x' :: l')) maxUsed ∧
      l₀.filter Block.used = l.filter Block.used ∧ (∀ a ∈ l₀.getLast?, a.used = true) ∧
      (¬ listed ↔ ∀ a ∈ l.getLast?, a.used = true) ∧
      spares (l ++ x :: l') ≤ spares (l₀ ++ x' :: l') := by
  by_cases used : ∀ a ∈ l.getLast?, a.used = true
  · exact ⟨l, x, m, False, pending.joinPrev_used used, pending, rfl, used,
      iff_of_true id used, Nat.le_refl _⟩
  · obtain ⟨l₀, a, rfl⟩ : ∃ l₀ a, l = l₀ ++ [a] := by
      rcases List.eq_nil_or_concat' l with rfl | here
      · exact absurd (by simp) used
      · exact here
    have free : a.used = false := by simpa using used
    have room := pending.room
    rw [List.length_append, List.length_singleton] at room
    obtain ⟨m', joined, next⟩ := pending.joinPrev_free free (by omega)
    have front := coalesced_middle.mp pending.front
    have sum : spares ((l₀ ++ [a]) ++ x :: l') + 24 = spares (l₀ ++ join a x :: l') := by
      have row : (l₀ ++ [a]) ++ x :: l' = l₀ ++ a :: x :: l' := by simp
      rw [row, spares_join free pending.free]
    rw [sum] at next
    refine ⟨l₀, join a x, m', True, joined, next, ?_, fun d last => ?_, ?_, by omega⟩
    · simp [free]
    · have either := front.2.2.1 d last
      rw [free] at either
      simpa using either
    · simp [free]

theorem free_behind (pending : Pending G m₀ m l x l' order listed available maxUsed)
    (unused : ¬ ∀ c ∈ l'.head?, c.used = true) :
    ∃ c l₁ pre post, l' = c :: l₁ ∧ c.used = false ∧ order = pre ++ c.addr :: post ∧
      ∀ d ∈ l₁.head?, d.used = true := by
  obtain ⟨c, l₁, rfl⟩ : ∃ c l₁, l' = c :: l₁ := by
    cases l' with
    | nil => exact absurd (by simp) unused
    | cons c l₁ => exact ⟨c, l₁, rfl⟩
  have free : c.used = false := by simpa using unused
  have there : c.addr ∈ order := (pending.inOrder _).mpr (Or.inl ⟨c, by simp, free, rfl⟩)
  obtain ⟨pre, post, split⟩ := List.append_of_mem there
  refine ⟨c, l₁, pre, post, rfl, free, split, fun d first => ?_⟩
  exact pending.back.used_behind (l := []) free d first

theorem afterNext
    (pending : Pending G m₀ m l x l' order listed (spares (l ++ x :: l')) maxUsed) :
    ∃ l₁ x' order', Pending G m₀ (joinNext m P.heap x.addr) l x' l₁ order' listed
        (spares (l ++ x' :: l₁)) maxUsed ∧ x'.addr = x.addr ∧
      l₁.filter Block.used = l'.filter Block.used ∧ (∀ c ∈ l₁.head?, c.used = true) ∧
      spares (l ++ x :: l') ≤ spares (l ++ x' :: l₁) := by
  by_cases used : ∀ c ∈ l'.head?, c.used = true
  · refine ⟨l', x, order, ?_, rfl, rfl, used, Nat.le_refl _⟩
    rw [pending.joinNext_used used]
    exact pending
  · obtain ⟨c, l₁, pre, post, rfl, free, rfl, first⟩ := pending.free_behind used
    have room := pending.room
    rw [List.length_cons] at room
    have next := pending.joinNext_free free (by omega)
    have sum : spares (l ++ x :: c :: l₁) + 24 = spares (l ++ join x c :: l₁) :=
      spares_join pending.free free
    rw [sum] at next
    refine ⟨l₁, join x c, pre ++ post, next, rfl, ?_, first, by omega⟩
    simp [free]

end Pending

/-- What a release does to the memory and to the row of blocks. -/
structure Released (m m' : Mem) (L L' : Layout P) (l l' : List Block) : Prop where
  rep : Represents m' L'
  held : L'.blocks.filter Block.used = l.filter Block.used ++ l'.filter Block.used
  kept : Kept L.blocks m m'
  peak : field m' P.heap .maxUsedSize = field m P.heap .maxUsedSize

private theorem freed (rep : Represents m L) (row : L.blocks = l ++ b :: l')
    (used : b.used = true) :
    memitemSize (set m b.addr .magic magicFreed) b.addr = b.size ∧
    field (set m b.addr .magic magicFreed) P.heap .availableSize = spares L.blocks ∧
    add32 (spares L.blocks) b.size = spares L.blocks + b.size ∧
    Pending L.fills.grid m (setAvailable (set m b.addr .magic magicFreed) P.heap
        (spares L.blocks + b.size)) l ⟨b.addr, b.size, false⟩ l' L.order False
      (spares (l ++ ⟨b.addr, b.size, false⟩ :: l')) (field m P.heap .maxUsedSize) := by
  have spells : Spells P m (l ++ b :: l') L.order := row ▸ rep.spells
  have merged : Coalesced (l ++ b :: l') := row ▸ L.coalesced
  have tiles : Tiles Block.addr Block.stop P.start (l ++ b :: l') P.tail := row ▸ L.fills
  obtain ⟨front, back, -, -⟩ := coalesced_middle.mp merged
  let x : Block := ⟨b.addr, b.size, false⟩
  have old : Covers L.fills.grid (l ++ b :: l') L.order :=
    L.covers_before (s := [b]) (t := [b]) row row (by simp) fun _ here => here
  have covers : Covers L.fills.grid (l ++ x :: l') L.order :=
    L.covers_same (by simp [row, x]) fun a here => by
      obtain ⟨c, there, -, rfl⟩ := (L.listed a).mp here
      have listed : c.addr ∈ L.blocks.map Block.addr := List.mem_map_of_mem there
      rw [row] at listed
      simpa [x] using listed
  have middle := tiles_middle.mp tiles
  have fills : Fills P (l ++ x :: l') := tiles_middle.mpr middle
  have marked : Reached L.fills.grid m (set m b.addr .magic magicFreed) (l ++ x :: l') L.order
      (spares L.blocks) (field m P.heap .maxUsedSize) :=
    rep.available ▸ (Reached.start spells).step (spells.mark (c := x) old rfl)
  have sum : spares (l ++ x :: l') = spares L.blocks + b.size := by
    have new : spares (l ++ x :: l') = spares l + (b.size + spares l') := spares_middle
    rw [row, new, spares_middle, Block.spare, used]
    simp only [if_true]
    omega
  have whole := Fills.spares_le fills
  have tail := P.tail_add
  have top := P.stop_le
  refine ⟨memitemSize_eq marked.spells fills (b := x) (by simp), marked.available_eq,
    add32_eq (by omega), ?_⟩
  rw [sum]
  refine ⟨marked.setAvailable covers (by omega), covers, fills, rfl, fun c member => ?_, front, back,
    fun y => ?_⟩
  · have shaped := L.shaped
    rw [row] at shaped
    rcases List.mem_append.mp member with there | there
    · exact shaped c (by simp [there])
    rcases List.mem_cons.mp there with rfl | there
    · exact shaped b (by simp)
    · exact shaped c (by simp [there])
  · rw [L.listed y, row]
    grind

private theorem rtMemheapFree_released (rep : Represents m L) (row : L.blocks = l ++ b :: l')
    (used : b.used = true) : ∃ L', Released m (rtMemheapFree m b.ptr) L L' l l' := by
  have member : b ∈ L.blocks := by simp [row]
  have magic := rep.spells.marks b member
  have pool := rep.spells.pools b member
  have behind := magicMasked_next rep.spells L.fills member
  have guard : ¬ (get m b.addr .magic ≠ magicUsed ∨
      magicMasked (get m (get m b.addr .next) .magic) ≠ magicFreed) := by
    rw [magic, used]
    simp [behind, magicOf]
  obtain ⟨size, available, add, start⟩ := freed rep row used
  have alone := isUsed_prev start.reached.spells (b := ⟨b.addr, b.size, false⟩) rfl
  obtain ⟨l₀, x, m₁, listed, joined, pending, front, first, exact_, more⟩ := start.afterPrev
  obtain ⟨l₁, x', order', settled, addr, back, last, more'⟩ := pending.afterNext
  have sum : spares L.blocks ≤ spares (l ++ ⟨b.addr, b.size, false⟩ :: l') := by
    rw [row, spares_middle, spares_middle, Block.spare, used]
    simp only [if_true]
    omega
  have finish {m' : Mem} {order : List Nat}
      (done : Pending L.fills.grid m m' l₀ x' l₁ order True (spares (l₀ ++ x' :: l₁))
        (field m P.heap .maxUsedSize)) : ∃ L', Released m m' L L' l l' := by
    obtain ⟨L', blocks, rfl⟩ := done.settles first last
    have reached := done.reached
    rw [← blocks] at reached
    have most := rep.maxUsed
    rw [← blocks] at more'
    refine ⟨L', reached.represents rfl (by omega) rep.capped, ?_, reached.kept, reached.maxUsed_eq⟩
    rw [blocks, List.filter_append, List.filter_cons_of_neg (by simp [done.free]), front, back]
  rw [rtMemheapFree_eq, if_neg b.ptr_ne_zero, Fills.header_eq L.fills member, if_neg guard, pool, if_neg P.nonnull]
  simp only [size, pool, available, add, alone, joined]
  by_cases used : ∀ a ∈ l.getLast?, a.used = true
  · rw [if_pos used]
    have none : listed = False := propext ⟨exact_.mpr used, False.elim⟩
    subst none
    have put := settled.putBack
    rw [addr] at put
    exact finish put
  · rw [if_neg used]
    have all : listed = True := propext ⟨fun _ => trivial, fun _ => by
      by_contra not
      exact used (exact_.mp not)⟩
    subst all
    exact finish settled

theorem rtMemheapFree_exchanges (rep : Represents m L) (member : b ∈ L.blocks)
    (used : b.used = true) :
    ∃ L', Exchanged m (rtMemheapFree m b.ptr) L L' (some b) none := by
  obtain ⟨l, l', row⟩ := List.append_of_mem member
  obtain ⟨L', released⟩ := rtMemheapFree_released rep row used
  exact ⟨L', released.rep, held_iff row released.held, fun _ _ _ _ => Option.not_mem_none _,
    fun d there _ _ => released.kept d there, Nat.le_of_eq released.peak.symm⟩

end T113Boot.Heap.Release
