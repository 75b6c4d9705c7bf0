/- Module: T113Boot/Heap/Threads
   layer: specification
   digest: Memory that spells a row of blocks, and how each piece of code changes the row. -/

import T113Boot.Heap.Links
import T113Boot.Lib.Tilings

set_option autoImplicit false
set_option relaxedAutoImplicit false

namespace T113Boot.Heap.Threads

open T113Boot.Lib.Cells
open T113Boot.Lib.Rings
open T113Boot.Lib.Tilings
open T113Boot.Heap.Memheap
open T113Boot.Heap.Headers
open T113Boot.Heap.Links

/-- A block: its header's address, and the bytes behind the header. -/
structure Block where
  addr : Nat
  size : Nat
  used : Bool
deriving DecidableEq

/-- Where the next header lies. -/
def Block.stop (b : Block) : Nat := b.addr + 24 + b.size

/-- The pointer that its owner has. -/
def Block.ptr (b : Block) : Nat := b.addr + 24

theorem Block.ptr_ne_zero (b : Block) : b.ptr ≠ 0 := Nat.succ_ne_zero _

variable {P : Pool} {G : Grid P} {m m' : Mem} {b c n : Block} {bs l l' : List Block}
  {order pre post : List Nat}

/-- The blocks fill the pool up to its tail. -/
def Fills (P : Pool) (bs : List Block) : Prop := Tiles Block.addr Block.stop P.start bs P.tail

theorem Block.forward (b : Block) : b.addr ≤ b.stop := by
  unfold Block.stop
  omega

theorem Fills.inside (fills : Fills P bs) (member : b ∈ bs) : P.start ≤ b.addr ∧ b.stop ≤ P.tail :=
  Tiles.inside Block.forward fills member

theorem Fills.apart (fills : Fills P bs) (first : b ∈ bs) (second : c ∈ bs) (other : b ≠ c) :
    b.stop ≤ c.addr ∨ c.stop ≤ b.addr :=
  Tiles.apart Block.forward fills first second other

/-- Blocks that fill a pool have headers that do not overlap. -/
def Fills.grid (fills : Fills P bs) : Grid P where
  node a := a = freeHeader P.heap ∨ a = P.tail ∨ ∃ b ∈ bs, b.addr = a
  holds a node := by
    have tail := P.tail_add
    have room := P.room_poolSize
    rcases node with rfl | rfl | ⟨b, member, rfl⟩
    · exact Or.inl rfl
    · refine Or.inr ⟨?_, by omega⟩
      unfold Pool.tail
      omega
    · obtain ⟨low, high⟩ := fills.inside member
      unfold Block.stop at high
      exact Or.inr ⟨low, by omega⟩
  spaced a a' node node' other := by
    have tail := P.tail_add
    have apart := P.apart_stop
    have room := P.room_poolSize
    have start : P.start ≤ P.tail := by
      unfold Pool.tail
      omega
    rcases node with rfl | rfl | ⟨b, member, rfl⟩ <;> rcases node' with rfl | rfl | ⟨c, member', rfl⟩
    · exact absurd rfl other
    · unfold freeHeader
      omega
    · obtain ⟨low, high⟩ := fills.inside member'
      unfold freeHeader
      unfold Block.stop at high
      omega
    · unfold freeHeader
      omega
    · exact absurd rfl other
    · obtain ⟨low, high⟩ := fills.inside member'
      unfold Block.stop at high
      omega
    · obtain ⟨low, high⟩ := fills.inside member
      unfold freeHeader
      unfold Block.stop at high
      omega
    · obtain ⟨low, high⟩ := fills.inside member
      unfold Block.stop at high
      omega
    · have different : b ≠ c := fun same => other (congrArg Block.addr same)
      have between := fills.apart member member' different
      unfold Block.stop at between
      omega

/-- The headers include those of the blocks, of the tail and of the free list. -/
structure Covers (G : Grid P) (bs : List Block) (order : List Nat) : Prop where
  header : G.node (freeHeader P.heap)
  tail : G.node P.tail
  blocks : ∀ b ∈ bs, G.node b.addr
  order : ∀ a ∈ order, G.node a

theorem Fills.covers (fills : Fills P bs) (listed : ∀ a ∈ order, ∃ b ∈ bs, b.addr = a) :
    Covers fills.grid bs order :=
  ⟨Or.inl rfl, Or.inr (Or.inl rfl), fun b member => Or.inr (Or.inr ⟨b, member, rfl⟩),
    fun a member => Or.inr (Or.inr (listed a member))⟩

theorem Covers.remove {pre post : List Nat} {y : Nat} (covers : Covers G bs (pre ++ y :: post)) :
    Covers G bs (pre ++ post) :=
  ⟨covers.header, covers.tail, covers.blocks, fun a there => covers.order a (by
    simp only [List.mem_append, List.mem_cons] at there ⊢
    tauto)⟩

theorem Covers.cons {y : Nat} (covers : Covers G bs order) (node : G.node y) :
    Covers G bs (y :: order) :=
  ⟨covers.header, covers.tail, covers.blocks, List.forall_mem_cons.mpr ⟨node, covers.order⟩⟩

/-- The mark of a header. -/
def magicOf (used : Bool) : Nat := if used then magicUsed else magicFreed

theorem magicOf_odd (used : Bool) : magicOf used &&& 1 ≠ 0 ↔ used = true := by
  cases used <;> decide

/-- The memory spells the blocks in the ring of the tail and some headers in the ring of the free
list, and every header is marked. -/
structure Spells (P : Pool) (m : Mem) (bs : List Block) (order : List Nat) : Prop where
  blocks : BlockRing m P.tail (bs.map Block.addr)
  frees : FreeRing m (freeHeader P.heap) order
  marks : ∀ b ∈ bs, get m b.addr .magic = magicOf b.used
  tailMark : get m P.tail .magic = magicUsed
  pools : ∀ b ∈ bs, get m b.addr .poolPtr = P.heap
  freeList : field m P.heap .freeList = freeHeader P.heap
  poolSize : field m P.heap .poolSize = P.poolSize

/-- All the members. -/
abbrev anyMember : List Member := [.magic, .poolPtr, .next, .prev, .nextFree, .prevFree]

theorem mem_anyMember (F : List Member) : F ⊆ anyMember := by
  intro f _
  cases f <;> decide

namespace Spells

theorem node (covers : Covers G bs order) {a : Nat} (member : a ∈ P.tail :: bs.map Block.addr) :
    G.node a := by
  rcases List.mem_cons.mp member with rfl | there
  · exact covers.tail
  · obtain ⟨b, inside, rfl⟩ := List.mem_map.mp there
    exact covers.blocks b inside

theorem freeNode (covers : Covers G bs order) {a : Nat} (member : a ∈ freeHeader P.heap :: order) :
    G.node a := by
  rcases List.mem_cons.mp member with rfl | there
  · exact covers.header
  · exact covers.order a there

private theorem relinked (spells : Spells P m bs order) (covers : Covers G bs order)
    {order' : List Nat}
    (frame : Frame G [.next, .prev, .nextFree, .prevFree] [.availableSize, .maxUsedSize] m m')
    (same : ∀ c ∈ l, ∃ b ∈ bs, b.addr = c.addr ∧ b.used = c.used)
    (blocks : BlockRing m' P.tail (l.map Block.addr))
    (frees : FreeRing m' (freeHeader P.heap) order') : Spells P m' l order' where
  blocks := blocks
  frees := frees
  marks c member := by
    obtain ⟨b, there, addr, used⟩ := same c member
    rw [← addr, ← used, ← spells.marks b there]
    exact frame.members _ (covers.blocks b there) .magic (by decide)
  tailMark := (frame.members _ covers.tail .magic (by decide)).trans spells.tailMark
  pools c member := by
    obtain ⟨b, there, addr, -⟩ := same c member
    rw [← addr, ← spells.pools b there]
    exact frame.members _ (covers.blocks b there) .poolPtr (by decide)
  freeList := (frame.entries .freeList (by decide)).trans spells.freeList
  poolSize := (frame.entries .poolSize (by decide)).trans spells.poolSize

theorem setFrees (spells : Spells P m bs order) (covers : Covers G bs order) {order' : List Nat}
    (frame : Frame G [.nextFree, .prevFree] [] m m')
    (frees : FreeRing m' (freeHeader P.heap) order') : Spells P m' bs order' :=
  spells.relinked covers (frame.mono (by simp) (by simp)) (fun c there => ⟨c, there, rfl, rfl⟩)
    (spells.blocks.frame (fun _ member => node covers member) frame (by decide) (by decide)) frees

/-- A header leaves the free list. -/
theorem removeFree {y : Nat} (spells : Spells P m bs (pre ++ y :: post))
    (covers : Covers G bs (pre ++ y :: post)) :
    Spells P (removeFree m y) bs (pre ++ post) ∧ Frame G anyMember [] m (removeFree m y) := by
  have member : y ∈ pre ++ y :: post := by simp
  have ny := covers.order y member
  have behind := freeNode covers (spells.frees.next_mem (List.mem_cons_of_mem _ member))
  have before := freeNode covers (spells.frees.prev_mem member)
  have frame := frame_removeFree ny behind before
  have gone : Gone G .nextFree .prevFree m (Memheap.removeFree m y) y := by
    rw [removeFree_eq ny behind before]
    exact gone_of_sets (by decide) behind before
  refine ⟨spells.setFrees covers frame ?_, frame.mono (mem_anyMember _) (fun _ none => none)⟩
  exact spells.frees.gone rfl (fun _ here => freeNode covers here) gone

private theorem entersFree {y : Nat} (spells : Spells P m bs order) (covers : Covers G bs order)
    (ny : G.node y) (new : y ∉ freeHeader P.heap :: order)
    (frame : Frame G [.nextFree, .prevFree] [] m m')
    (entered : Entered G .nextFree .prevFree m m' (freeHeader P.heap) y) :
    Spells P m' bs (y :: order) := by
  refine spells.setFrees covers frame ?_
  refine spells.frees.entered (s := []) rfl rfl (fun a member => ?_) new entered
  rcases List.mem_cons.mp member with rfl | there
  · exact covers.header
  rcases List.mem_cons.mp there with rfl | there
  · exact ny
  · exact covers.order a there

theorem insertFree {y : Nat} (spells : Spells P m bs order) (covers : Covers G bs order)
    (ny : G.node y) (new : y ∉ freeHeader P.heap :: order) :
    Spells P (insertFree m P.heap y) bs (y :: order) ∧
      Frame G anyMember [] m (insertFree m P.heap y) := by
  have behind := freeNode covers (spells.frees.next_mem List.mem_cons_self)
  have other : freeHeader P.heap ≠ y := fun same => new (same ▸ List.mem_cons_self)
  have frame := frame_insertFree spells.freeList covers.header ny behind other
  refine ⟨spells.entersFree covers ny new frame ?_,
    frame.mono (mem_anyMember _) (fun _ none => none)⟩
  exact entered_insertFree spells.freeList covers.header ny behind other

theorem putBack {y : Nat} (spells : Spells P m bs order) (covers : Covers G bs order)
    (ny : G.node y) (new : y ∉ freeHeader P.heap :: order) :
    Spells P (putBack m P.heap y) bs (y :: order) ∧
      Frame G anyMember [] m (putBack m P.heap y) := by
  have behind := freeNode covers (spells.frees.next_mem List.mem_cons_self)
  have back := spells.frees.prev_next List.mem_cons_self
  have frame := frame_putBack spells.freeList covers.header ny behind back
  refine ⟨spells.entersFree covers ny new frame ?_,
    frame.mono (mem_anyMember _) (fun _ none => none)⟩
  exact entered_putBack spells.freeList covers.header ny behind back

theorem clearFree {y : Nat} (spells : Spells P m bs order) (covers : Covers G bs order)
    (ny : G.node y) (new : y ∉ freeHeader P.heap :: order) :
    Spells P (clearFree m y) bs order ∧ Frame G anyMember [] m (clearFree m y) := by
  have frame : Frame G [.nextFree, .prevFree] [] m (Memheap.clearFree m y) :=
    (Frame.set m ny (by decide) (by decide)).trans (Frame.set _ ny (by decide) (by decide))
  have kept {a : Nat} (member : a ∈ freeHeader P.heap :: order) (f : Member) :
      get (Memheap.clearFree m y) a f = get m a f := by
    have node := freeNode covers member
    have other : a ≠ y := fun same => new (same ▸ member)
    rw [Memheap.clearFree, get_set ny node (by decide), if_neg (by simp [other]),
      get_set ny node (by decide), if_neg (by simp [other])]
  refine ⟨spells.setFrees covers frame ?_, frame.mono (mem_anyMember _) (fun _ none => none)⟩
  exact Ring.congr spells.frees (fun a member => kept member .nextFree)
    fun a member => kept member .prevFree

theorem setBlocks (spells : Spells P m bs order) (covers : Covers G bs order)
    (frame : Frame G [.next, .prev] [] m m')
    (same : ∀ c ∈ l, ∃ b ∈ bs, b.addr = c.addr ∧ b.used = c.used)
    (blocks : BlockRing m' P.tail (l.map Block.addr)) : Spells P m' l order :=
  spells.relinked covers (frame.mono (by simp) (by simp)) same blocks
    (spells.frees.frame (fun _ member => freeNode covers member) frame (by decide) (by decide))

/-- A block is taken in by the one before it. -/
theorem merge (spells : Spells P m (l ++ b :: c :: l') order)
    (covers : Covers G (l ++ b :: c :: l') order) (addr : n.addr = b.addr) (used : n.used = b.used)
    (frame : Frame G [.next, .prev] [] m m') (gone : Gone G .next .prev m m' c.addr) :
    Spells P m' (l ++ n :: l') order := by
  refine spells.setBlocks covers frame (fun d member => ?_) ?_
  · rcases List.mem_append.mp member with front | back
    · exact ⟨d, by simp [front], rfl, rfl⟩
    · rcases List.mem_cons.mp back with rfl | back
      · exact ⟨b, by simp, addr.symm, used.symm⟩
      · exact ⟨d, by simp [back], rfl, rfl⟩
  · have ring := LinkRing.gone (s := l.map Block.addr ++ [b.addr]) (t := l'.map Block.addr)
      spells.blocks (by simp) (fun a member => node covers member) gone
    have row : l.map Block.addr ++ [b.addr] ++ l'.map Block.addr =
        (l ++ n :: l').map Block.addr := by
      simp [addr]
    rwa [row] at ring

/-- A block is cut in two, and the second one is free. -/
theorem cut (spells : Spells P m (l ++ b :: l') order)
    (covers : Covers G (l ++ c :: n :: l') order) (addr : c.addr = b.addr) (used : c.used = b.used)
    (freed : n.used = false) (new : n.addr ∉ P.tail :: (l ++ b :: l').map Block.addr) :
    Spells P (breakDown (newItem m P.heap n.addr) b.addr n.addr) (l ++ c :: n :: l') order ∧
      Frame G anyMember [] m (breakDown (newItem m P.heap n.addr) b.addr n.addr) := by
  have old {d : Block} (member : d ∈ l ++ b :: l') : G.node d.addr := by
    rcases List.mem_append.mp member with front | back
    · exact covers.blocks d (by simp [front])
    · rcases List.mem_cons.mp back with rfl | back
      · exact addr ▸ covers.blocks c (by simp)
      · exact covers.blocks d (by simp [back])
  have before : Covers G (l ++ b :: l') order :=
    ⟨covers.header, covers.tail, fun d member => old member, covers.order⟩
  have nb : G.node b.addr := old (by simp)
  have nn : G.node n.addr := covers.blocks n (by simp)
  have other {d : Block} (member : d ∈ l ++ b :: l') : d.addr ≠ n.addr := by
    intro same
    exact new (List.mem_cons_of_mem _ (List.mem_map.mpr ⟨d, member, same⟩))
  have tail : P.tail ≠ n.addr := fun same => new (same ▸ List.mem_cons_self)
  have marked := frame_newItem m nn
  have ring := spells.blocks.frame (fun _ member => node before member) marked (by decide) (by decide)
  have behind : G.node (get (newItem m P.heap n.addr) b.addr .next) :=
    node before (ring.next_mem (by simp))
  have linked := frame_breakDown nb nn behind (other (by simp))
  have magic {a : Nat} (na : G.node a) := (linked.members a na .magic (by decide)).trans
    (get_newItem nn na).1
  have pool {a : Nat} (na : G.node a) := (linked.members a na .poolPtr (by decide)).trans
    (get_newItem nn na).2
  have kept {d : Block} (member : d ∈ l ++ b :: l') :
      get (Memheap.breakDown (newItem m P.heap n.addr) b.addr n.addr) d.addr .magic =
        magicOf d.used ∧
      get (Memheap.breakDown (newItem m P.heap n.addr) b.addr n.addr) d.addr .poolPtr =
        P.heap := by
    rw [magic (old member), pool (old member), if_neg (other member), if_neg (other member)]
    exact ⟨spells.marks d member, spells.pools d member⟩
  have made (d : Block) (member : d ∈ l ++ c :: n :: l') :
      get (Memheap.breakDown (newItem m P.heap n.addr) b.addr n.addr) d.addr .magic =
        magicOf d.used ∧
      get (Memheap.breakDown (newItem m P.heap n.addr) b.addr n.addr) d.addr .poolPtr =
        P.heap := by
    rcases List.mem_append.mp member with front | back
    · exact kept (by simp [front])
    rcases List.mem_cons.mp back with rfl | back
    · rw [addr, used]
      exact kept (by simp)
    rcases List.mem_cons.mp back with rfl | back
    · rw [magic nn, pool nn, if_pos rfl, if_pos rfl, freed]
      exact ⟨rfl, rfl⟩
    · exact kept (by simp [back])
  refine ⟨⟨?_, ?_, fun d member => (made d member).1, ?_, fun d member => (made d member).2, ?_, ?_⟩,
    (marked.mono (mem_anyMember _) (fun _ none => none)).trans
      (linked.mono (mem_anyMember _) (fun _ none => none))⟩
  · have row : P.tail :: (l ++ c :: n :: l').map Block.addr =
        (P.tail :: l.map Block.addr) ++ b.addr :: n.addr :: l'.map Block.addr := by
      simp [addr]
    refine ring.entered (s := P.tail :: l.map Block.addr) (t := l'.map Block.addr) (by simp)
      row (fun _ member => node covers member) new ?_
    exact entered_breakDown nb nn behind (other (by simp))
  · have frees := spells.frees.frame (fun _ member => freeNode covers member) marked
      (by decide) (by decide)
    exact frees.frame (fun _ member => freeNode covers member) linked (by decide) (by decide)
  · rw [magic covers.tail, if_neg tail, spells.tailMark]
  · exact ((linked.entries .freeList (by decide)).trans
      (marked.entries .freeList (by decide))).trans spells.freeList
  · exact ((linked.entries .poolSize (by decide)).trans
      (marked.entries .poolSize (by decide))).trans spells.poolSize

/-- A block is marked. -/
theorem mark (spells : Spells P m (l ++ b :: l') order) (covers : Covers G (l ++ b :: l') order)
    (addr : c.addr = b.addr) :
    Spells P (set m b.addr .magic (magicOf c.used)) (l ++ c :: l') order ∧
      Frame G anyMember [] m (set m b.addr .magic (magicOf c.used)) := by
  have nb : G.node b.addr := covers.blocks b (by simp)
  have small : magicOf c.used < 4294967296 := by
    unfold magicOf
    split <;> decide
  have frame : Frame G [.magic] [] m (set m b.addr .magic (magicOf c.used)) :=
    Frame.set m nb small (by decide)
  have nodup := spells.blocks.nodup
  have row : (l ++ c :: l').map Block.addr = (l ++ b :: l').map Block.addr := by simp [addr]
  have member : b ∈ l ++ b :: l' := by simp
  have kept {d : Block} (here : d ∈ l ++ b :: l') (other : d.addr ≠ b.addr) :
      get (set m b.addr .magic (magicOf c.used)) d.addr .magic = magicOf d.used := by
    rw [get_set nb (covers.blocks d here) small, if_neg (by simp [other]), spells.marks d here]
  have pool {d : Block} (here : d ∈ l ++ b :: l') :
      get (set m b.addr .magic (magicOf c.used)) d.addr .poolPtr = P.heap := by
    rw [frame.members _ (covers.blocks d here) .poolPtr (by decide), spells.pools d here]
  refine ⟨⟨?_, ?_, fun d here => ?_, ?_, fun d here => ?_, ?_, ?_⟩,
    frame.mono (mem_anyMember _) (fun _ none => none)⟩
  · rw [row]
    exact spells.blocks.frame (fun _ there => node covers there) frame (by decide) (by decide)
  · exact spells.frees.frame (fun _ there => freeNode covers there) frame (by decide) (by decide)
  · rw [List.map_append, List.map_cons] at nodup
    rcases List.mem_append.mp here with front | back
    · refine kept (by simp [front]) ?_
      have there : d.addr ∈ l.map Block.addr := List.mem_map_of_mem front
      grind
    rcases List.mem_cons.mp back with rfl | back
    · rw [addr, get_set nb nb small, if_pos ⟨rfl, rfl⟩]
    · refine kept (by simp [back]) ?_
      have there : d.addr ∈ l'.map Block.addr := List.mem_map_of_mem back
      grind
  · have other : P.tail ≠ b.addr := by
      have there : b.addr ∈ (l ++ b :: l').map Block.addr := List.mem_map_of_mem member
      grind
    rw [get_set nb covers.tail small, if_neg (by simp [other]), spells.tailMark]
  · rcases List.mem_append.mp here with front | back
    · exact pool (by simp [front])
    rcases List.mem_cons.mp back with rfl | back
    · rw [addr]
      exact pool member
    · exact pool (by simp [back])
  · exact (frame.entries .freeList (by decide)).trans spells.freeList
  · exact (frame.entries .poolSize (by decide)).trans spells.poolSize

theorem counters (spells : Spells P m bs order) (covers : Covers G bs order)
    (frame : Frame G [] [.availableSize, .maxUsedSize] m m') : Spells P m' bs order :=
  spells.relinked covers (frame.mono (by simp) (by simp)) (fun c there => ⟨c, there, rfl, rfl⟩)
    (spells.blocks.frame (fun _ member => node covers member) frame (by decide) (by decide))
    (spells.frees.frame (fun _ member => freeNode covers member) frame (by decide) (by decide))

end Spells

end T113Boot.Heap.Threads
