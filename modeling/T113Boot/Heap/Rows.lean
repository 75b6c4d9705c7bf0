/- Module: T113Boot/Heap/Rows
   layer: specification
   digest: Rows of blocks that fill a pool, the memory that represents one, and what is read of it. -/

import Mathlib.Algebra.GroupWithZero.Nat
import T113Boot.Heap.Threads

set_option autoImplicit false
set_option relaxedAutoImplicit false

namespace T113Boot.Heap.Rows

open T113Boot.Lib.Cells
open T113Boot.Lib.Rings
open T113Boot.Lib.Tilings
open T113Boot.Heap.Memheap
open T113Boot.Heap.Headers
open T113Boot.Heap.Links
open T113Boot.Heap.Threads

theorem add32_eq {a b : Nat} (small : a + b < 4294967296) : add32 a b = a + b :=
  Nat.mod_eq_of_lt small

theorem sub32_eq {a b : Nat} (le : b ≤ a) (small : a < 4294967296) : sub32 a b = a - b := by
  unfold sub32
  omega

variable {P : Pool} {G : Grid P} {m m' m₀ : Mem} {b c : Block} {bs bs' l l' : List Block}
  {order order' : List Nat} {available maxUsed : Nat}

theorem mem_without {pre post : List Nat} {a y : Nat} (distinct : (pre ++ y :: post).Nodup) :
    a ∈ pre ++ post ↔ a ∈ pre ++ y :: post ∧ a ≠ y := by
  grind

/-- No two blocks that follow each other are free. -/
def Coalesced (bs : List Block) : Prop := bs.IsChain fun b c => b.used = true ∨ c.used = true

theorem coalesced_middle : Coalesced (l ++ b :: l') ↔ Coalesced l ∧ Coalesced l' ∧
    (∀ a ∈ l.getLast?, a.used = true ∨ b.used = true) ∧
      ∀ c ∈ l'.head?, b.used = true ∨ c.used = true := by
  unfold Coalesced
  rw [List.isChain_append, List.isChain_cons]
  constructor
  · rintro ⟨front, ⟨behind, back⟩, before⟩
    exact ⟨front, back, fun a last => before a last b rfl, behind⟩
  · rintro ⟨front, back, before, behind⟩
    refine ⟨front, ⟨behind, back⟩, fun a last c first => ?_⟩
    cases first
    exact before a last

/-- Two free blocks do not follow each other. -/
theorem Coalesced.used_behind (merged : Coalesced (l ++ b :: l')) (free : b.used = false) :
    ∀ c ∈ l'.head?, c.used = true := by
  intro c first
  have either := (coalesced_middle.mp merged).2.2.2 c first
  rw [free] at either
  simpa using either

/-- The bytes in a free block. -/
def Block.spare (b : Block) : Nat := if b.used then 0 else b.size

/-- The bytes in the free blocks. -/
def spares (bs : List Block) : Nat := (bs.map Block.spare).sum

@[simp] theorem spares_cons : spares (b :: bs) = Block.spare b + spares bs := List.sum_cons

theorem spares_middle : spares (l ++ b :: l') = spares l + (Block.spare b + spares l') := by
  simp [spares]

/-- The free list has the headers of the free blocks. -/
def Listed (bs : List Block) (order : List Nat) : Prop :=
  ∀ a, a ∈ order ↔ ∃ b ∈ bs, b.used = false ∧ b.addr = a

/-- The blocks and the free list of a heap at rest. -/
structure Layout (P : Pool) where
  blocks : List Block
  order : List Nat
  fills : Fills P blocks
  shaped : ∀ b ∈ blocks, b.addr % 4 = 0 ∧ b.size % 4 = 0 ∧ 12 ≤ b.size
  coalesced : Coalesced blocks
  nodup : order.Nodup
  listed : Listed blocks order

/-- What is in the blocks is the same. -/
def Kept (bs : List Block) (m m' : Mem) : Prop := ∀ b ∈ bs, AgreeOn m' m b.ptr b.size

/-- The memory holds the blocks and the free list, and the counters are right. -/
structure Represents (m : Mem) (L : Layout P) : Prop where
  spells : Spells P m L.blocks L.order
  available : field m P.heap .availableSize = spares L.blocks
  maxUsed : P.poolSize ≤ spares L.blocks + field m P.heap .maxUsedSize
  capped : field m P.heap .maxUsedSize ≤ P.poolSize

/-- Different blocks have different headers. -/
theorem Fills.nodup (fills : Fills P bs) : (bs.map Block.addr).Nodup := by
  rw [List.Nodup, List.pairwise_map]
  refine (Tiles.sorted Block.forward fills).imp fun {b c} before => ?_
  unfold Block.stop at before
  omega

theorem Fills.ne_freeHeader (fills : Fills P bs) (member : b ∈ bs) :
    b.addr ≠ freeHeader P.heap := by
  have inside := fills.inside member
  have tail := P.tail_add
  have apart := P.apart_stop
  unfold Block.stop at inside
  unfold freeHeader
  omega

theorem Fills.no_header (fills : Fills P bs) (member : b ∈ bs) {a : Nat} (low : b.addr < a)
    (high : a < b.stop) : a ≠ freeHeader P.heap ∧ a ≠ P.tail ∧ ∀ c ∈ bs, c.addr ≠ a := by
  have inside := fills.inside member
  have tail := P.tail_add
  have apart := P.apart_stop
  unfold freeHeader
  refine ⟨by omega, by omega, fun c there same => ?_⟩
  by_cases here : b = c
  · subst here
    omega
  · have between := fills.apart member there here
    unfold Block.stop at between high
    omega

theorem Fills.apart_of_inside (fills : Fills P bs) {x : Nat} (member : b ∈ bs) (low : b.ptr ≤ x)
    (high : x < b.ptr + b.size) : (∀ a, fills.grid.node a → x < a ∨ a + 24 ≤ x) ∧
      (x < P.heap ∨ P.heap + 52 ≤ x) := by
  have inside := fills.inside member
  have tail := P.tail_add
  have apart := P.apart_stop
  unfold Block.ptr at low high
  unfold Block.stop at inside
  refine ⟨fun a node => ?_, by omega⟩
  rcases node with rfl | rfl | ⟨c, there, rfl⟩
  · unfold freeHeader
    omega
  · omega
  · by_cases same : b = c
    · subst same
      omega
    · have between := fills.apart member there same
      unfold Block.stop at between
      omega

/-- Different blocks share no bytes. -/
theorem Fills.disjoint (fills : Fills P bs) (first : b ∈ bs) (second : c ∈ bs) (other : b ≠ c) :
    b.ptr + b.size ≤ c.ptr ∨ c.ptr + c.size ≤ b.ptr := by
  have apart := fills.apart first second other
  unfold Block.stop at apart
  unfold Block.ptr
  omega

theorem Listed.replace {mid mid' : List Block} (listed : Listed (l ++ (mid ++ l')) order)
    (nodup : ((l ++ (mid ++ l')).map Block.addr).Nodup)
    (same : ∀ a, a ∈ order' ↔ (a ∈ order ∧ a ∉ mid.map Block.addr) ∨
      ∃ b ∈ mid', b.used = false ∧ b.addr = a) : Listed (l ++ (mid' ++ l')) order' := by
  intro a
  rw [same a]
  simp only [List.map_append] at nodup
  constructor
  · rintro (⟨old, other⟩ | ⟨b, member, free, rfl⟩)
    · obtain ⟨b, member, free, rfl⟩ := (listed a).mp old
      refine ⟨b, ?_, free, rfl⟩
      have apart : b ∉ mid := fun here => other (List.mem_map_of_mem here)
      simp only [List.mem_append] at member ⊢
      tauto
    · exact ⟨b, by simp [member], free, rfl⟩
  · rintro ⟨b, member, free, rfl⟩
    by_cases new : b ∈ mid'
    · exact Or.inr ⟨b, new, free, rfl⟩
    · have outer : b ∈ l ∨ b ∈ l' := by
        simp only [List.mem_append] at member
        tauto
      refine Or.inl ⟨(listed _).mpr ⟨b, ?_, free, rfl⟩, ?_⟩
      · simp only [List.mem_append]
        tauto
      · rcases outer with front | back
        · have there : b.addr ∈ l.map Block.addr := List.mem_map_of_mem front
          grind
        · have there : b.addr ∈ l'.map Block.addr := List.mem_map_of_mem back
          grind

namespace Layout

variable (L : Layout P)

/-- Some blocks in a row are replaced by others in their place. -/
def replace {s t : List Block} {o : List Nat} (row : L.blocks = l ++ (s ++ l'))
    (tiles : ∀ lo hi, Tiles Block.addr Block.stop lo s hi → Tiles Block.addr Block.stop lo t hi)
    (shaped : ∀ b ∈ t, b.addr % 4 = 0 ∧ b.size % 4 = 0 ∧ 12 ≤ b.size)
    (coalesced : Coalesced (l ++ (t ++ l'))) (nodup : o.Nodup)
    (same : ∀ a, a ∈ o ↔ (a ∈ L.order ∧ a ∉ s.map Block.addr) ∨
      ∃ b ∈ t, b.used = false ∧ b.addr = a) : Layout P where
  blocks := l ++ (t ++ l')
  order := o
  fills := by
    have old : Tiles Block.addr Block.stop P.start L.blocks P.tail := L.fills
    rw [row, tiles_append] at old
    obtain ⟨lo, front, rest⟩ := old
    obtain ⟨hi, here, back⟩ := tiles_append.mp rest
    exact tiles_append.mpr ⟨lo, front, tiles_append.mpr ⟨hi, tiles lo hi here, back⟩⟩
  shaped b member := by
    have old := L.shaped b
    rw [row] at old
    simp only [List.mem_append] at member old
    rcases member with front | here | back
    · exact old (Or.inl front)
    · exact shaped b here
    · exact old (Or.inr (Or.inr back))
  coalesced := coalesced
  nodup := nodup
  listed := by
    have old := L.listed
    have apart := Fills.nodup L.fills
    rw [row] at old apart
    exact old.replace apart same

theorem covers : Covers L.fills.grid L.blocks L.order :=
  L.fills.covers fun a member => by
    obtain ⟨b, there, -, addr⟩ := (L.listed a).mp member
    exact ⟨b, there, addr⟩

theorem covers_same (same : bs.map Block.addr = L.blocks.map Block.addr)
    (listed : ∀ a ∈ order, a ∈ bs.map Block.addr) : Covers L.fills.grid bs order := by
  have node {a : Nat} (there : a ∈ bs.map Block.addr) : L.fills.grid.node a := by
    rw [same] at there
    obtain ⟨b, member, addr⟩ := List.mem_map.mp there
    exact Or.inr (Or.inr ⟨b, member, addr⟩)
  exact ⟨Or.inl rfl, Or.inr (Or.inl rfl), fun c member => node (List.mem_map_of_mem member),
    fun a member => node (listed a member)⟩

theorem covers_of (more : ∀ c ∈ bs, ∃ b ∈ L.blocks, b.addr = c.addr)
    (listed : ∀ a ∈ order, ∃ b ∈ L.blocks, b.addr = a) : Covers L.fills.grid bs order :=
  ⟨Or.inl rfl, Or.inr (Or.inl rfl), fun c member => Or.inr (Or.inr (more c member)),
    fun a member => Or.inr (Or.inr (listed a member))⟩

/-- The headers of a row include those of the one before, where only new ones came. -/
theorem covers_before {L' : Layout P} {s t : List Block} (row : L.blocks = l ++ (s ++ l'))
    (row' : L'.blocks = l ++ (t ++ l')) (more : ∀ c ∈ s, ∃ b ∈ t, b.addr = c.addr)
    (listed : ∀ a ∈ order, a ∈ L.order) : Covers L'.fills.grid (l ++ (s ++ l')) order := by
  have headers (c : Block) (there : c ∈ l ++ (s ++ l')) : ∃ b ∈ L'.blocks, b.addr = c.addr := by
    rw [row']
    rcases List.mem_append.mp there with front | back
    · exact ⟨c, by simp [front], rfl⟩
    rcases List.mem_append.mp back with here | back
    · obtain ⟨b, member, addr⟩ := more c here
      exact ⟨b, by simp [member], addr⟩
    · exact ⟨c, by simp [back], rfl⟩
  refine L'.covers_of headers fun a there => ?_
  obtain ⟨c, here, -, rfl⟩ := (L.listed a).mp (listed a there)
  exact headers c (row ▸ here)

end Layout

/-- The free bytes and the headers of the blocks fit before the tail. -/
theorem Fills.spares_le (fills : Fills P bs) : P.start + spares bs + 24 * bs.length ≤ P.tail := by
  have sum {lo : Nat} (tiles : Tiles Block.addr Block.stop lo bs P.tail) :
      lo + spares bs + 24 * bs.length ≤ P.tail := by
    clear fills
    induction bs generalizing lo with
    | nil =>
      have here : lo = P.tail := tiles
      simp [spares, here]
    | cons b bs ih =>
      have behind := ih tiles.2
      have first : b.addr = lo := tiles.1
      have small : Block.spare b ≤ b.size := by
        unfold Block.spare
        split <;> omega
      rw [spares_cons, List.length_cons]
      unfold Block.stop at behind
      omega
  exact sum fills

/-- The header that a call finds before the pointer of an owner. -/
theorem Fills.header_eq (fills : Fills P bs) (member : b ∈ bs) :
    sub32 b.ptr headerSize = b.addr := by
  have within := fills.inside member
  have tail := P.tail_add
  have top := P.stop_le
  unfold Block.stop at within
  unfold Block.ptr headerSize
  rw [sub32_eq (by omega) (by omega)]
  omega

/-- What a call does for the owners of the blocks: one may go, one may come, and the others stay as
they are. The maximum never falls. -/
structure Exchanged (m m' : Mem) (L L' : Layout P) (gone come : Option Block) : Prop where
  rep : Represents m' L'
  held : ∀ d, d ∈ L'.blocks ∧ d.used = true ↔
    d ∈ come ∨ d ∈ L.blocks ∧ d.used = true ∧ d ∉ gone
  fresh : ∀ d ∈ L.blocks, d.used = true → d ∉ gone → d ∉ come
  others : ∀ d ∈ L.blocks, d.used = true → d ∉ gone → AgreeOn m' m d.ptr d.size
  peak : field m P.heap .maxUsedSize ≤ field m' P.heap .maxUsedSize

theorem fresh_at {L : Layout P} (member : b ∈ L.blocks) (addr : c.addr = b.addr) (d : Block)
    (there : d ∈ L.blocks) (other : d ∉ some b) : d ∉ some c := by
  intro same
  obtain rfl : c = d := Option.some.inj same
  exact other (congrArg some
    (List.inj_on_of_nodup_map (Fills.nodup L.fills) there member addr).symm)

theorem Fills.addr_ne (fills : Fills P bs) (split : bs = l ++ c :: l') (member : b ∈ l ++ l') :
    b.addr ≠ c.addr := by
  have addrs := Fills.nodup fills
  have listed : b.addr ∈ (l ++ l').map Block.addr := List.mem_map_of_mem member
  rw [split] at addrs
  simp only [List.map_append, List.map_cons] at addrs listed
  grind

theorem held_iff {L : Layout P} (row : L.blocks = l ++ b :: l') {come : Option Block}
    (filtered : bs.filter Block.used =
      l.filter Block.used ++ (come.toList ++ l'.filter Block.used)) (d : Block) :
    d ∈ bs ∧ d.used = true ↔ d ∈ come ∨ d ∈ L.blocks ∧ d.used = true ∧ d ∉ some b := by
  have addrs := Fills.nodup L.fills
  rw [row] at addrs
  have nodup : (l ++ b :: l').Nodup := List.Nodup.of_map _ addrs
  rw [← List.mem_filter, filtered, row]
  simp only [List.mem_append, List.mem_filter, List.mem_cons, Option.mem_toList, Option.mem_def]
  grind

theorem mem_addrs {a : Nat} {L : Layout P} (row : L.blocks = l ++ b :: l') (listed : a ∈ L.order) :
    a ∈ (l ++ b :: l').map Block.addr := by
  obtain ⟨c, there, -, rfl⟩ := (L.listed a).mp listed
  rw [row] at there
  exact List.mem_map_of_mem there

/-- The owner of a block can write all of it. -/
theorem Represents.write {L : Layout P} (rep : Represents m L) (member : b ∈ L.blocks)
    (outside : ∀ x, x < b.ptr ∨ b.ptr + b.size ≤ x → m' x = m x) :
    Represents m' L ∧ ∀ e, field m' P.heap e = field m P.heap e := by
  have covers := L.covers
  have away {x : Nat} (header : (∃ a, L.fills.grid.node a ∧ a ≤ x ∧ x < a + 24) ∨
      (P.heap ≤ x ∧ x < P.heap + 52)) : m' x = m x := by
    by_cases low : b.ptr ≤ x
    · by_cases high : x < b.ptr + b.size
      · obtain ⟨apart, other⟩ := Fills.apart_of_inside L.fills member low high
        rcases header with ⟨a, node, here⟩ | here
        · have beside := apart a node
          omega
        · omega
      · exact outside x (Or.inr (by omega))
    · exact outside x (Or.inl (by omega))
  have members {a : Nat} (node : L.fills.grid.node a) (f : Member) : get m' a f = get m a f := by
    have inside := offset_le f
    exact load_congr fun x low high => away (Or.inl ⟨a, node, by omega, by omega⟩)
  have entries (e : Entry) : field m' P.heap e = field m P.heap e := by
    have inside := entry_le e
    exact load_congr fun x low high => away (Or.inr ⟨by omega, by omega⟩)
  have spells := rep.spells
  refine ⟨⟨⟨?_, ?_, fun c there => ?_, ?_, fun c there => ?_, ?_, ?_⟩, ?_, ?_, ?_⟩, entries⟩
  · exact Ring.congr spells.blocks (fun a there => members (Spells.node covers there) .next)
      fun a there => members (Spells.node covers there) .prev
  · exact Ring.congr spells.frees (fun a there => members (Spells.freeNode covers there) .nextFree)
      fun a there => members (Spells.freeNode covers there) .prevFree
  · rw [members (covers.blocks c there), spells.marks c there]
  · rw [members covers.tail, spells.tailMark]
  · rw [members (covers.blocks c there), spells.pools c there]
  · rw [entries, spells.freeList]
  · rw [entries, spells.poolSize]
  · rw [entries, rep.available]
  · rw [entries]
    exact rep.maxUsed
  · rw [entries]
    exact rep.capped

section Reading

variable (spells : Spells P m bs order) (fills : Fills P bs)

include spells

theorem isUsed_iff (member : b ∈ bs) : isUsed m b.addr ↔ b.used = true := by
  rw [isUsed, spells.marks b member, magicOf_odd]

theorem isUsed_tail : isUsed m P.tail := by
  rw [isUsed, spells.tailMark]
  decide

theorem isUsed_prev (split : bs = l ++ b :: l') :
    isUsed m (get m b.addr .prev) ↔ ∀ a ∈ l.getLast?, a.used = true := by
  have before := Ring.prev_eq (s := l.map Block.addr) (x := b.addr) (t := l'.map Block.addr)
    spells.blocks (by simp [split])
  rw [before]
  rcases List.eq_nil_or_concat' l with rfl | ⟨front, a, rfl⟩
  · exact iff_of_true (isUsed_tail spells) (by simp)
  · have member : a ∈ bs := by simp [split]
    simp [isUsed_iff spells member]

include fills

theorem next_eq (member : b ∈ bs) : get m b.addr .next = b.stop := by
  obtain ⟨l, l', split⟩ := List.append_of_mem member
  have behind := Ring.next_eq (s := P.tail :: l.map Block.addr) (x := b.addr)
    (t := l'.map Block.addr) spells.blocks (by simp [split])
  have tiles : Tiles Block.addr Block.stop P.start bs P.tail := fills
  rw [split, tiles_middle] at tiles
  rw [behind]
  cases l' with
  | nil => exact tiles.2.symm
  | cons c l' => exact tiles.2.1

theorem memitemSize_eq (member : b ∈ bs) : memitemSize m b.addr = b.size := by
  have inside := fills.inside member
  have tail := P.tail_add
  have top := P.stop_le
  unfold memitemSize headerSize
  rw [next_eq spells fills member]
  unfold Block.stop at inside ⊢
  unfold sub32
  omega

theorem mark_next (split : bs = l ++ b :: l') :
    get m (get m b.addr .next) .magic = magicOf (l'.head?.elim true Block.used) := by
  have tiles : Tiles Block.addr Block.stop P.start bs P.tail := fills
  rw [split, tiles_middle] at tiles
  rw [next_eq spells fills (b := b) (by simp [split])]
  cases l' with
  | nil =>
    have stop : b.stop = P.tail := tiles.2
    rw [stop]
    exact spells.tailMark
  | cons c l' =>
    have stop : c.addr = b.stop := tiles.2.1
    rw [← stop]
    exact spells.marks c (by simp [split])

theorem magicMasked_next (member : b ∈ bs) :
    magicMasked (get m (get m b.addr .next) .magic) = magicFreed := by
  obtain ⟨l, l', split⟩ := List.append_of_mem member
  rw [mark_next spells fills split]
  cases l'.head?.elim true Block.used <;> decide

theorem isUsed_next (split : bs = l ++ b :: l') :
    isUsed m (get m b.addr .next) ↔ ∀ c ∈ l'.head?, c.used = true := by
  rw [isUsed, mark_next spells fills split, magicOf_odd]
  cases l' <;> simp

end Reading

/-- What the pieces of code have done so far: the blocks, the free list and the counters now, and
all other memory as it was. -/
structure Reached (G : Grid P) (m₀ m : Mem) (bs : List Block) (order : List Nat)
    (available maxUsed : Nat) : Prop where
  spells : Spells P m bs order
  available_eq : field m P.heap .availableSize = available
  maxUsed_eq : field m P.heap .maxUsedSize = maxUsed
  bytes : ∀ x, (∀ a, G.node a → x < a ∨ a + 24 ≤ x) → (x < P.heap ∨ P.heap + 52 ≤ x) →
    m x = m₀ x

namespace Reached

theorem start (spells : Spells P m bs order) : Reached G m m bs order
    (field m P.heap .availableSize) (field m P.heap .maxUsedSize) :=
  ⟨spells, rfl, rfl, fun _ _ _ => rfl⟩

/-- A piece of code that leaves the counters. -/
theorem step (reached : Reached G m₀ m bs order available maxUsed)
    (piece : Spells P m' bs' order' ∧ Frame G anyMember [] m m') :
    Reached G m₀ m' bs' order' available maxUsed where
  spells := piece.1
  available_eq := (piece.2.entries _ (by decide)).trans reached.available_eq
  maxUsed_eq := (piece.2.entries _ (by decide)).trans reached.maxUsed_eq
  bytes x apart outside := (piece.2.bytes x apart outside).trans (reached.bytes x apart outside)

theorem setAvailable (reached : Reached G m₀ m bs order available maxUsed)
    (covers : Covers G bs order) {size : Nat} (small : size < 4294967296) :
    Reached G m₀ (setAvailable m P.heap size) bs order size maxUsed := by
  have frame : Frame G [] [.availableSize, .maxUsedSize] m (Memheap.setAvailable m P.heap size) :=
    Frame.setField m small (by decide)
  refine ⟨reached.spells.counters covers frame, ?_, ?_, fun x apart outside => ?_⟩
  · rw [Memheap.setAvailable, field_setField m P.heap small, if_pos rfl]
  · rw [Memheap.setAvailable, field_setField m P.heap small, if_neg (by decide), reached.maxUsed_eq]
  · exact (frame.bytes x apart outside).trans (reached.bytes x apart outside)

/-- The maximum is raised where more than it is used now. -/
theorem charge (reached : Reached G m₀ m bs order available maxUsed)
    (covers : Covers G bs order) {size : Nat} (inside : size ≤ P.poolSize) :
    Reached G m₀ (charge m P.heap size) bs order size (max maxUsed (P.poolSize - size)) := by
  have top := P.stop_le
  have tail := P.tail_add
  have small : size < 4294967296 := by
    have room := P.fits
    have le := P.poolSize_le
    have bound := P.size.toNat_lt
    omega
  have set : Reached G m₀ (Memheap.setAvailable m P.heap size) bs order size maxUsed :=
    reached.setAvailable covers small
  have used : sub32 (field (Memheap.setAvailable m P.heap size) P.heap .poolSize)
      (field (Memheap.setAvailable m P.heap size) P.heap .availableSize) = P.poolSize - size := by
    have bound := P.size.toNat_lt
    have le := P.poolSize_le
    rw [set.spells.poolSize, set.available_eq, sub32_eq inside (by omega)]
  have whole : Memheap.charge m P.heap size =
      if P.poolSize - size > maxUsed then
        setField (Memheap.setAvailable m P.heap size) P.heap .maxUsedSize (P.poolSize - size)
      else Memheap.setAvailable m P.heap size := by
    rw [← used, ← set.maxUsed_eq]
    rfl
  rw [whole]
  split
  next more =>
    have bound := P.size.toNat_lt
    have le := P.poolSize_le
    have fits : P.poolSize - size < 4294967296 := by omega
    have frame : Frame G [] [.availableSize, .maxUsedSize] (Memheap.setAvailable m P.heap size)
        (setField (Memheap.setAvailable m P.heap size) P.heap .maxUsedSize (P.poolSize - size)) :=
      Frame.setField _ fits (by decide)
    refine ⟨set.spells.counters covers frame, ?_, ?_, fun x apart outside => ?_⟩
    · rw [field_setField _ P.heap fits, if_neg (by decide), set.available_eq]
    · rw [field_setField _ P.heap fits, if_pos rfl]
      omega
    · exact (frame.bytes x apart outside).trans (set.bytes x apart outside)
  next less =>
    rw [Nat.max_eq_left (by omega)]
    exact set

theorem kept {fills : Fills P bs'} (reached : Reached fills.grid m₀ m bs order available maxUsed) :
    Kept bs' m₀ m := by
  intro b member x low high
  obtain ⟨apart, outside⟩ := Fills.apart_of_inside fills member low high
  exact reached.bytes x apart outside

/-- A block is cut in two, and the second one is not in the free list yet. -/
theorem cut (spells : Spells P m (l ++ b :: l') order) (fills : Fills P (l ++ b :: l'))
    (listed : ∀ a ∈ order, a ∈ (l ++ b :: l').map Block.addr) {size : Nat}
    (room : size + 24 ≤ b.size) {c n : Block} (first : c = ⟨b.addr, size, b.used⟩)
    (second : n = ⟨b.addr + 24 + size, b.size - size - 24, false⟩) :
    ∃ fills' : Fills P (l ++ c :: n :: l'), Covers fills'.grid (l ++ c :: n :: l') order ∧
      n.addr ∉ freeHeader P.heap :: order ∧
      Reached fills'.grid m (breakDown (newItem m P.heap n.addr) b.addr n.addr)
        (l ++ c :: n :: l') order (field m P.heap .availableSize)
        (field m P.heap .maxUsedSize) := by
  have tiles : Tiles Block.addr Block.stop P.start (l ++ b :: l') P.tail := fills
  rw [tiles_middle] at tiles
  have stop : n.stop = b.stop := by
    rw [second]
    unfold Block.stop
    simp only
    omega
  have between : c.stop = n.addr := by
    rw [first, second]
    rfl
  have addr : c.addr = b.addr := by rw [first]
  have fills' : Fills P (l ++ c :: n :: l') := by
    refine tiles_middle.mpr ⟨addr ▸ tiles.1, between.symm, ?_⟩
    rw [stop]
    exact tiles.2
  have place : n.addr = b.addr + 24 + size := by rw [second]
  obtain ⟨notHeader, notTail, fresh⟩ := Fills.no_header fills (b := b) (by simp)
    (a := n.addr) (by omega) (by unfold Block.stop; omega)
  have missing : n.addr ∉ (l ++ b :: l').map Block.addr := by
    intro there
    obtain ⟨d, member, same⟩ := List.mem_map.mp there
    exact fresh d member same
  have covers : Covers fills'.grid (l ++ c :: n :: l') order :=
    fills'.covers fun a there => by
      have old := listed a there
      have more : a ∈ (l ++ c :: n :: l').map Block.addr := by
        simp only [List.map_append, List.map_cons, List.mem_append, List.mem_cons, addr] at old ⊢
        tauto
      exact List.mem_map.mp more
  refine ⟨fills', covers, ?_, (start spells).step (spells.cut covers addr (by rw [first])
    (by rw [second]) ?_)⟩
  · intro there
    rcases List.mem_cons.mp there with same | there
    · exact notHeader same
    · exact missing (listed _ there)
  · intro there
    rcases List.mem_cons.mp there with same | there
    · exact notTail same
    · exact missing there

theorem represents {L : Layout P}
    (reached : Reached G m₀ m L.blocks L.order available maxUsed)
    (exact_ : available = spares L.blocks) (most : P.poolSize ≤ available + maxUsed)
    (capped : maxUsed ≤ P.poolSize) : Represents m L :=
  ⟨reached.spells, reached.available_eq.trans exact_, by rw [reached.maxUsed_eq, ← exact_]; exact most,
    by rwa [reached.maxUsed_eq]⟩

end Reached

end T113Boot.Heap.Rows
