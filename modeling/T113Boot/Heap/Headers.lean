/- Module: T113Boot/Heap/Headers
   layer: specification
   digest: Headers that do not overlap: what a store in one leaves in the others, and the two rings. -/

import T113Boot.Heap.Memheap
import T113Boot.Lib.Rings

set_option autoImplicit false
set_option relaxedAutoImplicit false

namespace T113Boot.Heap.Headers

open T113Boot.Lib.Cells
open T113Boot.Lib.LittleEndian
open T113Boot.Lib.Moves
open T113Boot.Lib.Rings
open T113Boot.Heap.Memheap

section Words

variable {m m' : Mem} {a b v : Nat}

theorem load_put (m : Mem) (a : Nat) (small : v < 4294967296) : load (put m a v) a = v := by
  have back := wordAt_le32 (.ofNat v) []
  have there : slice (put m a v) a 4 = le32 (.ofNat v) := slice_store m a (le32 (.ofNat v))
  rw [List.append_nil] at back
  rw [load, there, back, UInt32.toNat_ofNat']
  exact Nat.mod_eq_of_lt small

theorem load_put_apart (m : Mem) (v : Nat) (apart : a + 4 ≤ b ∨ b + 4 ≤ a) :
    load (put m a v) b = load m b := by
  rw [load, put, slice_store_apart m (by rw [length_le32]; omega)]
  rfl

theorem put_apart (m : Mem) (v : Nat) (apart : b < a ∨ a + 4 ≤ b) : put m a v b = m b :=
  store_outside (by rw [length_le32]; omega)

theorem load_congr (same : AgreeOn m' m a 4) : load m' a = load m a := by
  rw [load, slice_congr same, load]

theorem offset_le (f : Member) : f.offset + 4 ≤ 24 := by cases f <;> decide

theorem offset_apart {f g : Member} (other : f ≠ g) :
    f.offset + 4 ≤ g.offset ∨ g.offset + 4 ≤ f.offset := by
  cases f <;> cases g <;> simp_all [Member.offset]

theorem entry_le (e : Entry) : e.offset + 4 ≤ 24 ∨ e.offset = 48 := by cases e <;> decide

theorem entry_apart {e e' : Entry} (other : e ≠ e') :
    e.offset + 4 ≤ e'.offset ∨ e'.offset + 4 ≤ e.offset := by
  cases e <;> cases e' <;> simp_all [Entry.offset]

end Words

/-- What is handed to `rt_memheap_init`: a `struct rt_memheap`, and memory apart from it that is
large enough for one block. -/
structure Pool where
  heap : Nat
  start : Nat
  size : UInt32
  nonnull : heap ≠ 0
  aligned : start % 4 = 0
  room : 60 ≤ size.toNat
  fits : start + size.toNat ≤ 4294967296
  heapFits : heap + 52 ≤ 4294967296
  apart : heap + 52 ≤ start ∨ start + size.toNat ≤ heap

namespace Pool

variable (P : Pool)

def poolSize : Nat := P.size.toNat / 4 * 4

def stop : Nat := P.start + P.poolSize

/-- The block of no size that ends the pool. -/
def tail : Nat := P.start + P.poolSize - 24

theorem room_poolSize : 60 ≤ P.poolSize := by
  have room := P.room
  unfold poolSize
  omega

theorem poolSize_le : P.poolSize ≤ P.size.toNat := Nat.div_mul_le_self _ _

theorem tail_add : P.tail + 24 = P.stop := by
  have room := P.room_poolSize
  unfold tail stop
  omega

theorem stop_le : P.stop ≤ 4294967296 := by
  have le := P.poolSize_le
  have fits := P.fits
  unfold stop
  omega

theorem apart_stop : P.heap + 52 ≤ P.start ∨ P.stop ≤ P.heap := by
  have le := P.poolSize_le
  have apart := P.apart
  unfold stop
  omega

/-- Where the headers of a pool lie. -/
def Holds (a : Nat) : Prop := a = freeHeader P.heap ∨ P.start ≤ a ∧ a + 24 ≤ P.stop

theorem Holds.lt {P : Pool} {a : Nat} (holds : P.Holds a) : a + 24 ≤ 4294967296 := by
  have top := P.stop_le
  have fits := P.heapFits
  unfold Holds freeHeader at holds
  omega

end Pool

/-- Headers of a pool that do not overlap. -/
structure Grid (P : Pool) where
  node : Nat → Prop
  holds : ∀ a, node a → P.Holds a
  spaced : ∀ a b, node a → node b → a ≠ b → a + 24 ≤ b ∨ b + 24 ≤ a

variable {P : Pool} {G : Grid P} {m m' m'' : Mem} {a b v : Nat} {f g : Member} {e e' : Entry}
  {F F' : List Member} {E E' : List Entry}

theorem Grid.lt (G : Grid P) (node : G.node a) : a < 4294967296 := by
  have top := (G.holds a node).lt
  omega

theorem get_set (first : G.node a) (second : G.node b) (small : v < 4294967296) :
    get (set m a f v) b g = if b = a ∧ g = f then v else get m b g := by
  by_cases same : b = a ∧ g = f
  · rw [if_pos same, same.1, same.2]
    exact load_put m _ small
  · rw [if_neg same]
    apply load_put_apart
    have low := offset_le f
    have low' := offset_le g
    by_cases here : b = a
    · have apart := offset_apart (f := f) (g := g) fun other => same ⟨here, other.symm⟩
      omega
    · have apart := G.spaced a b first second (Ne.symm here)
      omega

theorem field_set (node : G.node a) : field (set m a f v) P.heap e = field m P.heap e := by
  apply load_put_apart
  have low := offset_le f
  have entry := entry_le e
  have holds := G.holds a node
  have apart := P.apart_stop
  unfold Pool.Holds freeHeader at holds
  omega

theorem get_setField (node : G.node a) : get (setField m P.heap e v) a f = get m a f := by
  apply load_put_apart
  have low := offset_le f
  have entry := entry_le e
  have holds := G.holds a node
  have apart := P.apart_stop
  unfold Pool.Holds freeHeader at holds
  omega

theorem field_setField (m : Mem) (heap : Nat) (small : v < 4294967296) :
    field (setField m heap e v) heap e' = if e' = e then v else field m heap e' := by
  by_cases same : e' = e
  · rw [if_pos same, same]
    exact load_put m _ small
  · rw [if_neg same]
    apply load_put_apart
    have apart := entry_apart same
    omega

/-- Only the members and the entries named may differ, and no memory outside of the headers. -/
structure Frame (G : Grid P) (F : List Member) (E : List Entry) (m m' : Mem) : Prop where
  members : ∀ a, G.node a → ∀ f, f ∉ F → get m' a f = get m a f
  entries : ∀ e, e ∉ E → field m' P.heap e = field m P.heap e
  bytes : ∀ x, (∀ a, G.node a → x < a ∨ a + 24 ≤ x) → (x < P.heap ∨ P.heap + 52 ≤ x) →
    m' x = m x

namespace Frame

theorem trans (first : Frame G F E m m') (second : Frame G F E m' m'') : Frame G F E m m'' :=
  ⟨fun a node f other => (second.members a node f other).trans (first.members a node f other),
    fun e other => (second.entries e other).trans (first.entries e other),
    fun x apart outside => (second.bytes x apart outside).trans (first.bytes x apart outside)⟩

theorem mono (frame : Frame G F E m m') (more : F ⊆ F') (more' : E ⊆ E') : Frame G F' E' m m' :=
  ⟨fun a node f other => frame.members a node f fun member => other (more member),
    fun e other => frame.entries e fun member => other (more' member), frame.bytes⟩

theorem set (m : Mem) (node : G.node a) (small : v < 4294967296) (named : f ∈ F) :
    Frame G F E m (set m a f v) := by
  refine ⟨fun b second g other => ?_, fun e other => field_set node, fun x apart outside => ?_⟩
  · rw [get_set node second small, if_neg]
    rintro ⟨-, rfl⟩
    exact other named
  · have low := offset_le f
    have here := apart a node
    exact put_apart m v (by omega)

theorem setField (m : Mem) (small : v < 4294967296) (named : e ∈ E) :
    Frame G F E m (setField m P.heap e v) := by
  refine ⟨fun a node f other => get_setField node, fun e' other => ?_, fun x apart outside => ?_⟩
  · rw [field_setField m P.heap small, if_neg]
    rintro rfl
    exact other named
  · have entry := entry_le e
    exact put_apart m v (by omega)

end Frame

end T113Boot.Heap.Headers
