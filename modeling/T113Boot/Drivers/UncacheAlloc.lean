/- Module: T113Boot/Drivers/UncacheAlloc
   layer: specification
   digest: Aligned blocks of the uncached heap, and the sizes for which they stay inside. -/

import T113Boot.Lib.Cells
import T113Boot.Lib.LittleEndian
import T113Boot.Lib.Rounding

set_option autoImplicit false
set_option relaxedAutoImplicit false

namespace T113Boot.Drivers.UncacheAlloc

open T113Boot.Lib.Cells
open T113Boot.Lib.LittleEndian
open T113Boot.Lib.Rounding

/-- The heap below: its answer to a request is null or the address of a block of that many bytes,
which is a multiple of four and ends within the address space. -/
structure Memheap where
  alloc : UInt32 → UInt32
  aligned : ∀ size, (alloc size).toNat % 4 = 0
  fits : ∀ size, alloc size ≠ 0 → (alloc size).toNat + size.toNat ≤ 4294967296

def uncacheMalloc (heap : Memheap) (size : UInt32) : UInt32 := heap.alloc size

/-- The address that `uncache_free` gives back to the heap, if any. -/
def uncacheFree (rmem : UInt32) : Option UInt32 := if rmem = 0 then none else some rmem

/-- `sizeof(void *)`, less one. -/
def uintptrSize : UInt32 := 3

/-- `align_size`, which is asked of the heap. -/
def alignSize (size align : UInt32) : UInt32 :=
  ((size + uintptrSize) &&& ~~~uintptrSize) + ((align + uintptrSize) &&& ~~~uintptrSize)

/-- `align_ptr` in a block at `ptr`. -/
def alignPtr (ptr align : UInt32) : UInt32 :=
  if ptr &&& (align - 1) = 0 then ptr + align
  else (ptr + (align - 1)) &&& ~~~(align - 1)

def uncacheMallocAlign (heap : Memheap) (size align : UInt32) (ram : Mem) : UInt32 × Mem :=
  let ptr := uncacheMalloc heap (alignSize size align)
  if ptr ≠ 0 then
    let aligned := alignPtr ptr ((align + uintptrSize) &&& ~~~uintptrSize)
    (aligned, store ram (aligned - 4).toNat (le32 ptr))
  else (ptr, ram)

def uncacheFreeAlign (ram : Mem) (ptr : UInt32) : Option UInt32 :=
  if ptr = 0 then none else uncacheFree (wordAt (slice ram (ptr - 4).toNat 4) 0)

/-- A power of two, four at least. -/
structure Alignment where
  value : UInt32
  exponent : Nat
  least : 2 ≤ exponent
  power : value.toNat = 2 ^ exponent

/-- The block of `asked` bytes at `ptr` serves `size` bytes at `p`: they and the word in front of
them lie in it and do not overlap, and that word leads back to `ptr`, whatever is stored in these
bytes and outside of the block. -/
structure Served (ptr asked size align p : UInt32) (ram : Mem) : Prop where
  aligned : p.toNat % align.toNat = 0
  inside : ptr.toNat ≤ p.toNat ∧ p.toNat + size.toNat ≤ ptr.toNat + asked.toNat
  hidden : ptr.toNat ≤ (p - 4).toNat ∧ (p - 4).toNat + 4 ≤ ptr.toNat + asked.toNat
  apart : (p - 4).toNat + 4 ≤ p.toNat ∨ p.toNat + size.toNat ≤ (p - 4).toNat
  released : ∀ ram', (∀ x, ptr.toNat ≤ x → x < ptr.toNat + asked.toNat →
    (x < p.toNat ∨ p.toNat + size.toNat ≤ x) → ram' x = ram x) →
      uncacheFreeAlign ram' p = some ptr

/-- An allocation that succeeds keeps the promise. -/
def Serves (heap : Memheap) (size align : UInt32) (ram : Mem) : Prop :=
  (uncacheMallocAlign heap size align ram).1 ≠ 0 →
    Served (heap.alloc (alignSize size align)) (alignSize size align) size align
      (uncacheMallocAlign heap size align ram).1 (uncacheMallocAlign heap size align ram).2

theorem toNat_fours (x : UInt32) : ((x + uintptrSize) &&& ~~~uintptrSize).toNat =
    (x.toNat + 3) % 4294967296 / 4 * 4 := by
  have four : (4#32).toNat = 2 ^ 2 := rfl
  have rounded := toNat_and_not_pred four (x + uintptrSize).toBitVec
  exact rounded

namespace Alignment

variable (align : Alignment)

theorem four_dvd : align.value.toNat % 4 = 0 := by
  rw [align.power]
  exact Nat.mod_eq_zero_of_dvd (Nat.pow_dvd_pow 2 align.least)

theorem four_le : 4 ≤ align.value.toNat := by
  rw [align.power]
  exact Nat.pow_le_pow_right Nat.two_pos align.least

theorem le_half : align.value.toNat ≤ 2147483648 := by
  have small := align.value.toNat_lt
  rw [align.power] at small ⊢
  have exponent : align.exponent < 32 := (Nat.pow_lt_pow_iff_right (by decide)).mp small
  exact Nat.pow_le_pow_right Nat.two_pos (by omega : align.exponent ≤ 31)

theorem fours : (align.value + uintptrSize) &&& ~~~uintptrSize = align.value := by
  apply UInt32.toNat_inj.mp
  rw [toNat_fours]
  have four := align.four_dvd
  have half := align.le_half
  omega

theorem toNat_alignSize (size : UInt32) : (alignSize size align.value).toNat =
    ((size.toNat + 3) % 4294967296 / 4 * 4 + align.value.toNat) % 4294967296 := by
  rw [alignSize, align.fours, UInt32.toNat_add, toNat_fours]

theorem toNat_alignPtr {ptr : UInt32} (fits : ptr.toNat + align.value.toNat ≤ 4294967296) :
    (alignPtr ptr align.value).toNat =
      (ptr.toNat / align.value.toNat + 1) * align.value.toNat % 4294967296 := by
  have low : (ptr &&& (align.value - 1)).toNat = ptr.toNat % align.value.toNat := by
    rw [align.power]
    exact toNat_and_pred align.power ptr.toBitVec
  have split := Nat.div_add_mod' ptr.toNat align.value.toNat
  have four := align.four_le
  unfold alignPtr
  by_cases multiple : ptr &&& (align.value - 1) = 0
  · rw [multiple] at low
    rw [if_pos multiple, UInt32.toNat_add, Nat.add_mul, Nat.one_mul]
    congr 1
    rw [UInt32.toNat_zero] at low
    omega
  · have between : ptr.toNat % align.value.toNat ≠ 0 := by
      rw [← low]
      exact fun zero => multiple (UInt32.toNat_inj.mp zero)
    have sum : (ptr + (align.value - 1)).toNat = ptr.toNat + (align.value.toNat - 1) := by
      have one : (1 : UInt32) ≤ align.value := UInt32.le_iff_toNat_le.mpr (by
        rw [UInt32.toNat_one]
        omega)
      rw [UInt32.toNat_add, UInt32.toNat_sub_of_le _ _ one, UInt32.toNat_one]
      exact Nat.mod_eq_of_lt (by omega)
    have rounded : ((ptr + (align.value - 1)) &&& ~~~(align.value - 1)).toNat =
        (ptr.toNat + (align.value.toNat - 1)) / align.value.toNat * align.value.toNat := by
      rw [← sum, align.power]
      exact toNat_and_not_pred align.power (ptr + (align.value - 1)).toBitVec
    have next := roundUp_eq (by omega : 0 < align.value.toNat) between
    have whole : (ptr.toNat + (align.value.toNat - 1)) / align.value.toNat * align.value.toNat ≤
        ptr.toNat + (align.value.toNat - 1) := Nat.div_mul_le_self _ _
    rw [if_neg multiple, rounded, ← next, Nat.mod_eq_of_lt (by omega)]

theorem alignPtr_between {ptr : UInt32} (word : ptr.toNat % 4 = 0)
    (fits : ptr.toNat + align.value.toNat ≤ 4294967296) (nonnull : alignPtr ptr align.value ≠ 0) :
    (alignPtr ptr align.value).toNat % align.value.toNat = 0 ∧
      ptr.toNat + 4 ≤ (alignPtr ptr align.value).toNat ∧
      (alignPtr ptr align.value).toNat ≤ ptr.toNat + align.value.toNat := by
  have value := align.toNat_alignPtr fits
  have split := Nat.div_add_mod' ptr.toNat align.value.toNat
  have positive : 0 < align.value.toNat := Nat.lt_of_lt_of_le (by decide) align.four_le
  have below := Nat.mod_lt ptr.toNat positive
  have next : (ptr.toNat / align.value.toNat + 1) * align.value.toNat =
      ptr.toNat / align.value.toNat * align.value.toNat + align.value.toNat := by
    rw [Nat.add_mul, Nat.one_mul]
  have nonzero : (alignPtr ptr align.value).toNat ≠ 0 := fun zero =>
    nonnull (UInt32.toNat_inj.mp zero)
  have small : (ptr.toNat / align.value.toNat + 1) * align.value.toNat < 4294967296 := by
    rcases Nat.lt_or_eq_of_le (by omega : (ptr.toNat / align.value.toNat + 1) *
      align.value.toNat ≤ 4294967296) with small | top
    · exact small
    · rw [top] at value
      exact absurd value nonzero
  rw [Nat.mod_eq_of_lt small] at value
  have fours : (ptr.toNat / align.value.toNat + 1) * align.value.toNat % 4 = 0 := by
    rw [Nat.mul_mod, align.four_dvd, Nat.mul_zero, Nat.zero_mod]
  refine ⟨?_, ?_, ?_⟩
  · rw [value]
    exact Nat.mul_mod_left _ _
  · omega
  · omega

/-- A sum that does not wrap asks for room enough. -/
theorem room {size : UInt32} (sum : size.toNat + align.value.toNat ≤ 4294967292) :
    size.toNat + align.value.toNat ≤ (alignSize size align.value).toNat := by
  have asked := align.toNat_alignSize size
  have four := align.four_dvd
  omega

/-- One that wraps does not. -/
theorem short {size : UInt32} (sum : 4294967292 < size.toNat + align.value.toNat) :
    (alignSize size align.value).toNat + 4 < size.toNat ∧
      (alignSize size align.value).toNat ≤ 2147483648 := by
  have asked := align.toNat_alignSize size
  have four := align.four_dvd
  have half := align.le_half
  have bound := size.toNat_lt
  omega

end Alignment

theorem serves_of_sum {size : UInt32} {align : Alignment}
    (sum : size.toNat + align.value.toNat ≤ 4294967292) (heap : Memheap) (ram : Mem) :
    Serves heap size align.value ram := by
  intro nonnull
  have room := align.room sum
  have word := heap.aligned (alignSize size align.value)
  have given : heap.alloc (alignSize size align.value) ≠ 0 := by
    intro null
    simp only [uncacheMallocAlign, uncacheMalloc, null] at nonnull
    exact nonnull rfl
  have fits := heap.fits _ given
  simp only [uncacheMallocAlign, uncacheMalloc, if_pos given, align.fours] at nonnull ⊢
  generalize heap.alloc (alignSize size align.value) = ptr at word given fits nonnull ⊢
  obtain ⟨multiple, above, below⟩ := align.alignPtr_between word (by omega) nonnull
  generalize alignPtr ptr align.value = p at nonnull multiple above below ⊢
  have front : (p - 4).toNat = p.toNat - 4 :=
    UInt32.toNat_sub_of_le _ _ (UInt32.le_iff_toNat_le.mpr (Nat.le_of_add_left_le above))
  refine ⟨multiple, ⟨by omega, by omega⟩, ⟨by omega, by omega⟩, Or.inl (by omega), ?_⟩
  intro ram' kept
  have word : slice ram' (p - 4).toNat 4 = le32 ptr := by
    rw [← slice_store ram (p - 4).toNat (le32 ptr)]
    apply slice_congr
    intro x low high
    exact kept x (by omega) (by omega) (Or.inl (by omega))
  have back := wordAt_le32 ptr []
  rw [List.append_nil] at back
  rw [uncacheFreeAlign, if_neg nonnull, word, back, uncacheFree, if_neg given]

/-- A heap that answers with one address as long as the address space goes. -/
def wideHeap : Memheap where
  alloc size := if size.toNat ≤ 3221225216 then 0x40000100 else 0
  aligned size := by
    split
    · rfl
    · rfl
  fits size given := by
    by_cases small : size.toNat ≤ 3221225216
    · rw [if_pos small]
      change 1073742080 + size.toNat ≤ 4294967296
      omega
    · exact absurd (if_neg small) given

theorem wideHeap_alloc (size : UInt32) {align : Alignment}
    (sum : 4294967292 < size.toNat + align.value.toNat) :
    wideHeap.alloc (alignSize size align.value) = 0x40000100 := by
  have small := (align.short sum).2
  exact if_pos (by omega)

theorem alignPtr_wideHeap (align : Alignment) : alignPtr 0x40000100 align.value ≠ 0 := by
  have half := align.le_half
  have value := align.toNat_alignPtr (show (0x40000100 : UInt32).toNat + _ ≤ _ by
    change 1073742080 + _ ≤ _
    omega)
  change _ = (1073742080 / align.value.toNat + 1) * align.value.toNat % 4294967296 at value
  have split := Nat.div_add_mod' 1073742080 align.value.toNat
  have positive : 0 < align.value.toNat := Nat.lt_of_lt_of_le (by decide) align.four_le
  have below := Nat.mod_lt 1073742080 positive
  rw [Nat.add_mul, Nat.one_mul, Nat.mod_eq_of_lt (by omega)] at value
  intro null
  rw [null, UInt32.toNat_zero] at value
  omega

/-- An aligned allocation keeps its promise for every answer of the heap exactly if what is asked
of the heap, the size and the alignment rounded to words, does not wrap. -/
theorem uncacheMallocAlign_serves_iff (size : UInt32) (align : Alignment) :
    (∀ heap ram, Serves heap size align.value ram) ↔
      size.toNat + align.value.toNat ≤ 4294967292 := by
  constructor
  · intro serves
    by_contra wraps
    have sum := Nat.not_le.mp wraps
    have short := (align.short sum).1
    have promise := serves wideHeap fun _ => 0
    simp only [Serves, uncacheMallocAlign, uncacheMalloc, wideHeap_alloc size sum,
      align.fours] at promise
    obtain ⟨-, inside, -, -, -⟩ := promise (alignPtr_wideHeap align)
    omega
  · intro sum heap ram
    exact serves_of_sum sum heap ram

/-- The lines of the data cache. -/
def cacheLine : Alignment := ⟨64, 6, by decide, rfl⟩

/-- A hundred bytes on lines of their own: 164 are asked of the heap. -/
theorem uncacheMallocAlign_serves_line :
    (uncacheMallocAlign wideHeap 100 64 fun _ => 0).1 = 0x40000140 ∧
      Served 0x40000100 164 100 64 0x40000140 (uncacheMallocAlign wideHeap 100 64 fun _ => 0).2 :=
  ⟨by decide,
    (uncacheMallocAlign_serves_iff 100 cacheLine).mpr (by decide) wideHeap (fun _ => 0) (by decide)⟩

/-- For a size of 2 ^ 32 - 1 only 64 bytes are asked of the heap. -/
theorem uncacheMallocAlign_wraps : alignSize 0xFFFFFFFF 64 = 64 ∧
    (uncacheMallocAlign wideHeap 0xFFFFFFFF 64 fun _ => 0).1 = 0x40000140 ∧
    ¬ Serves wideHeap 0xFFFFFFFF 64 fun _ => 0 := by
  refine ⟨by decide, by decide, fun serves => ?_⟩
  have served := serves (by decide)
  exact absurd served.inside.2 (by decide)

end T113Boot.Drivers.UncacheAlloc
