/- Module: T113Boot/Nand/Chip
   layer: model
   digest: The page operations of the SPI NAND driver over a chip that answers without error. -/

import T113Boot.Lib.Cells

set_option autoImplicit false
set_option relaxedAutoImplicit false

namespace T113Boot.Nand.Chip

open T113Boot.Lib.Cells

/-! The geometry that `nand_init` writes into `nand->info`. -/

def pageSize : Nat := 2048
def pagesPerBlock : Nat := 64
def blocksTotal : Nat := 2048
def blockSize : Nat := pagesPerBlock * pageSize
def totalSize : Nat := blocksTotal * blockSize

theorem pageSize_eq : pageSize = 2048 := rfl
theorem blockSize_eq : blockSize = 131072 := rfl
theorem totalSize_eq : totalSize = 268435456 := rfl

/-- Unsigned arithmetic of the 32-bit target. -/
def u32 (n : Nat) : Nat := n % 4294967296

/-- Unsigned subtraction, which borrows from 2 ^ 32. -/
def sub32 (a b : Nat) : Nat := (a + 4294967296 - b) % 4294967296

/-- Where the boot loader's own objects lie; only that it is no null pointer matters. -/
def objectAddr : Nat := 0x40080000

/-- The answer of a page operation: its return code and what it stored at `data`. -/
abbrev ReadResult := Int × List UInt8

/-- Columns past the page belong to its spare area, which holds no data here. -/
def pageBytes (m : Mem) (page offset len : Nat) : List UInt8 :=
  (List.range len).map fun i =>
    if offset + i < pageSize then m (page * pageSize + offset + i) else 0xFF

/-- `nand_page_read` with its own checks; `data` is the address written to. -/
def nandPageRead (m : Mem) (page offset data len : Nat) : ReadResult :=
  if data = 0 then (-1, [])
  else if page > blocksTotal * pagesPerBlock then (-1, [])
  else if offset > pageSize ∨ len > pageSize then (-1, [])
  else (0, pageBytes m page offset len)

/-- `nand_page_write`; `data` is the address of the bytes `bs`. -/
def nandPageWrite (m : Mem) (page offset data : Nat) (bs : List UInt8) : Int × Mem :=
  if data = 0 then (-1, m)
  else if page > blocksTotal * pagesPerBlock then (-1, m)
  else if offset > pageSize ∨ bs.length > pageSize then (-1, m)
  else (0, program m (page * pageSize + offset) (bs.take (pageSize - offset)))

/-- `nand_erase_page` clears the block that the page lies in. -/
def nandErasePage (m : Mem) (page : Nat) : Int × Mem :=
  if page > blocksTotal * pagesPerBlock then (-1, m)
  else (0, erase m (page / pagesPerBlock * blockSize) blockSize)

theorem guards_eq {α : Type} (page offset data len : Nat) (refused passed : α) :
    (if data = 0 then refused
      else if page > blocksTotal * pagesPerBlock then refused
      else if offset > pageSize ∨ len > pageSize then refused
      else passed) =
      if data ≠ 0 ∧ page ≤ blocksTotal * pagesPerBlock ∧ offset ≤ pageSize ∧ len ≤ pageSize
        then passed else refused := by
  by_cases all : data ≠ 0 ∧ page ≤ blocksTotal * pagesPerBlock ∧ offset ≤ pageSize ∧ len ≤ pageSize
  · obtain ⟨notNull, onChip, inPage, short⟩ := all
    rw [if_neg notNull, if_neg (Nat.not_lt.mpr onChip), if_neg (by omega),
      if_pos ⟨notNull, onChip, inPage, short⟩]
  · rw [if_neg all]
    by_cases null : data = 0
    · rw [if_pos null]
    · by_cases behind : page > blocksTotal * pagesPerBlock
      · rw [if_neg null, if_pos behind]
      · rw [if_neg null, if_neg behind, if_pos]
        exact Decidable.byContradiction fun fits => all ⟨null, by omega, by omega, by omega⟩

theorem pageBytes_eq_slice (m : Mem) (page offset len : Nat) (h : offset + len ≤ pageSize) :
    pageBytes m page offset len = slice m (page * pageSize + offset) len := by
  apply List.map_congr_left
  intro i hi
  have := List.mem_range.mp hi
  rw [if_pos (by omega)]

theorem nandPageRead_inside (m : Mem) {page offset data len : Nat} (hd : data ≠ 0)
    (hp : page < blocksTotal * pagesPerBlock) (hl : offset + len ≤ pageSize) :
    nandPageRead m page offset data len = (0, slice m (page * pageSize + offset) len) := by
  rw [nandPageRead, guards_eq, if_pos ⟨hd, by omega, by omega, by omega⟩,
    pageBytes_eq_slice m page offset len hl]

theorem nandPageWrite_inside (m : Mem) {page offset data : Nat} {bs : List UInt8} (hd : data ≠ 0)
    (hp : page < blocksTotal * pagesPerBlock) (hl : offset + bs.length ≤ pageSize) :
    nandPageWrite m page offset data bs = (0, program m (page * pageSize + offset) bs) := by
  rw [nandPageWrite, guards_eq, if_pos ⟨hd, by omega, by omega, by omega⟩,
    List.take_of_length_le (by omega)]

theorem nandErasePage_block (m : Mem) {blk : Nat} (h : blk < blocksTotal) :
    nandErasePage m (blk * pagesPerBlock) = (0, erase m (blk * blockSize) blockSize) := by
  have page : ¬ blk * pagesPerBlock > blocksTotal * pagesPerBlock := by
    simp only [pagesPerBlock, blocksTotal] at h ⊢
    omega
  unfold nandErasePage
  rw [if_neg page, Nat.mul_div_cancel _ (by decide)]

theorem nandPageRead_ok {m : Mem} {page offset data len : Nat}
    (h : (nandPageRead m page offset data len).1 = 0) :
    page ≤ blocksTotal * pagesPerBlock ∧ offset ≤ pageSize ∧ len ≤ pageSize := by
  rw [nandPageRead, guards_eq] at h
  split at h
  · rename_i passed
    exact passed.2
  · cases h

theorem nandPageWrite_ok {m : Mem} {page offset data : Nat} {bs : List UInt8}
    (h : (nandPageWrite m page offset data bs).1 = 0) :
    page ≤ blocksTotal * pagesPerBlock ∧ offset ≤ pageSize ∧ bs.length ≤ pageSize := by
  rw [nandPageWrite, guards_eq] at h
  split at h
  · rename_i passed
    exact passed.2
  · cases h

end T113Boot.Nand.Chip
