/- Module: T113Boot/Nand/LittleFs
   layer: model
   digest: The block device of the littlefs port on single pages, and the runs that it serves. -/

import T113Boot.Nand.Chip

set_option autoImplicit false
set_option relaxedAutoImplicit false

namespace T113Boot.Nand.LittleFs

open T113Boot.Lib.Cells
open T113Boot.Nand.Chip

def lfsErrOk : Int := 0
def lfsErrIo : Int := -5

/-- The first page of the file system. -/
def pageOffsetOfNand : Nat := 2560

/-- The geometry in `struct lfs_config`. -/
structure LfsConfig where
  readSize : Nat
  progSize : Nat
  blockSize : Nat
  blockCount : Nat

def nandLfsCfg : LfsConfig :=
  { readSize := 2048, progSize := 2048, blockSize := 64 * 2048, blockCount := 32 }

/-- The page that an offset in a block lies on. -/
def lfsPage (block off : UInt32) : Nat :=
  u32 (u32 (u32 (block.toNat * 64) + off.toNat / pageSize) + pageOffsetOfNand)

def lfsReadPort (m : Mem) (block off buffer size : UInt32) : ReadResult :=
  let answer := nandPageRead m (lfsPage block off) (off.toNat % pageSize) buffer.toNat size.toNat
  if answer.1 ≠ 0 then (lfsErrIo, answer.2) else (lfsErrOk, answer.2)

/-- `lsf_prog_port`; `bs` are the `size` bytes at `buffer`. -/
def lsfProgPort (m : Mem) (block off buffer : UInt32) (bs : List UInt8) : Int × Mem :=
  let answer := nandPageWrite m (lfsPage block off) (off.toNat % pageSize) buffer.toNat bs
  if answer.1 ≠ 0 then (lfsErrIo, answer.2) else (lfsErrOk, answer.2)

def lfsErasePort (m : Mem) (block : UInt32) : Int × Mem :=
  let answer := nandErasePage m (u32 (u32 (block.toNat * 64) + pageOffsetOfNand))
  if answer.1 ≠ 0 then (lfsErrIo, answer.2) else (lfsErrOk, answer.2)

/-- The address of a block of the file system in the device. -/
def blockAddr (block : UInt32) : Nat := pageOffsetOfNand * pageSize + block.toNat * nandLfsCfg.blockSize

/-- A request as littlefs may make it: units of the read and program size within one block. -/
structure Request (block off size : UInt32) : Prop where
  listed : block.toNat < nandLfsCfg.blockCount
  offset : off.toNat % nandLfsCfg.readSize = 0
  units : size.toNat % nandLfsCfg.progSize = 0
  inBlock : off.toNat + size.toNat ≤ nandLfsCfg.blockSize

section Served

variable {block off size : UInt32}

theorem lfsPage_request (request : Request block off size) :
    lfsPage block off < blocksTotal * pagesPerBlock ∧ off.toNat % pageSize = 0 ∧
      lfsPage block off * pageSize + off.toNat % pageSize = blockAddr block + off.toNat := by
  obtain ⟨listed, offset, -, inBlock⟩ := request
  simp only [nandLfsCfg] at listed offset inBlock
  have page : lfsPage block off = block.toNat * 64 + off.toNat / 2048 + 2560 := by
    simp only [lfsPage, u32, pageSize, pageOffsetOfNand]
    omega
  simp only [page, blockAddr, nandLfsCfg, pageOffsetOfNand, pageSize, blocksTotal, pagesPerBlock]
  omega

theorem lfsReadPort_page (m : Mem) {buffer : UInt32} (request : Request block off size)
    (notNull : buffer ≠ 0) (single : size.toNat ≤ pageSize) :
    lfsReadPort m block off buffer size =
      (lfsErrOk, slice m (blockAddr block + off.toNat) size.toNat) := by
  obtain ⟨onChip, aligned, addr⟩ := lfsPage_request request
  have pointer : buffer.toNat ≠ 0 := fun zero => notNull (UInt32.toNat_inj.mp zero)
  have read := nandPageRead_inside m pointer onChip
    (show off.toNat % pageSize + size.toNat ≤ pageSize by omega)
  simp only [lfsReadPort, read, addr, ne_eq, not_true_eq_false, if_false]

theorem lsfProgPort_page (m : Mem) {buffer : UInt32} {bs : List UInt8}
    (request : Request block off size) (notNull : buffer ≠ 0) (full : bs.length = size.toNat)
    (single : size.toNat ≤ pageSize) :
    lsfProgPort m block off buffer bs = (lfsErrOk, program m (blockAddr block + off.toNat) bs) := by
  obtain ⟨onChip, aligned, addr⟩ := lfsPage_request request
  have pointer : buffer.toNat ≠ 0 := fun zero => notNull (UInt32.toNat_inj.mp zero)
  have write := nandPageWrite_inside m pointer onChip
    (show off.toNat % pageSize + bs.length ≤ pageSize by omega)
  simp only [lsfProgPort, write, addr, ne_eq, not_true_eq_false, if_false]

theorem lfsErasePort_block (m : Mem) (listed : block.toNat < nandLfsCfg.blockCount) :
    lfsErasePort m block = (lfsErrOk, erase m (blockAddr block) nandLfsCfg.blockSize) := by
  simp only [nandLfsCfg] at listed
  have page : u32 (u32 (block.toNat * 64) + pageOffsetOfNand) =
      (40 + block.toNat) * pagesPerBlock := by
    simp only [u32, pageOffsetOfNand, pagesPerBlock]
    omega
  have erased := nandErasePage_block m (show 40 + block.toNat < blocksTotal by
    simp only [blocksTotal]
    omega)
  have addr : (40 + block.toNat) * blockSize = blockAddr block := by
    simp only [blockAddr, nandLfsCfg, pageOffsetOfNand, pageSize, blockSize, pagesPerBlock]
    omega
  simp only [lfsErasePort, page, erased, addr, ne_eq, not_true_eq_false, if_false]
  rfl

/-- A run of more than one page is refused by the page driver. -/
theorem lfsReadPort_long (m : Mem) (block off buffer : UInt32) (long : pageSize < size.toNat) :
    (lfsReadPort m block off buffer size).1 = lfsErrIo := by
  have refused : (nandPageRead m (lfsPage block off) (off.toNat % pageSize) buffer.toNat
      size.toNat).1 ≠ 0 := fun ok => by
    have accepted := nandPageRead_ok ok
    omega
  rw [lfsReadPort, if_pos refused]

theorem lsfProgPort_long (m : Mem) (block off buffer : UInt32) {bs : List UInt8}
    (long : pageSize < bs.length) : (lsfProgPort m block off buffer bs).1 = lfsErrIo := by
  have refused : (nandPageWrite m (lfsPage block off) (off.toNat % pageSize) buffer.toNat bs).1 ≠
      0 := fun ok => by
    have accepted := nandPageWrite_ok ok
    omega
  rw [lsfProgPort, if_pos refused]

end Served

/-- The port honours the contract of littlefs exactly on the requests of one page at most. -/
theorem littlefsPort_exact_iff (m : Mem) {block off buffer size : UInt32} {bs : List UInt8}
    (request : Request block off size) (notNull : buffer ≠ 0) (full : bs.length = size.toNat) :
    (lfsReadPort m block off buffer size =
        (lfsErrOk, slice m (blockAddr block + off.toNat) size.toNat) ↔ size.toNat ≤ 2048) ∧
    (lsfProgPort m block off buffer bs =
        (lfsErrOk, program m (blockAddr block + off.toNat) bs) ↔ size.toNat ≤ 2048) ∧
    lfsErasePort m block = (lfsErrOk, erase m (blockAddr block) nandLfsCfg.blockSize) := by
  have codes : lfsErrOk ≠ lfsErrIo := by decide
  refine ⟨⟨fun read => ?_, lfsReadPort_page m request notNull⟩,
    ⟨fun write => ?_, lsfProgPort_page m request notNull full⟩, lfsErasePort_block m request.listed⟩
  · rcases Nat.lt_or_ge pageSize size.toNat with long | single
    · have refused := lfsReadPort_long m block off buffer long
      rw [read] at refused
      exact absurd refused codes
    · exact single
  · rcases Nat.lt_or_ge pageSize bs.length with long | single
    · have refused := lsfProgPort_long m block off buffer long
      rw [write] at refused
      exact absurd refused codes
    · rw [← full]
      exact single

/-- The last page of the second block. -/
theorem littlefsPort_exact_page : lfsReadPort (fun _ => 0xFF) 1 129024 0x41000000 2048 =
    (lfsErrOk, slice (fun _ => 0xFF) (blockAddr 1 + 129024) 2048) := by
  have full : (List.replicate 2048 (0xFF : UInt8)).length = (2048 : UInt32).toNat :=
    List.length_replicate
  exact (littlefsPort_exact_iff (fun _ => 0xFF) ⟨by decide, by decide, by decide, by decide⟩
    (by decide) full).1.mpr (by decide)

/-- littlefs reads the whole of a full block past its caches. -/
theorem littlefsPort_wholeBlock : Request 0 0 131072 ∧
    (lfsReadPort (fun _ => 0xFF) 0 0 0x41000000 131072).1 = lfsErrIo := by
  refine ⟨⟨by decide, by decide, by decide, by decide⟩, ?_⟩
  exact lfsReadPort_long _ 0 0 0x41000000 (by decide)

end T113Boot.Nand.LittleFs
