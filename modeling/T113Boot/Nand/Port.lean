/- Module: T113Boot/Nand/Port
   layer: model
   digest: The partition device of the boards port, cutting byte ranges into NAND pages and blocks. -/

import T113Boot.Nand.Chip

set_option autoImplicit false
set_option relaxedAutoImplicit false

namespace T113Boot.Nand.Port

open T113Boot.Lib.Cells
open T113Boot.Nand.Chip

/-- The page loop of `partition_nand_read`. Each turn that succeeds moves to the
next page, and a page number past the chip is refused, so the fuel outlives every run. -/
def readLoop (m : Mem) : Nat → Nat → Nat → Nat → Nat → ReadResult
  | 0, _, _, _, _ => (-1, [])
  | fuel + 1, page, offset, readBuf, readSize =>
    if readSize = 0 then (0, [])
    else if u32 (offset + readSize) > pageSize then
      let piece := pageSize - offset
      let first := nandPageRead m page offset readBuf piece
      if first.1 ≠ 0 then first
      else
        let rest := readLoop m fuel (page + 1) 0 (u32 (readBuf + piece)) (readSize - piece)
        (rest.1, first.2 ++ rest.2)
    else nandPageRead m page offset readBuf readSize

/-- The page loop of `partition_nand_write` over the bytes still to be written. -/
def writeLoop : Nat → Nat → Nat → Nat → List UInt8 → Mem → Int × Mem
  | 0, _, _, _, _, m => (-1, m)
  | fuel + 1, page, offset, writeBuf, bs, m =>
    if bs.length = 0 then (0, m)
    else if u32 (offset + bs.length) > pageSize then
      let piece := pageSize - offset
      let first := nandPageWrite m page offset writeBuf (bs.take piece)
      if first.1 ≠ 0 then first
      else writeLoop fuel (page + 1) 0 (u32 (writeBuf + piece)) (bs.drop piece) first.2
    else nandPageWrite m page offset writeBuf bs

def pageFuel : Nat := blocksTotal * pagesPerBlock + 2

/-- `partition_nand_read`; `buf` is the address written to. -/
def partitionNandRead (m : Mem) (addr buf size : UInt32) : ReadResult :=
  if (addr + size).toNat > totalSize ∨ buf = 0 then (-1, [])
  else readLoop m pageFuel (addr.toNat / pageSize) (addr.toNat % pageSize) buf.toNat size.toNat

/-- `partition_nand_write`; `bs` is the memory at `buf`, of which `size` bytes are written. -/
def partitionNandWrite (m : Mem) (addr buf : UInt32) (bs : List UInt8) (size : UInt32) :
    Int × Mem :=
  if (addr + size).toNat > totalSize ∨ buf = 0 then (-1, m)
  else writeLoop pageFuel (addr.toNat / pageSize) (addr.toNat % pageSize) buf.toNat
    (bs.take size.toNat) m

/-- The pages of one block into `cache_erase`, `i` being the next of them. `none` is a page outside
`cache_erase`, after which the code promises nothing. -/
def readPages (m : Mem) (blk : Nat) : Nat → Nat → Mem → Option (Int × Mem)
  | 0, _, cache => some (0, cache)
  | n + 1, i, cache =>
    if i * pageSize + pageSize > blockSize then none
    else
      let answer := nandPageRead m (blk * pagesPerBlock + i) 0 (objectAddr + i * pageSize) pageSize
      if answer.1 ≠ 0 then some (-1, cache)
      else readPages m blk n (i + 1) (store cache (i * pageSize) answer.2)

/-- The pages of one block from `cache_erase`. -/
def writePages (cache : Mem) (blk : Nat) : Nat → Nat → Mem → Option (Int × Mem)
  | 0, _, m => some (0, m)
  | n + 1, i, m =>
    if i * pageSize + pageSize > blockSize then none
    else
      let answer := nandPageWrite m (blk * pagesPerBlock + i) 0 (objectAddr + i * pageSize)
        (slice cache (i * pageSize) pageSize)
      if answer.1 ≠ 0 then some (-1, answer.2) else writePages cache blk n (i + 1) answer.2

/-- One turn of the block loop of `partition_nand_erase`. A block asked for only in
part is read, erased, patched and programmed again; the patch has to lie in `cache_erase` too. -/
def eraseBlock (m : Mem) (eraseStart eraseEnd blk : Nat) : Option (Int × Mem) :=
  let blkStart := u32 (blk * blockSize)
  let blkEnd := u32 (blkStart + blockSize)
  let offset := if eraseStart > blkStart then eraseStart - blkStart else 0
  let length := if eraseEnd < blkEnd then sub32 eraseEnd (blkStart + offset)
    else sub32 blkEnd (blkStart + offset)
  if offset = 0 ∧ length = blockSize then
    let erased := nandErasePage m (blk * pagesPerBlock)
    if erased.1 ≠ 0 then some (-1, erased.2) else some (0, erased.2)
  else
    (readPages m blk pagesPerBlock 0 fun _ => 0).bind fun cached =>
      if cached.1 ≠ 0 then some (-1, m)
      else
        let erased := nandErasePage m (blk * pagesPerBlock)
        if erased.1 ≠ 0 then some (-1, erased.2)
        else if offset + length > blockSize then none
        else writePages (store cached.2 offset (List.replicate length 0xFF)) blk pagesPerBlock 0
          erased.2

/-- The block loop over `count` blocks from `blk`. -/
def eraseLoop (eraseStart eraseEnd : Nat) : Nat → Nat → Mem → Option (Int × Mem)
  | 0, _, m => some (0, m)
  | count + 1, blk, m => do
    let (ret, m') ← eraseBlock m eraseStart eraseEnd blk
    if ret ≠ 0 then some (-1, m') else eraseLoop eraseStart eraseEnd count (blk + 1) m'

/-- `partition_nand_erase`. -/
def partitionNandErase (m : Mem) (addr size : UInt32) : Option (Int × Mem) :=
  if (addr + size).toNat > totalSize then some (-1, m)
  else
    let eraseStart := addr.toNat
    let eraseEnd := (addr + size).toNat
    let first := eraseStart / blockSize
    let last := sub32 eraseEnd 1 / blockSize
    eraseLoop eraseStart eraseEnd (last + 1 - first) first m

/-! Inside the device the loops are byte-exact. -/

/-- No piece of a read lies at address 0, which the driver refuses. A buffer that does not begin
there has such a piece only where a page ends with the last address and more is to come. -/
def Clear (offset readBuf readSize : Nat) : Prop :=
  readBuf ≠ 0 ∧ ((readBuf + (pageSize - offset)) % pageSize = 0 → readBuf + readSize ≤ 4294967296)

instance (offset readBuf readSize : Nat) : Decidable (Clear offset readBuf readSize) :=
  inferInstanceAs (Decidable (_ ∧ _))

private theorem sum_small {offset readSize : Nat}
    (inside : offset + readSize ≤ totalSize) : u32 (offset + readSize) = offset + readSize := by
  have total := totalSize_eq
  exact Nat.mod_eq_of_lt (by omega)

theorem readLoop_inside (m : Mem) (fuel page offset readBuf readSize : Nat)
    (fueled : pageFuel ≤ fuel + page) (inPage : offset < pageSize)
    (inside : page * pageSize + offset + readSize ≤ totalSize)
    (word : readBuf < 4294967296) (clear : Clear offset readBuf readSize) :
    readLoop m fuel page offset readBuf readSize =
      (0, slice m (page * pageSize + offset) readSize) := by
  induction fuel generalizing page offset readBuf readSize with
  | zero =>
    simp only [pageFuel, pageSize, totalSize, blockSize, blocksTotal, pagesPerBlock] at *
    omega
  | succ fuel ih =>
    obtain ⟨notNull, window⟩ := clear
    unfold readLoop
    by_cases done : readSize = 0
    · rw [if_pos done, done, slice_zero]
    · rw [if_neg done]
      have onChip : page < blocksTotal * pagesPerBlock := by
        simp only [pageSize, totalSize, blockSize, blocksTotal, pagesPerBlock] at *
        omega
      by_cases across : u32 (offset + readSize) > pageSize
      · rw [if_pos across]
        rw [sum_small (by omega)] at across
        obtain ⟨rest, rfl⟩ := Nat.exists_eq_add_of_lt (show pageSize - offset < readSize by omega)
        have nextPage : (page + 1) * pageSize + 0 =
            page * pageSize + offset + (pageSize - offset) := by
          rw [Nat.add_mul, Nat.one_mul]
          omega
        -- a buffer that passes the last address goes on behind address 0
        have next : Clear 0 (u32 (readBuf + (pageSize - offset))) (rest + 1) := by
          have total := totalSize_eq
          simp only [Clear, u32, pageSize] at inPage window inside ⊢
          omega
        simp only [nandPageRead_inside m notNull onChip (by omega :
          offset + (pageSize - offset) ≤ pageSize), ne_eq, not_true_eq_false, if_false]
        rw [show pageSize - offset + rest + 1 - (pageSize - offset) = rest + 1 by omega,
          ih (page + 1) 0 (u32 (readBuf + (pageSize - offset))) _ (by omega) (by decide) (by omega)
            (Nat.mod_lt _ (by decide)) next, nextPage, Nat.add_assoc (pageSize - offset),
          slice_add _ _ (pageSize - offset)]
      · rw [if_neg across]
        rw [sum_small (by omega)] at across
        exact nandPageRead_inside m notNull onChip (by omega)

theorem readLoop_null (m : Mem) (fuel page offset readBuf readSize : Nat) (inPage : offset < pageSize)
    (inside : offset + readSize ≤ totalSize) (word : readBuf < 4294967296) (more : readSize ≠ 0)
    (piece : ¬ Clear offset readBuf readSize) :
    (readLoop m fuel page offset readBuf readSize).1 ≠ 0 := by
  induction fuel generalizing page offset readBuf readSize with
  | zero => simp [readLoop]
  | succ fuel ih =>
    unfold readLoop
    rw [if_neg more]
    by_cases null : readBuf = 0
    · have refused (len : Nat) : nandPageRead m page offset readBuf len = (-1, []) := if_pos null
      split
      · simp [refused]
      · simp [refused]
    · have wraps : ¬ ((readBuf + (pageSize - offset)) % pageSize = 0 →
          readBuf + readSize ≤ 4294967296) := fun window => piece ⟨null, window⟩
      have across : u32 (offset + readSize) > pageSize := by
        rw [sum_small (by omega)]
        simp only [pageSize] at inPage wraps ⊢
        omega
      rw [if_pos across]
      by_cases first : (nandPageRead m page offset readBuf (pageSize - offset)).1 = 0
      · simp only [first, ne_eq, not_true_eq_false, if_false]
        rw [sum_small (by omega)] at across
        refine ih (page + 1) 0 _ _ (by decide) (by omega) (Nat.mod_lt _ (by decide)) (by omega) ?_
        simp only [Clear, u32, pageSize] at inPage wraps ⊢
        omega
      · simp only [first, ne_eq, not_false_eq_true, if_true]

theorem writeLoop_inside (m : Mem) (fuel page offset writeBuf : Nat) (bs : List UInt8)
    (fueled : pageFuel ≤ fuel + page) (inPage : offset < pageSize)
    (inside : page * pageSize + offset + bs.length ≤ totalSize)
    (notNull : writeBuf ≠ 0) (window : writeBuf + bs.length ≤ 4294967296) :
    writeLoop fuel page offset writeBuf bs m =
      (0, program m (page * pageSize + offset) bs) := by
  induction fuel generalizing page offset writeBuf bs m with
  | zero =>
    simp only [pageFuel, pageSize, totalSize, blockSize, blocksTotal, pagesPerBlock] at *
    omega
  | succ fuel ih =>
    unfold writeLoop
    by_cases done : bs.length = 0
    · rw [if_pos done, List.length_eq_zero_iff.mp done, program_nil]
    · rw [if_neg done]
      have onChip : page < blocksTotal * pagesPerBlock := by
        simp only [pageSize, totalSize, blockSize, blocksTotal, pagesPerBlock] at *
        omega
      by_cases across : u32 (offset + bs.length) > pageSize
      · rw [if_pos across]
        have more : pageSize - offset < bs.length := by
          simp only [u32, pageSize, totalSize, blockSize, blocksTotal, pagesPerBlock] at *
          omega
        have next : u32 (writeBuf + (pageSize - offset)) = writeBuf + (pageSize - offset) := by
          simp only [u32, pageSize] at *
          omega
        have taken : (bs.take (pageSize - offset)).length = pageSize - offset := by
          rw [List.length_take]
          omega
        have nextPage : (page + 1) * pageSize + 0 =
            page * pageSize + offset + (bs.take (pageSize - offset)).length := by
          rw [Nat.add_mul, Nat.one_mul, taken]
          omega
        simp only [nandPageWrite_inside m notNull onChip (by omega :
          offset + (bs.take (pageSize - offset)).length ≤ pageSize), ne_eq, not_true_eq_false,
          if_false, next]
        rw [ih _ (page + 1) 0 _ _ (by omega) (by simp only [pageSize]; omega)
          (by rw [Nat.add_mul, Nat.one_mul, List.length_drop]; omega) (by omega)
          (by rw [List.length_drop]; omega), nextPage, program_append, List.take_append_drop]
      · rw [if_neg across]
        exact nandPageWrite_inside m notNull onChip (by
          simp only [u32, pageSize, totalSize, blockSize, blocksTotal, pagesPerBlock] at *
          omega)

theorem readLoop_ok (m : Mem) (fuel page offset readBuf readSize : Nat)
    (inPage : offset < pageSize) (word : readSize < 4294967296) (more : readSize ≠ 0)
    (ok : (readLoop m fuel page offset readBuf readSize).1 = 0) :
    page * pageSize + offset + readSize ≤ totalSize + pageSize := by
  induction fuel generalizing page offset readBuf readSize with
  | zero => simp [readLoop] at ok
  | succ fuel ih =>
    unfold readLoop at ok
    rw [if_neg more] at ok
    by_cases across : u32 (offset + readSize) > pageSize
    · rw [if_pos across] at ok
      by_cases first : (nandPageRead m page offset readBuf (pageSize - offset)).1 = 0
      · have left : pageSize - offset < readSize := by
          simp only [u32, pageSize] at *
          omega
        simp only [first, ne_eq, not_true_eq_false, if_false] at ok
        have bound := ih (page + 1) 0 _ _ (by simp only [pageSize]; omega) (by omega) (by omega) ok
        rw [Nat.add_mul, Nat.one_mul] at bound
        omega
      · simp only [first, ne_eq, not_false_eq_true, if_true] at ok
    · rw [if_neg across] at ok
      have accepted := nandPageRead_ok ok
      simp only [u32, pageSize, totalSize, blockSize, blocksTotal, pagesPerBlock] at *
      omega

private theorem block_page (blk i : Nat) :
    (blk * pagesPerBlock + i) * pageSize + 0 = blk * blockSize + i * pageSize := by
  simp only [blockSize, pagesPerBlock, pageSize]
  omega

private theorem block_page_onChip {blk i : Nat} (hb : blk < blocksTotal) (hi : i < pagesPerBlock) :
    blk * pagesPerBlock + i < blocksTotal * pagesPerBlock := by
  simp only [pagesPerBlock, blocksTotal] at *
  omega

private theorem object_notNull (n : Nat) : objectAddr + n ≠ 0 := by
  simp only [objectAddr]
  omega

private theorem page_in_cache {i : Nat} (hi : i < pagesPerBlock) :
    ¬ i * pageSize + pageSize > blockSize := by
  simp only [blockSize, pagesPerBlock, pageSize] at hi ⊢
  omega

theorem readPages_inside (m : Mem) (blk n i : Nat) (cache : Mem) (hb : blk < blocksTotal)
    (hi : i + n ≤ pagesPerBlock) :
    readPages m blk n i cache = some (0, store cache (i * pageSize)
      (slice m (blk * blockSize + i * pageSize) (n * pageSize))) := by
  induction n generalizing i cache with
  | zero => rw [readPages, Nat.zero_mul, slice_zero, store_nil]
  | succ n ih =>
    have answer := nandPageRead_inside m (object_notNull (i * pageSize))
      (block_page_onChip hb (by omega : i < pagesPerBlock)) (by omega : 0 + pageSize ≤ pageSize)
    rw [block_page] at answer
    have joined := store_append cache (i * pageSize)
      (slice m (blk * blockSize + i * pageSize) pageSize)
      (slice m (blk * blockSize + i * pageSize + pageSize) (n * pageSize))
    rw [length_slice, ← slice_add] at joined
    unfold readPages
    rw [if_neg (page_in_cache (by omega))]
    simp only [answer, ne_eq, not_true_eq_false, if_false]
    rw [ih (i + 1) _ (by omega), Nat.add_mul, Nat.one_mul, ← Nat.add_assoc, joined, Nat.add_mul,
      Nat.one_mul, Nat.add_comm pageSize]

theorem writePages_inside (cache : Mem) (blk n i : Nat) (m : Mem) (hb : blk < blocksTotal)
    (hi : i + n ≤ pagesPerBlock) :
    writePages cache blk n i m = some (0, program m (blk * blockSize + i * pageSize)
      (slice cache (i * pageSize) (n * pageSize))) := by
  induction n generalizing i m with
  | zero => rw [writePages, Nat.zero_mul, slice_zero, program_nil]
  | succ n ih =>
    have answer := nandPageWrite_inside m (object_notNull (i * pageSize))
      (block_page_onChip hb (by omega : i < pagesPerBlock))
      (by rw [length_slice]; omega : 0 + (slice cache (i * pageSize) pageSize).length ≤ pageSize)
    rw [block_page] at answer
    have joined := program_append m (blk * blockSize + i * pageSize)
      (slice cache (i * pageSize) pageSize)
      (slice cache (i * pageSize + pageSize) (n * pageSize))
    rw [length_slice, ← slice_add] at joined
    unfold writePages
    rw [if_neg (page_in_cache (by omega))]
    simp only [answer, ne_eq, not_true_eq_false, if_false]
    rw [ih (i + 1) _ (by omega), Nat.add_mul, Nat.one_mul, ← Nat.add_assoc, joined, Nat.add_mul,
      Nat.one_mul, Nat.add_comm pageSize]

theorem rebuild_eq_erase (m : Mem) (base offset length : Nat) (h : offset + length ≤ blockSize) :
    program (erase m base blockSize) base
        (slice (store (store (fun _ => 0) 0 (slice m base blockSize)) offset
          (List.replicate length 0xFF)) 0 blockSize) =
      erase m (base + offset) length := by
  funext x
  by_cases inBlock : base ≤ x ∧ x < base + blockSize
  · rw [program_inside inBlock.1 (by rw [length_slice]; exact inBlock.2),
      erase_inside inBlock.1 inBlock.2, ones_and, getD_slice _ _ _ _ (by omega), Nat.zero_add]
    by_cases patched : base + offset ≤ x ∧ x < base + offset + length
    · rw [erase_inside patched.1 patched.2, store_inside (by omega)
        (by rw [List.length_replicate]; omega), List.getD_replicate _ (by omega)]
    · rw [erase_outside (by omega), store_outside (by rw [List.length_replicate]; omega),
        store_inside (by omega) (by rw [length_slice]; omega), getD_slice _ _ _ _ (by omega)]
      congr 1
      omega
  · rw [program_outside (by rw [length_slice]; omega), erase_outside (by omega),
      erase_outside (by omega)]

theorem eraseBlock_inside (m : Mem) {eraseStart eraseEnd blk base : Nat}
    (hbase : blk * blockSize = base) (hb : blk < blocksTotal) (lo : eraseStart < base + blockSize)
    (hi : base ≤ eraseEnd) (ordered : eraseStart ≤ eraseEnd) :
    eraseBlock m eraseStart eraseEnd blk = some (0, erase m (max eraseStart base)
      (min eraseEnd (base + blockSize) - max eraseStart base)) := by
  have block := blockSize_eq
  have onChip : base + blockSize ≤ totalSize := by
    rw [← hbase, ← Nat.succ_mul]
    exact Nat.mul_le_mul_right blockSize hb
  have total := totalSize_eq
  have start : u32 base = base := Nat.mod_eq_of_lt (by omega)
  have stop : u32 (base + blockSize) = base + blockSize := Nat.mod_eq_of_lt (by omega)
  have offset : (if eraseStart > base then eraseStart - base else 0) =
      max eraseStart base - base := by
    split <;> omega
  have length : (if eraseEnd < base + blockSize
        then sub32 eraseEnd (base + (max eraseStart base - base))
        else sub32 (base + blockSize) (base + (max eraseStart base - base))) =
      min eraseEnd (base + blockSize) - max eraseStart base := by
    unfold sub32
    split <;> omega
  have fits : max eraseStart base - base +
      (min eraseEnd (base + blockSize) - max eraseStart base) ≤ blockSize := by
    omega
  unfold eraseBlock
  simp only [hbase, start, stop, offset, length, nandErasePage_block m hb, ne_eq,
    not_true_eq_false, if_false]
  split
  · rename_i whole
    rw [whole.2]
    exact congrArg (fun m' => some ((0 : Int), m')) (erase_congr m (by omega) rfl)
  · have rebuilt := rebuild_eq_erase m base _ _ fits
    rw [readPages_inside m blk pagesPerBlock 0 _ hb (by omega), Option.bind_some, if_neg (by simp),
      if_neg (by omega), writePages_inside _ _ _ _ _ hb (by omega)]
    simp only [Nat.zero_mul, Nat.add_zero, hbase, show pagesPerBlock * pageSize = blockSize from rfl]
    rw [rebuilt]
    exact congrArg (fun m' => some ((0 : Int), m')) (erase_congr m (by omega) rfl)

theorem eraseLoop_inside {eraseStart eraseEnd : Nat} (count blk : Nat) (m : Mem)
    (hb : blk + count ≤ blocksTotal) (first : eraseStart < (blk + 1) * blockSize)
    (reach : eraseEnd ≤ (blk + count) * blockSize)
    (last : count ≠ 0 → (blk + count) * blockSize < eraseEnd + blockSize)
    (ordered : eraseStart ≤ eraseEnd) :
    eraseLoop eraseStart eraseEnd count blk m =
      some (0, erase m (max eraseStart (blk * blockSize))
        (eraseEnd - max eraseStart (blk * blockSize))) := by
  induction count generalizing blk m with
  | zero =>
    rw [Nat.add_zero] at reach
    rw [eraseLoop, show eraseEnd - max eraseStart (blk * blockSize) = 0 by omega, erase_zero]
  | succ count ih =>
    have next : (blk + 1) * blockSize = blk * blockSize + blockSize := by
      rw [Nat.add_mul, Nat.one_mul]
    have begun : blk * blockSize < eraseEnd := by
      have span : (blk + 1) * blockSize ≤ (blk + (count + 1)) * blockSize :=
        Nat.mul_le_mul_right _ (by omega)
      have := last (by omega)
      omega
    have shifted : blk + (count + 1) = blk + 1 + count := by omega
    have block := blockSize_eq
    rw [shifted] at reach last
    rw [eraseLoop, eraseBlock_inside m rfl (by omega) (by omega) (Nat.le_of_lt begun) ordered]
    simp only [Option.bind_eq_bind, Option.bind_some, ne_eq, not_true_eq_false, if_false]
    rw [ih (blk + 1) _ (by omega) (by rw [Nat.add_mul (blk + 1)]; omega) reach
      fun _ => last (by omega), next]
    apply congrArg (fun m' => some ((0 : Int), m'))
    by_cases more : blk * blockSize + blockSize < eraseEnd
    · have joined := erase_add m (max eraseStart (blk * blockSize))
        (blk * blockSize + blockSize - max eraseStart (blk * blockSize))
        (eraseEnd - (blk * blockSize + blockSize))
      have seam : max eraseStart (blk * blockSize) +
          (blk * blockSize + blockSize - max eraseStart (blk * blockSize)) =
          blk * blockSize + blockSize := by omega
      rw [seam] at joined
      rw [show min eraseEnd (blk * blockSize + blockSize) = blk * blockSize + blockSize by omega,
        show max eraseStart (blk * blockSize + blockSize) = blk * blockSize + blockSize by omega,
        joined]
      exact erase_congr m rfl (by omega)
    · rw [show eraseEnd - max eraseStart (blk * blockSize + blockSize) = 0 by omega, erase_zero]
      exact erase_congr m rfl (by omega)

theorem toNat_add_inside {addr size : UInt32} (h : addr.toNat + size.toNat ≤ totalSize) :
    (addr + size).toNat = addr.toNat + size.toNat := by
  have total := totalSize_eq
  rw [UInt32.toNat_add]
  omega

theorem page_cut {addr size : UInt32} (h : addr.toNat + size.toNat ≤ totalSize) :
    pageFuel ≤ pageFuel + addr.toNat / pageSize ∧ addr.toNat % pageSize < pageSize ∧
      addr.toNat / pageSize * pageSize + addr.toNat % pageSize = addr.toNat ∧
      addr.toNat / pageSize * pageSize + addr.toNat % pageSize + size.toNat ≤ totalSize := by
  have cut := Nat.div_add_mod' addr.toNat pageSize
  exact ⟨Nat.le_add_right _ _, Nat.mod_lt _ (by decide), cut, by rw [cut]; exact h⟩

private theorem toNat_ne_zero {w : UInt32} (h : w ≠ 0) : w.toNat ≠ 0 :=
  fun zero => h (UInt32.toNat_inj.mp zero)

theorem partitionNandRead_inside (m : Mem) (addr buf size : UInt32)
    (inside : addr.toNat + size.toNat ≤ totalSize)
    (clear : Clear (addr.toNat % pageSize) buf.toNat size.toNat) :
    partitionNandRead m addr buf size = (0, slice m addr.toNat size.toNat) := by
  obtain ⟨fuel, inPage, cut, reach⟩ := page_cut inside
  have notNull : buf ≠ 0 := fun null => clear.1 (by rw [null]; rfl)
  unfold partitionNandRead
  rw [if_neg (not_or.mpr ⟨by rw [toNat_add_inside inside]; omega, notNull⟩),
    readLoop_inside m pageFuel _ _ _ _ fuel inPage reach buf.toNat_lt clear, cut]

/-- A buffer that stays below the last address has no piece at address 0. -/
theorem clear_window {offset : Nat} {buf size : UInt32} (notNull : buf ≠ 0)
    (window : buf.toNat + size.toNat ≤ 4294967296) : Clear offset buf.toNat size.toNat :=
  ⟨toNat_ne_zero notNull, fun _ => window⟩

theorem partitionNandRead_null (m : Mem) (addr buf size : UInt32)
    (inside : addr.toNat % pageSize + size.toNat ≤ totalSize) (more : size ≠ 0)
    (piece : ¬ Clear (addr.toNat % pageSize) buf.toNat size.toNat) :
    (partitionNandRead m addr buf size).1 ≠ 0 := by
  unfold partitionNandRead
  split
  · simp
  · exact readLoop_null m _ _ _ _ _ (Nat.mod_lt _ (by decide)) inside buf.toNat_lt
      (toNat_ne_zero more) piece

theorem partitionNandWrite_inside (m : Mem) (addr buf size : UInt32) (bs : List UInt8)
    (full : bs.length = size.toNat) (inside : addr.toNat + size.toNat ≤ totalSize)
    (notNull : buf ≠ 0) (window : buf.toNat + size.toNat ≤ 4294967296) :
    partitionNandWrite m addr buf bs size = (0, program m addr.toNat bs) := by
  obtain ⟨fuel, inPage, cut, reach⟩ := page_cut inside
  rw [← full] at reach window
  unfold partitionNandWrite
  rw [if_neg (not_or.mpr ⟨by rw [toNat_add_inside inside]; omega, notNull⟩),
    List.take_of_length_le (by omega),
    writeLoop_inside m pageFuel _ _ _ _ fuel inPage reach (toNat_ne_zero notNull) window, cut]

/-- `partition_nand_erase` sets exactly the bytes of a range that does not end at address 0. -/
theorem partitionNandErase_positive (m : Mem) (addr size : UInt32)
    (positive : 0 < addr.toNat + size.toNat) (inside : addr.toNat + size.toNat ≤ totalSize) :
    partitionNandErase m addr size = some (0, erase m addr.toNat size.toNat) := by
  have total := totalSize_eq
  have block := blockSize_eq
  have last : sub32 (addr.toNat + size.toNat) 1 = addr.toNat + size.toNat - 1 := by
    unfold sub32
    omega
  have firstCut := Nat.div_add_mod' addr.toNat blockSize
  have firstRest := Nat.mod_lt addr.toNat (by decide : blockSize > 0)
  have lastCut := Nat.div_add_mod' (addr.toNat + size.toNat - 1) blockSize
  have lastRest := Nat.mod_lt (addr.toNat + size.toNat - 1) (by decide : blockSize > 0)
  -- an empty range at the start of a block ends in the block before
  have order : addr.toNat / blockSize ≤ (addr.toNat + size.toNat - 1) / blockSize + 1 := by
    have step := Nat.div_le_div_right (c := blockSize)
      (show addr.toNat ≤ addr.toNat + size.toNat - 1 + blockSize by omega)
    rwa [Nat.add_div_right _ (by decide)] at step
  have chip : (addr.toNat + size.toNat - 1) / blockSize < blocksTotal :=
    Nat.div_lt_of_lt_mul (by rw [Nat.mul_comm]; change _ < totalSize; omega)
  unfold partitionNandErase
  rw [toNat_add_inside inside, if_neg (by omega)]
  simp only [last]
  rw [eraseLoop_inside _ _ _ (by omega) (by rw [Nat.add_mul]; omega)
    (by rw [Nat.add_sub_cancel' order, Nat.add_mul]; omega)
    (fun _ => by rw [Nat.add_sub_cancel' order, Nat.add_mul]; omega) (by omega)]
  exact congrArg (fun m' => some ((0 : Int), m')) (erase_congr m (by omega) (by omega))

theorem partitionNandErase_inside (m : Mem) (addr size : UInt32) (nonempty : size ≠ 0)
    (inside : addr.toNat + size.toNat ≤ totalSize) :
    partitionNandErase m addr size = some (0, erase m addr.toNat size.toNat) := by
  have positive := Nat.pos_of_ne_zero (toNat_ne_zero nonempty)
  exact partitionNandErase_positive m addr size (by omega) inside

private theorem eraseBlock_escapes (m : Mem) {eraseStart eraseEnd blk length : Nat}
    (hb : blk < blocksTotal) (begins : ¬ eraseStart > u32 (blk * blockSize))
    (ends : eraseEnd < u32 (u32 (blk * blockSize) + blockSize))
    (borrowed : sub32 eraseEnd (u32 (blk * blockSize) + 0) = length) (long : length > blockSize) :
    eraseBlock m eraseStart eraseEnd blk = none := by
  unfold eraseBlock
  simp only [if_neg begins, if_pos ends, borrowed]
  rw [if_neg fun whole => Nat.ne_of_gt long whole.2,
    readPages_inside m blk pagesPerBlock 0 _ hb (by omega), Option.bind_some, if_neg (by simp),
    nandErasePage_block m hb, if_neg (by simp), if_pos (by omega)]

private theorem eraseLoop_next {eraseStart eraseEnd count blk : Nat} {m m' : Mem}
    (turn : eraseBlock m eraseStart eraseEnd blk = some (0, m')) :
    eraseLoop eraseStart eraseEnd (count + 1) blk m =
      eraseLoop eraseStart eraseEnd count (blk + 1) m' := by
  rw [eraseLoop, turn]
  rfl

private theorem eraseLoop_escapes {eraseStart eraseEnd count blk : Nat} {m : Mem}
    (turn : eraseBlock m eraseStart eraseEnd blk = none) :
    eraseLoop eraseStart eraseEnd (count + 1) blk m = none := by
  rw [eraseLoop, turn]
  rfl

/-- An empty range at address 0 ends, minus one, at the last address. -/
theorem partitionNandErase_empty (m : Mem) : partitionNandErase m 0 0 = none := by
  have loop : partitionNandErase m 0 0 =
      eraseLoop 0 0 (sub32 0 1 / blockSize + 1 - 0 / blockSize) (0 / blockSize) m := if_neg (by decide)
  have count : sub32 0 1 / blockSize + 1 - 0 / blockSize = 32766 + 1 + 1 := by
    simp only [sub32, blockSize, pagesPerBlock, pageSize]
  have first : eraseBlock m 0 0 0 = some (0, m) := by
    have turn := eraseBlock_inside m (Nat.zero_mul blockSize) (by decide) (by decide)
      (Nat.le_refl 0) (Nat.le_refl 0)
    rwa [Nat.zero_min, Nat.zero_sub, erase_zero] at turn
  have second : eraseBlock m 0 0 (0 + 1) = none := by
    have borrowed : sub32 0 (u32 ((0 + 1) * blockSize) + 0) = 4294836224 := by
      simp only [sub32, u32, blockSize, pagesPerBlock, pageSize]
    refine eraseBlock_escapes m (by decide) (Nat.not_lt_zero _) ?_ borrowed ?_
    · simp only [u32, blockSize, pagesPerBlock, pageSize]
      omega
    · simp only [blockSize, pagesPerBlock, pageSize]
      omega
  rw [loop, count, Nat.zero_div, eraseLoop_next first, eraseLoop_escapes second]

/-- `partition_nand_erase` is exact on every range inside the device but the empty one at 0. -/
theorem partitionNandErase_exact_iff (m : Mem) (addr size : UInt32)
    (inside : addr.toNat + size.toNat ≤ totalSize) :
    partitionNandErase m addr size = some (0, erase m addr.toNat size.toNat) ↔
      ¬ (addr = 0 ∧ size = 0) := by
  constructor
  · rintro exact ⟨rfl, rfl⟩
    rw [partitionNandErase_empty] at exact
    cases exact
  · intro nonempty
    apply partitionNandErase_positive m addr size _ inside
    rcases Nat.eq_zero_or_pos (addr.toNat + size.toNat) with zero | positive
    · have zeros := Nat.add_eq_zero_iff.mp zero
      exact absurd ⟨UInt32.toNat_inj.mp zeros.1, UInt32.toNat_inj.mp zeros.2⟩ nonempty
    · exact positive

/-- Five bytes across the end of the first block. -/
theorem partitionNandErase_across : partitionNandErase (fun _ => 0) 131070 5 =
    some (0, erase (fun _ => 0) 131070 5) :=
  (partitionNandErase_exact_iff (fun _ => 0) 131070 5 (by decide)).mpr (by decide)

/-- No range, and the bytes of `cache_erase` that a block takes do not suffice. -/
theorem partitionNandErase_not_exact : ¬ ∀ (m : Mem) (addr size : UInt32),
    addr.toNat + size.toNat ≤ totalSize →
      partitionNandErase m addr size = some (0, erase m addr.toNat size.toNat) := by
  intro exact
  have empty := exact (fun _ => 0xFF) 0 0 (by decide)
  rw [partitionNandErase_empty] at empty
  cases empty

theorem partitionNandRead_oversize (m : Mem) (addr buf size : UInt32)
    (large : totalSize + pageSize < size.toNat) : (partitionNandRead m addr buf size).1 ≠ 0 := by
  intro ok
  unfold partitionNandRead at ok
  split at ok
  · simp at ok
  · have bound := readLoop_ok m _ _ _ _ _ (Nat.mod_lt _ (by decide)) size.toNat_lt (by omega) ok
    omega

end T113Boot.Nand.Port
