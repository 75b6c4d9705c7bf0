/- Module: T113Boot/FirstStage/Handover
   layer: proof
   digest: The first stage copies an image step by step, and what has arrived at the jump. -/

import T113Boot.FirstStage.Spi
import T113Boot.Lib.LittleEndian

set_option autoImplicit false
set_option relaxedAutoImplicit false

namespace T113Boot.FirstStage.Handover

open T113Boot.Lib.Cells
open T113Boot.Lib.LittleEndian
open T113Boot.FirstStage.Spi

def imgOffsetInFlash : UInt32 := 0x100000
def imgMagic : UInt32 := 0x12345678

/-- `boot_head_t` -/
structure BootHead where
  imgMagic : UInt32
  imgSize : UInt32
  imgLoad : UInt32
  imgEntry : UInt32
deriving DecidableEq

def BootHead.ofBytes (bs : List UInt8) : BootHead :=
  ⟨wordAt bs 0, wordAt bs 4, wordAt bs 8, wordAt bs 12⟩

/-- The address space, in which addresses wrap around. -/
abbrev Ram := UInt32 → UInt8

/-- Bytes received at a buffer. -/
def Ram.put (ram : Ram) (buf : UInt32) (bs : List UInt8) : Ram := fun a =>
  if (a - buf).toNat < bs.length then bs.getD (a - buf).toNat 0 else ram a

/-- How many steps of 2048 bytes the image takes. -/
def stepCount (imgSize : UInt32) : UInt32 :=
  let count := imgSize / 2048
  if imgSize % 2048 ≠ 0 then count + 1 else count

/-- The copy loop, with as many steps to go as the first argument says. -/
def copyLoop (info : SpiNandInfo) (dstAddr : UInt32) : Nat → UInt32 → Chip → Ram → Ram
  | 0, _, _, ram => ram
  | n + 1, i, c, ram =>
    let r := spiNandRead info c (imgOffsetInFlash + 2048 * i) 2048
    copyLoop info dstAddr n (i + 1) r.chip (ram.put (dstAddr + 2048 * i) r.bytes)

/-- How `main` ends: in one of its endless loops, or in the jump. -/
inductive Ending
  | stops
  | jumps (appEntry : UInt32) (ram : Ram)

/-- `main` from the detection on. `stack` is what `img_head` holds before it is read. -/
def main (c : Chip) (stack : List UInt8) (ram : Ram) : Ending :=
  match spiNandDetect c with
  | none => .stops
  | some (info, c) =>
    let r := spiNandRead info c imgOffsetInFlash 16
    let imgHead := BootHead.ofBytes (r.bytes ++ stack.drop r.bytes.length)
    if imgHead.imgMagic ≠ imgMagic then .stops
    else .jumps imgHead.imgEntry
      (copyLoop info imgHead.imgLoad (stepCount imgHead.imgSize).toNat 0 r.chip ram)

theorem listed_pageSize {info : SpiNandInfo} (listed : info ∈ spiNandInfos) :
    info.pageSize = 2048 ∨ info.pageSize = 4096 := by
  revert info
  decide

theorem listed_mode {info : SpiNandInfo} (listed : info ∈ spiNandInfos) : info.mode ≠ .quadIo := by
  revert info
  decide

theorem spiNandInfo_listed (c : Chip) (listed : c.type ∈ spiNandInfos) :
    spiNandInfo c = some c.type := by
  have table : ∀ info ∈ spiNandInfos, ∀ dummy : Bool,
      spiNandInfo ⟨info, dummy, 0, fun _ => 0, 0⟩ = some info := by decide
  exact table c.type listed c.dummy

/-- The register settings that the reads rely on. -/
def Ready (c : Chip) : Prop :=
  (c.type.id.mfr = mfrWinbond → c.config &&& configPosBuf = 0) ∧
    (c.type.id.mfr = mfrGigadevice → c.config &&& 0x01 = 0x01)

/-- Nothing but the page in the cache register differs. -/
def SameChip (c c' : Chip) : Prop :=
  c'.type = c.type ∧ c'.config = c.config ∧ c'.cells = c.cells

theorem getConfigOtp_eq (c : Chip) : getConfigOtp c = c.config := rfl

theorem setConfigOtp_eq (c : Chip) (val : UInt8) : setConfigOtp c val = { c with config := val } :=
  rfl

private theorem clear_buf (val : UInt8) : val &&& ~~~configPosBuf &&& configPosBuf = 0 := by
  rw [UInt8.and_assoc]
  exact UInt8.and_zero

private theorem quad_bit (val : UInt8) : (val &&& 0x01).toNat = val.toNat % 2 :=
  (UInt8.toNat_and val 0x01).trans (Nat.and_one_is_mod _)

private theorem set_quad (val : UInt8) : (val ||| 0x01) &&& 0x01 = 0x01 := by
  apply UInt8.toNat_inj.mp
  rw [quad_bit, UInt8.toNat_or]
  exact Nat.or_mod_two_eq_one.mpr (.inr rfl)

private theorem quad_set {val : UInt8} (nonzero : val &&& 0x01 ≠ 0) : val &&& 0x01 = 0x01 := by
  have bit := quad_bit val
  have zero : (val &&& 0x01).toNat ≠ 0 := fun is => nonzero (UInt8.toNat_inj.mp is)
  apply UInt8.toNat_inj.mp
  show (val &&& 0x01).toNat = 1
  omega

theorem spiNandDetect_listed (c : Chip) (listed : c.type ∈ spiNandInfos) :
    ∃ c', spiNandDetect c = some (c.type, c') ∧ c'.type = c.type ∧ c'.cells = c.cells ∧
      Ready c' := by
  unfold spiNandDetect
  rw [spiNandInfo_listed c listed]
  by_cases winbond : c.type.id.mfr = mfrWinbond
  · have other : c.type.id.mfr ≠ mfrGigadevice := by
      rw [winbond]
      decide
    refine ⟨_, if_pos winbond, ?_⟩
    rw [getConfigOtp_eq, setConfigOtp_eq]
    split
    · exact ⟨rfl, rfl, fun _ => clear_buf _, fun gigadevice => absurd gigadevice other⟩
    · rename_i zero
      refine ⟨rfl, rfl, fun _ => ?_, fun gigadevice => absurd gigadevice other⟩
      rw [not_not.mp zero]
      rfl
  · by_cases gigadevice : c.type.id.mfr = mfrGigadevice
    · refine ⟨_, (if_neg winbond).trans (if_pos gigadevice), ?_⟩
      rw [getConfigOtp_eq, setConfigOtp_eq]
      split
      · exact ⟨rfl, rfl, fun is => absurd is winbond, fun _ => set_quad _⟩
      · rename_i nonzero
        exact ⟨rfl, rfl, fun is => absurd is winbond, fun _ => quad_set nonzero⟩
    · refine ⟨_, (if_neg winbond).trans (if_neg gigadevice), rfl, rfl, ?_, ?_⟩
      · exact fun is => absurd is winbond
      · exact fun is => absurd is gigadevice

theorem spiNandLoadPage_eq (c : Chip) (offset : UInt32) (large : 256 ≤ c.type.pageSize.toNat) :
    spiNandLoadPage c.type c offset =
      { c with row := offset.toNat / c.type.pageSize.toNat } := by
  have small : offset.toNat / c.type.pageSize.toNat < 16777216 := by
    have quotient : offset.toNat / c.type.pageSize.toNat ≤ offset.toNat / 256 :=
      Nat.div_le_div_left large (by decide)
    have := offset.toNat_lt
    omega
  have row (pa : UInt32) (short : pa.toNat < 16777216) :
      65536 * (pa >>> 16).toUInt8.toNat + 256 * (pa >>> 8).toUInt8.toNat + pa.toUInt8.toNat =
        pa.toNat := by
    simp only [UInt32.toNat_toUInt8, UInt32.toNat_shiftRight, Nat.shiftRight_eq_div_pow]
    change 65536 * (pa.toNat / 2 ^ 16 % 256) + 256 * (pa.toNat / 2 ^ 8 % 256) + pa.toNat % 256 = _
    omega
  have quotient : (offset / c.type.pageSize).toNat = offset.toNat / c.type.pageSize.toNat :=
    UInt32.toNat_div _ _
  rw [← quotient, ← row _ (quotient ▸ small)]
  rfl

theorem output_page {c : Chip} {n : Nat} (inside : n ≤ c.type.pageSize.toNat) :
    c.output 0 n = slice c.cells (c.row * c.type.pageSize.toNat) n := by
  unfold Chip.output
  split
  · rfl
  · apply List.map_congr_left
    intro i below
    have := List.mem_range.mp below
    rw [if_pos (by omega), Nat.add_zero]

theorem takes_readOpcode {c : Chip} (ready : Ready c) : c.Takes (readOpcode c.type.mode) := by
  cases c.type.mode with
  | single => exact .inl rfl
  | dualRx => exact .inr (.inl rfl)
  | quadRx => exact .inr (.inr ⟨.inl rfl, ready.2⟩)
  | quadIo => exact .inr (.inr ⟨.inr rfl, ready.2⟩)

theorem spiTransfer_read {c : Chip} (ready : Ready c) {dummies : List UInt8}
    (length : 4 + dummies.length = c.commandLength) {n : Nat}
    (inside : n ≤ c.type.pageSize.toNat) :
    spiTransfer c (readOpcode c.type.mode :: 0 :: 0 :: 0 :: dummies) n =
      (slice c.cells (c.row * c.type.pageSize.toNat) n, c) := by
  have opcode : readOpcode c.type.mode ≠ opcodeReadPage := by
    cases c.type.mode with
    | single => decide
    | dualRx => decide
    | quadRx => decide
    | quadIo => decide
  rw [← output_page inside]
  exact (if_neg opcode).trans (if_pos ⟨takes_readOpcode ready, length⟩)

theorem row_start {addr page : UInt32} (aligned : addr % page = 0) :
    addr.toNat / page.toNat * page.toNat = addr.toNat := by
  have remainder := congrArg UInt32.toNat aligned
  rw [UInt32.toNat_mod] at remainder
  exact Nat.div_mul_cancel (Nat.dvd_of_mod_eq_zero remainder)

theorem readPages_done (info : SpiNandInfo) (fuel : Nat) (c : Chip) (address len : UInt32)
    (buf : List UInt8) : readPages info fuel c address 0 len buf = ⟨len, buf, c⟩ := by
  cases fuel with
  | zero => rfl
  | succ fuel => exact if_pos rfl

section Listed

variable {c : Chip} (listed : c.type ∈ spiNandInfos)

include listed

theorem listed_large : 256 ≤ c.type.pageSize.toNat := by
  rcases listed_pageSize listed with size | size <;> rw [size] <;> decide

theorem aligned_column {addr : UInt32} (aligned : addr % c.type.pageSize = 0) :
    addr &&& (c.type.pageSize - 1) = 0 := by
  have remainder := congrArg UInt32.toNat aligned
  rw [UInt32.toNat_mod] at remainder
  apply UInt32.toNat_inj.mp
  rw [UInt32.toNat_and]
  rcases listed_pageSize listed with size | size <;> rw [size] at remainder ⊢
  · exact (Nat.and_two_pow_sub_one_eq_mod addr.toNat 11).trans remainder
  · exact (Nat.and_two_pow_sub_one_eq_mod addr.toNat 12).trans remainder

theorem listed_commandLength (ready : Ready c) :
    c.commandLength = 4 + if c.type.id.mfr = mfrWinbond then 1 else 0 := by
  have continuous : c.Continuous ↔ c.type.id.mfr = mfrWinbond := by
    constructor
    · exact fun is => is.1
    · exact fun winbond => ⟨winbond, ready.1 winbond⟩
  unfold Chip.commandLength
  rw [if_neg (listed_mode listed)]
  simp only [continuous]

theorem loaded_read (ready : Ready c) {addr : UInt32} (aligned : addr % c.type.pageSize = 0)
    {dummies : List UInt8}
    (length : dummies.length = if c.type.id.mfr = mfrWinbond then 1 else 0) {n : Nat}
    (inside : n ≤ c.type.pageSize.toNat) :
    let r := spiTransfer (spiNandLoadPage c.type c addr)
      (readOpcode c.type.mode :: 0 :: 0 :: 0 :: dummies) n
    r.1 = slice c.cells addr.toNat n ∧ SameChip c r.2 := by
  have loaded := spiNandLoadPage_eq c addr (listed_large listed)
  generalize spiNandLoadPage c.type c addr = d at loaded ⊢
  have type : d.type = c.type := by
    rw [loaded]
  have readyLoaded : Ready d := by
    rw [loaded]
    exact ready
  have command : 4 + dummies.length = d.commandLength := by
    rw [listed_commandLength (type ▸ listed) readyLoaded, type, length]
  have read := spiTransfer_read readyLoaded command (type ▸ inside)
  rw [type] at read
  rw [read, loaded]
  exact ⟨congrArg (slice c.cells · n) (row_start aligned), rfl, rfl, rfl⟩

theorem spiNandRead_aligned (ready : Ready c) {addr rxlen : UInt32}
    (aligned : addr % c.type.pageSize = 0) (some_ : rxlen ≠ 0)
    (inside : rxlen ≤ c.type.pageSize) :
    (spiNandRead c.type c addr rxlen).bytes = slice c.cells addr.toNat rxlen.toNat ∧
      SameChip c (spiNandRead c.type c addr rxlen).chip := by
  have column := aligned_column listed aligned
  have fits : rxlen.toNat ≤ c.type.pageSize.toNat := UInt32.le_iff_toNat_le.mp inside
  unfold spiNandRead
  rw [if_neg (not_not.mpr aligned)]
  by_cases gigadevice : c.type.id.mfr = mfrGigadevice
  · have short : ¬ rxlen > c.type.pageSize - 0 := by
      rw [UInt32.sub_zero]
      exact UInt32.not_lt.mpr inside
    have other : c.type.id.mfr ≠ mfrWinbond := by
      rw [gigadevice]
      decide
    rw [if_pos gigadevice, readPages, if_neg some_]
    dsimp only
    rw [column, if_neg short, UInt32.sub_self, readPages_done]
    exact loaded_read listed ready aligned (if_neg other).symm fits
  · rw [if_neg gigadevice, if_neg (listed_mode listed)]
    dsimp only
    rw [column]
    by_cases winbond : c.type.id.mfr = mfrWinbond
    · rw [if_pos winbond]
      exact loaded_read listed ready aligned (if_pos winbond).symm fits
    · rw [if_neg winbond]
      exact loaded_read listed ready aligned (if_neg winbond).symm fits

end Listed

theorem spiNandRead_unaligned {info : SpiNandInfo} (c : Chip) {addr : UInt32} (rxlen : UInt32)
    (unaligned : addr % info.pageSize ≠ 0) :
    spiNandRead info c addr rxlen = ⟨0xFFFFFFFF, [], c⟩ :=
  if_pos unaligned

/-- The step that byte `k` of the image belongs to. -/
def stepOf (k : UInt32) : Nat := k.toNat / 2048

/-- Byte `k` belongs to a step that starts on a page boundary. -/
def OnPage (info : SpiNandInfo) (k : UInt32) : Prop := info.pageSize = 2048 ∨ stepOf k % 2 = 0

instance (info : SpiNandInfo) (k : UInt32) : Decidable (OnPage info k) :=
  inferInstanceAs (Decidable (_ ∨ _))

private theorem step_address (i : UInt32) :
    (imgOffsetInFlash + 2048 * i).toNat = (1048576 + 2048 * i.toNat) % 4294967296 := by
  rw [UInt32.toNat_add, UInt32.toNat_mul]
  change (1048576 + 2048 * i.toNat % 4294967296) % 4294967296 = _
  omega

theorem step_aligned {info : SpiNandInfo} (listed : info ∈ spiNandInfos) {i k : UInt32}
    (step : stepOf k = i.toNat) :
    (imgOffsetInFlash + 2048 * i) % info.pageSize = 0 ↔ OnPage info k := by
  have remainder : (imgOffsetInFlash + 2048 * i) % info.pageSize = 0 ↔
      (1048576 + 2048 * i.toNat) % 4294967296 % info.pageSize.toNat = 0 := by
    rw [← step_address, ← UInt32.toNat_mod]
    exact UInt32.toNat_inj.symm
  rw [remainder, OnPage, step]
  rcases listed_pageSize listed with size | size <;> rw [size]
  · refine iff_of_true ?_ (.inl rfl)
    change _ % 2048 = 0
    omega
  · have large : (4096 : UInt32) ≠ 2048 := by decide
    rw [or_iff_right large]
    change _ % 4096 = 0 ↔ _
    omega

theorem put_step (ram : Ram) (dst : UInt32) {i : UInt32} (k : UInt32) {bs : List UInt8}
    (inside : i.toNat < 2097152) (length : bs.length = 2048) :
    ram.put (dst + 2048 * i) bs (dst + k) =
      if stepOf k = i.toNat then bs.getD (k.toNat % 2048) 0 else ram (dst + k) := by
  have distance : dst + k - (dst + 2048 * i) = k - 2048 * i := by
    grind
  have offset : (k - 2048 * i).toNat = (4294967296 - 2048 * i.toNat + k.toNat) % 4294967296 := by
    rw [UInt32.toNat_sub, UInt32.toNat_mul]
    change (4294967296 - 2048 * i.toNat % 4294967296 + k.toNat) % 4294967296 = _
    omega
  have small := k.toNat_lt
  unfold Ram.put stepOf
  rw [distance, offset, length]
  by_cases here : k.toNat / 2048 = i.toNat
  · have place : (4294967296 - 2048 * i.toNat + k.toNat) % 4294967296 = k.toNat % 2048 := by
      omega
    rw [if_pos here, place, if_pos (by omega)]
  · rw [if_neg here, if_neg (by omega)]

theorem step_byte (cells : Mem) {i k : UInt32} (step : stepOf k = i.toNat) :
    (slice cells (imgOffsetInFlash + 2048 * i).toNat 2048).getD (k.toNat % 2048) 0 =
      cells (imgOffsetInFlash + k).toNat := by
  rw [getD_slice _ _ _ _ (by omega), step_address, UInt32.toNat_add]
  change _ = cells ((1048576 + k.toNat) % 4294967296)
  unfold stepOf at step
  congr 1
  omega

theorem copyLoop_at {c : Chip} (listed : c.type ∈ spiNandInfos) (ready : Ready c) (dst : UInt32)
    (n : Nat) {i : UInt32} (inside : i.toNat + n ≤ 2097152) (ram : Ram) (k : UInt32) :
    copyLoop c.type dst n i c ram (dst + k) =
      if OnPage c.type k ∧ i.toNat ≤ stepOf k ∧ stepOf k < i.toNat + n then
        c.cells (imgOffsetInFlash + k).toNat
      else ram (dst + k) := by
  induction n generalizing i c ram with
  | zero =>
    rw [if_neg fun is => absurd is.2.2 (by omega)]
    rfl
  | succ n ih =>
    have next : (i + 1).toNat = i.toNat + 1 := by
      rw [UInt32.toNat_add]
      change (i.toNat + 1) % 4294967296 = _
      omega
    rw [copyLoop]
    by_cases aligned : (imgOffsetInFlash + 2048 * i) % c.type.pageSize = 0
    · have fits : (2048 : UInt32) ≤ c.type.pageSize := by
        rcases listed_pageSize listed with size | size <;> rw [size] <;> decide
      obtain ⟨bytes, type, config, cells⟩ :=
        spiNandRead_aligned listed ready aligned (by decide : (2048 : UInt32) ≠ 0) fits
      generalize spiNandRead c.type c (imgOffsetInFlash + 2048 * i) 2048 = r at *
      change r.bytes = slice c.cells _ 2048 at bytes
      have readyNext : Ready r.chip := by
        unfold Ready
        rw [type, config]
        exact ready
      have rest := ih (type ▸ listed) readyNext (i := i + 1) (by omega)
        (ram.put (dst + 2048 * i) r.bytes)
      rw [type, cells] at rest
      rw [rest, bytes, put_step ram dst k (by omega) (length_slice _ _ _), next]
      by_cases here : stepOf k = i.toNat
      · have onPage := (step_aligned listed here).mp aligned
        rw [if_neg (by omega), if_pos here, if_pos ⟨onPage, by omega, by omega⟩]
        exact step_byte c.cells here
      · rw [if_neg here]
        refine if_congr ?_ rfl rfl
        refine and_congr_right fun _ => ?_
        omega
    · rw [spiNandRead_unaligned c 2048 aligned, ih listed ready (by omega), next]
      have nothing : ram.put (dst + 2048 * i) [] (dst + k) = ram (dst + k) := if_neg (by simp)
      rw [nothing]
      refine if_congr ?_ rfl rfl
      refine and_congr_right fun onPage => ?_
      have elsewhere : stepOf k ≠ i.toNat :=
        fun here => aligned ((step_aligned listed here).mpr onPage)
      omega

/-- The header of the image in flash. -/
def imgHead (c : Chip) : BootHead := .ofBytes (slice c.cells imgOffsetInFlash.toNat 16)

/-- Byte `k` of the image, in flash and as it lies at the load address. -/
def ByteInPlace (c : Chip) (ram : Ram) (k : UInt32) : Prop :=
  ram ((imgHead c).imgLoad + k) = c.cells (imgOffsetInFlash + k).toNat

/-- The image lies at its load address, completely. -/
def Complete (c : Chip) (ram : Ram) : Prop := ∀ k < (imgHead c).imgSize, ByteInPlace c ram k

theorem main_listed (c : Chip) (listed : c.type ∈ spiNandInfos) (stack : List UInt8) (ram : Ram) :
    ∃ c', c'.type = c.type ∧ c'.cells = c.cells ∧ Ready c' ∧
      main c stack ram =
        if (imgHead c).imgMagic ≠ imgMagic then .stops
        else .jumps (imgHead c).imgEntry
          (copyLoop c.type (imgHead c).imgLoad (stepCount (imgHead c).imgSize).toNat 0 c' ram) := by
  obtain ⟨d, detected, type, cells, ready⟩ := spiNandDetect_listed c listed
  have listed' : d.type ∈ spiNandInfos := type ▸ listed
  have aligned : imgOffsetInFlash % d.type.pageSize = 0 := by
    rcases listed_pageSize listed' with size | size <;> rw [size] <;> decide
  have fits : (16 : UInt32) ≤ d.type.pageSize := by
    rcases listed_pageSize listed' with size | size <;> rw [size] <;> decide
  obtain ⟨bytes, same⟩ :=
    spiNandRead_aligned listed' ready aligned (by decide : (16 : UInt32) ≠ 0) fits
  obtain ⟨type', config', cells'⟩ := same
  unfold main
  rw [detected]
  dsimp only
  rw [← type]
  generalize spiNandRead d.type d imgOffsetInFlash 16 = r at *
  refine ⟨r.chip, type', cells'.trans cells, ?_, ?_⟩
  · unfold Ready
    rw [type', config']
    exact ready
  · have head : imgHead c = BootHead.ofBytes (r.bytes ++ stack.drop r.bytes.length) := by
      rw [bytes, cells]
      rfl
    rw [← head]

private theorem stepCount_toNat (size : UInt32) :
    (stepCount size).toNat = (size.toNat + 2047) / 2048 := by
  have bound := size.toNat_lt
  have quotient : (size / 2048).toNat = size.toNat / 2048 := UInt32.toNat_div _ _
  have remainder : size % 2048 = 0 ↔ size.toNat % 2048 = 0 := UInt32.toNat_inj.symm
  unfold stepCount
  dsimp only
  split
  · rename_i partly
    rw [UInt32.toNat_add, quotient]
    change (size.toNat / 2048 + 1) % 4294967296 = _
    have : ¬ size.toNat % 2048 = 0 := fun is => partly (remainder.mpr is)
    omega
  · rename_i whole
    rw [quotient]
    have : size.toNat % 2048 = 0 := remainder.mp (not_not.mp whole)
    omega

/-- At the jump a byte of the image is in place if its step started on a page boundary, and
otherwise what it was before. -/
theorem main_byte (c : Chip) (listed : c.type ∈ spiNandInfos) {stack : List UInt8}
    {ram ram' : Ram} {appEntry : UInt32} (jump : main c stack ram = .jumps appEntry ram')
    {k : UInt32} (inside : k < (imgHead c).imgSize) :
    ram' ((imgHead c).imgLoad + k) =
      if OnPage c.type k then c.cells (imgOffsetInFlash + k).toNat
      else ram ((imgHead c).imgLoad + k) := by
  obtain ⟨d, type, cells, ready, ends⟩ := main_listed c listed stack ram
  rw [ends] at jump
  split at jump
  · cases jump
  · cases jump
    have count := stepCount_toNat (imgHead c).imgSize
    have bound := (imgHead c).imgSize.toNat_lt
    have below := UInt32.lt_iff_toNat_lt.mp inside
    rw [← type, copyLoop_at (type ▸ listed) ready _ _ (i := 0) (by simp; omega), type, cells]
    refine if_congr ?_ rfl rfl
    refine and_iff_left ⟨Nat.zero_le _, ?_⟩
    unfold stepOf
    simp
    omega

/-- Whenever `main` jumps, the image has been loaded completely exactly if on a type with larger
pages the bytes of every second step had been in place before. -/
theorem main_complete_iff (c : Chip) (listed : c.type ∈ spiNandInfos) (stack : List UInt8)
    (ram ram' : Ram) (appEntry : UInt32) (jump : main c stack ram = .jumps appEntry ram') :
    Complete c ram' ↔
      (c.type.pageSize = 4096 → ∀ k < (imgHead c).imgSize, stepOf k % 2 = 1 →
        ByteInPlace c ram k) := by
  have byte (k : UInt32) (inside : k < (imgHead c).imgSize) :=
    main_byte c listed jump inside
  constructor
  · intro complete large k inside odd
    have offPage : ¬ OnPage c.type k := by
      rintro (small | even)
      · rw [large] at small
        exact absurd small (by decide)
      · omega
    have arrived := byte k inside
    rw [if_neg offPage] at arrived
    exact arrived.symm.trans (complete k inside)
  · intro before k inside
    have arrived := byte k inside
    by_cases onPage : OnPage c.type k
    · rw [if_pos onPage] at arrived
      exact arrived
    · rw [if_neg onPage] at arrived
      have large : c.type.pageSize = 4096 :=
        (listed_pageSize listed).resolve_left fun small => onPage (.inl small)
      have odd : stepOf k % 2 = 1 := by
        have : ¬ stepOf k % 2 = 0 := fun even => onPage (.inr even)
        omega
      exact arrived.trans (before large k inside odd)

/-- A chip whose flash is erased but for the header of an image that runs from 0x40000000. -/
def chipWith (type : SpiNandInfo) (imgSize : UInt32) : Chip :=
  ⟨type, false, 0, store (fun _ => 0xFF) imgOffsetInFlash.toNat
    ([imgMagic, imgSize, 0x40000000, 0x40000000].flatMap le32), 0⟩

theorem imgHead_chipWith (type : SpiNandInfo) (imgSize : UInt32) :
    imgHead (chipWith type imgSize) = ⟨imgMagic, imgSize, 0x40000000, 0x40000000⟩ := by
  have word := wordAt_flatMap_le32 [imgMagic, imgSize, 0x40000000, 0x40000000] []
  rw [List.append_nil] at word
  unfold imgHead BootHead.ofBytes chipWith
  dsimp only
  rw [show (16 : Nat) = ([imgMagic, imgSize, 0x40000000, 0x40000000].flatMap le32).length from rfl,
    slice_store]
  exact congr (congr (congr (congrArg BootHead.mk (word 0 (by simp))) (word 1 (by simp)))
    (word 2 (by simp))) (word 3 (by simp))

theorem main_chipWith {type : SpiNandInfo} (listed : type ∈ spiNandInfos) (imgSize : UInt32)
    (stack : List UInt8) (ram : Ram) :
    ∃ ram', main (chipWith type imgSize) stack ram = .jumps 0x40000000 ram' := by
  obtain ⟨c, -, -, -, ends⟩ := main_listed (chipWith type imgSize) listed stack ram
  rw [imgHead_chipWith, if_neg (not_not.mpr rfl)] at ends
  exact ⟨_, ends⟩

/-- On a W25N512GV an image of two steps is complete. -/
theorem main_complete_smallPages :
    ∃ ram', main (chipWith ⟨⟨mfrWinbond, 0xAA20, 2⟩, 2048, .quadRx⟩ 4096) [] (fun _ => 0) =
        .jumps 0x40000000 ram' ∧
      Complete (chipWith ⟨⟨mfrWinbond, 0xAA20, 2⟩, 2048, .quadRx⟩ 4096) ram' := by
  have listed : (⟨⟨mfrWinbond, 0xAA20, 2⟩, 2048, .quadRx⟩ : SpiNandInfo) ∈ spiNandInfos := by
    decide
  obtain ⟨ram', jump⟩ := main_chipWith listed 4096 [] fun _ => 0
  refine ⟨ram', jump, (main_complete_iff _ listed _ _ _ _ jump).mpr fun large => ?_⟩
  exact absurd large (by decide : (2048 : UInt32) ≠ 4096)

/-- On an MX35LF4GE4AD the loader jumps though the second half of the page has not arrived. -/
theorem main_incomplete :
    ∃ ram', main (chipWith ⟨⟨mfrMacronix, 0x37, 1⟩, 4096, .dualRx⟩ 4096) [] (fun _ => 0) =
        .jumps 0x40000000 ram' ∧
      ¬ Complete (chipWith ⟨⟨mfrMacronix, 0x37, 1⟩, 4096, .dualRx⟩ 4096) ram' := by
  have listed : (⟨⟨mfrMacronix, 0x37, 1⟩, 4096, .dualRx⟩ : SpiNandInfo) ∈ spiNandInfos := by
    decide
  obtain ⟨ram', jump⟩ := main_chipWith listed 4096 [] fun _ => 0
  refine ⟨ram', jump, fun complete => ?_⟩
  have size : (2048 : UInt32) <
      (imgHead (chipWith ⟨⟨mfrMacronix, 0x37, 1⟩, 4096, .dualRx⟩ 4096)).imgSize := by
    rw [imgHead_chipWith]
    decide
  have offPage : ¬ OnPage ⟨⟨mfrMacronix, 0x37, 1⟩, 4096, .dualRx⟩ 2048 := by decide
  have erased : (chipWith ⟨⟨mfrMacronix, 0x37, 1⟩, 4096, .dualRx⟩ 4096).cells
      (imgOffsetInFlash + 2048).toNat = 0xFF := by
    have past : imgOffsetInFlash.toNat +
        ([imgMagic, 4096, 0x40000000, 0x40000000].flatMap le32).length ≤
          (imgOffsetInFlash + 2048).toNat := by decide
    exact store_outside (.inr past)
  have byte := (main_byte _ listed jump size).symm.trans (complete 2048 size)
  have before := (if_neg offPage).symm.trans byte
  rw [erased] at before
  exact absurd before (by decide)

end T113Boot.FirstStage.Handover
