/- Module: T113Boot/Boot/Installation
   layer: specification
   digest: What the slots hold behind an update that installed `Download`. -/

import T113Boot.Boot.Verdict

set_option autoImplicit false
set_option relaxedAutoImplicit false

namespace T113Boot.Boot.Installation

open T113Boot.Lib.Cells
open T113Boot.Lib.LittleEndian
open T113Boot.Nand.Port
open T113Boot.Ota.Board
open T113Boot.Ota.Crc32
open T113Boot.Ota.Firmware
open T113Boot.Ota.Access
open T113Boot.Ota.Layout
open T113Boot.Ota.Outcomes
open T113Boot.Boot.Verdict

/-- The record behind an update that installed an image. -/
def upgraded (p : OtaParamers) : OtaParamers := closed p.switched

private theorem appSlot2_ne : appSlot2 ≠ appSlot1 := by decide

theorem activeApp_upgraded (p : OtaParamers) : activeApp (upgraded p) = otherApp p := by
  unfold upgraded closed OtaParamers.switched activeApp otherApp
  split
  · exact if_neg appSlot2_ne
  · exact if_pos rfl

theorem activeCrc_upgraded (p : OtaParamers) : activeCrc (upgraded p) = p.downloadCrc := by
  unfold upgraded closed OtaParamers.switched activeCrc
  split
  · exact if_neg appSlot2_ne
  · exact if_pos rfl

theorem otherApp_upgraded (p : OtaParamers) : otherApp (upgraded p) = activeApp p := by
  unfold upgraded closed OtaParamers.switched activeApp otherApp
  split
  · exact if_neg appSlot2_ne
  · exact if_pos rfl

theorem otherCrc_upgraded (p : OtaParamers) : otherCrc (upgraded p) = activeCrc p := by
  unfold upgraded closed OtaParamers.switched activeCrc otherCrc
  split
  · exact if_neg appSlot2_ne
  · exact if_pos rfl

theorem canBeBack_upgraded (p : OtaParamers) : (upgraded p).canBeBack = backupFlag := by
  unfold upgraded closed OtaParamers.switched
  split
  · rfl
  · rfl

variable {m : Mem}

theorem slice_installed (fits : Fits download 0 (imageSize m)) {n : Nat}
    (short : n ≤ (imageSize m).toNat) :
    slice (installed m) (otherApp (paramOf m)).start.toNat n = slice m download.start.toNat n := by
  rw [Fits, UInt32.toNat_zero] at fits
  have whole := slice_program (erase m (otherApp (paramOf m)).start.toNat
    (otherApp (paramOf m)).size.toNat) (otherApp (paramOf m)).start.toNat
    (slice m download.start.toNat (imageSize m).toNat) (by
      intro x low high
      rw [length_slice] at high
      have size := other_size (paramOf m)
      exact erase_inside low (by rw [size]; omega))
  rw [length_slice] at whole
  have cut := congrArg (List.take n) whole
  rw [take_slice _ _ _ _ short, take_slice _ _ _ _ short] at cut
  exact cut

/-- The sum of payload and header does not wrap. -/
def Sized (m : Mem) : Prop := (imageSize m).toNat = (headerOf download m).size.toNat + 32

theorem header_installed (fits : Fits download 0 (imageSize m)) (large : 32 ≤ (imageSize m).toNat) :
    headerOf (otherApp (paramOf m)) (installed m) = headerOf download m := by
  rw [headerOf, headerOf, slice_installed fits large]

theorem payload_installed (fits : Fits download 0 (imageSize m)) (sized : Sized m) :
    payloadOf (otherApp (paramOf m)) (installed m) = payloadOf download m := by
  unfold Sized at sized
  have bytes := slice_installed fits (Nat.le_refl _)
  rw [sized, Nat.add_comm, slice_add, slice_add] at bytes
  have parts := List.append_inj bytes (by rw [length_slice, length_slice])
  rw [payloadOf, payloadOf, header_installed fits (by omega)]
  exact parts.2

theorem word_erased {i : Nat} (inside : i + 4 ≤ 32) (short : (imageSize m).toNat < i + 4) :
    0xFF000000 ≤ (wordAt (slice (installed m) (otherApp (paramOf m)).start.toNat 32) i).toNat := by
  have size := other_size (paramOf m)
  have capacity : download.size.toNat = 1048576 := rfl
  have last : (slice (installed m) (otherApp (paramOf m)).start.toNat 32).getD (i + 3) 0 = 0xFF := by
    rw [getD_slice _ _ _ _ (by omega), installed,
      program_outside (.inr (by rw [length_slice]; omega)),
      erase_inside (by omega) (by rw [size]; omega)]
  rw [wordAt, last, UInt32.toNat_ofNat']
  generalize (slice (installed m) _ 32).getD i 0 = b₀
  generalize (slice (installed m) _ 32).getD (i + 1) 0 = b₁
  generalize (slice (installed m) _ 32).getD (i + 2) 0 = b₂
  have h₀ := b₀.toNat_lt
  have h₁ := b₁.toNat_lt
  have h₂ := b₂.toNat_lt
  have ones : (0xFF : UInt8).toNat = 255 := rfl
  omega

theorem sized_of_loadable (fits : Fits download 0 (imageSize m))
    (loadable : Loadable (installed m) (otherApp (paramOf m))) : Sized m := by
  have low := loadable.1
  have capacity : download.size.toNat = 1048576 := rfl
  have thirtyTwo : recordSize.toNat = 32 := rfl
  rw [Fits, other_size, capacity, thirtyTwo] at low
  have sum : (imageSize m).toNat = ((headerOf download m).size.toNat + 32) % 4294967296 := by
    rw [imageSize, UInt32.toNat_add, thirtyTwo]
  have copied : 8 ≤ (imageSize m).toNat := by
    by_contra short
    have erased : 0xFF000000 ≤ (headerOf (otherApp (paramOf m)) (installed m)).size.toNat :=
      @word_erased m 4 (by omega) (by omega)
    omega
  have same : (headerOf (otherApp (paramOf m)) (installed m)).size = (headerOf download m).size := by
    have bytes := slice_installed fits copied
    rw [← take_slice _ _ 32 8 (by omega), ← take_slice _ _ 32 8 (by omega)] at bytes
    have words := congrArg (wordAt · 4) bytes
    rwa [wordAt_take _ _ _ (by omega), wordAt_take _ _ _ (by omega)] at words
  have word := (headerOf download m).size.toNat_lt
  rw [same] at low
  rw [Sized, sum]
  omega

/-- A verified image in `Download` has a sum that does not wrap and fits. -/
theorem Verified.sized {crc : UInt32} (verified : Verified m crc) : Sized m := by
  have fits := verified.fits
  have size : download.size.toNat = 1048576 := rfl
  have record : recordSize.toNat = 32 := rfl
  unfold Fits at fits
  rw [Sized, imageSize, UInt32.toNat_add, record]
  omega

theorem Verified.whole {crc : UInt32} (verified : Verified m crc) :
    Fits download 0 (imageSize m) := by
  have sized := Verified.sized verified
  have fits := verified.fits
  have record : recordSize.toNat = 32 := rfl
  unfold Fits at fits ⊢
  rw [Sized] at sized
  rw [UInt32.toNat_zero, sized]
  omega

/-- A verified image stays one where only other partitions change. -/
theorem Verified.congr {m' : Mem} {crc : UInt32} {rs : List Region} (verified : Verified m crc)
    (same : SameOutside rs m m') (apart : ∀ t ∈ rs, Apart t download) : Verified m' crc := by
  have header := same.header_eq apart
  refine ⟨?_, ?_, ?_, ?_⟩
  · rw [header]
    exact verified.magic
  · rw [header]
    exact verified.fits
  · rw [header]
    exact verified.header
  · rw [same.payload_eq apart verified.fits]
    exact verified.payload

theorem headed_installed {crc : UInt32} (verified : Verified m crc) :
    Headed (installed m) (otherApp (paramOf m)) crc := by
  have sized := Verified.sized verified
  rw [Headed, header_installed (Verified.whole verified) (by rw [Sized] at sized; omega)]
  exact ⟨verified.magic, verified.header⟩

theorem loadable_installed {crc : UInt32} (verified : Verified m crc) :
    Loadable (installed m) (otherApp (paramOf m)) ↔
      Clear 32 (headerOf download m).loadAddr.toNat (headerOf download m).size.toNat := by
  have sized := Verified.sized verified
  rw [Loadable, header_installed (Verified.whole verified) (by rw [Sized] at sized; omega)]
  refine and_iff_right ?_
  have fits := verified.fits
  unfold Fits at fits ⊢
  rw [other_size]
  exact fits

theorem intact_installed {crc : UInt32} (verified : Verified m crc) :
    Intact (installed m) (otherApp (paramOf m)) crc := by
  rw [Intact, payload_installed (Verified.whole verified) (Verified.sized verified)]
  exact verified.payload

/-- The flash behind an update that installed `Download`. -/
def updated (m : Mem) : Mem := storeParam (installed m) (upgraded (paramOf m))

theorem paramOf_updated (m : Mem) : paramOf (updated m) = upgraded (paramOf m) := paramOf_store _ _

theorem activeApp_updated (m : Mem) : activeApp (paramOf (updated m)) = otherApp (paramOf m) := by
  rw [paramOf_updated, activeApp_upgraded]

theorem activeCrc_updated (m : Mem) : activeCrc (paramOf (updated m)) = (paramOf m).downloadCrc := by
  rw [paramOf_updated, activeCrc_upgraded]

theorem sameOutside_updated (m : Mem) : SameOutside [param] (installed m) (updated m) :=
  sameOutside_storeParam _ _

theorem header_updated {crc : UInt32} (verified : Verified m crc) :
    headerOf (otherApp (paramOf m)) (updated m) = headerOf download m := by
  have sized := Verified.sized verified
  rw [(sameOutside_updated m).header_eq (param_apart_other _),
    header_installed (Verified.whole verified) (by rw [Sized] at sized; omega)]

theorem payload_updated {crc : UInt32} (verified : Verified m crc) :
    payloadOf (otherApp (paramOf m)) (updated m) = payloadOf download m := by
  have sized := Verified.sized verified
  have whole := Verified.whole verified
  have room : 32 + (headerOf (otherApp (paramOf m)) (installed m)).size.toNat ≤
      (otherApp (paramOf m)).size.toNat := by
    rw [header_installed whole (by rw [Sized] at sized; omega), other_size]
    exact verified.fits
  rw [(sameOutside_updated m).payload_eq (param_apart_other _) room,
    payload_installed whole sized]

theorem booted_updated (verified : Verified m (paramOf m).downloadCrc) :
    booted (updated m) =
      if Clear 32 (headerOf download m).loadAddr.toNat (headerOf download m).size.toNat then
        some (otherApp (paramOf m))
      else none := by
  have magic : (paramOf (updated m)).magic = otaParaMagic := by
    rw [paramOf_updated]
    rfl
  have apart := param_apart_other (paramOf m)
  have headed := (headed_congr (sameOutside_updated m) apart _).mpr (headed_installed verified)
  have loads := (loadable_congr (sameOutside_updated m) apart).trans (loadable_installed verified)
  rw [booted, if_neg (not_not_intro magic), activeApp_updated, activeCrc_updated]
  by_cases clear : Clear 32 (headerOf download m).loadAddr.toNat (headerOf download m).size.toNat
  · have bootable : Bootable (installed m) (otherApp (paramOf m)) (paramOf m).downloadCrc :=
      ⟨headed_installed verified, (loadable_installed verified).mpr clear,
        intact_installed verified⟩
    rw [if_pos clear, if_pos ((bootable_congr (sameOutside_updated m) apart _).mpr bootable)]
  · have unloadable : ¬ Loadable (updated m) (otherApp (paramOf m)) := fun l => clear (loads.mp l)
    rw [if_neg clear, if_neg fun bootable => unloadable bootable.2.1, if_neg]
    rintro ⟨headless | ⟨loadable, -⟩, -⟩
    · exact headless headed
    · exact unloadable loadable

end T113Boot.Boot.Installation
