/- Module: T113Boot/Boot/Acceptance
   layer: results
   digest: What a download that succeeds has stored, whatever arrives and whichever writes fail. -/

import T113Boot.Boot.EndToEnd

set_option autoImplicit false
set_option relaxedAutoImplicit false

namespace T113Boot.Boot.Acceptance

open T113Boot.Lib.Cells
open T113Boot.Lib.Stoppable
open Prog
open T113Boot.Storage.Table
open T113Boot.Ota.Board
open T113Boot.Ota.Crc32
open T113Boot.Ota.Firmware
open T113Boot.Ota.Access
open T113Boot.Ota.Layout
open T113Boot.Ota.Footprint
open T113Boot.Ota.Loops
open T113Boot.Ota.Reception
open T113Boot.Ota.Outcomes
open T113Boot.Boot.Verdict
open T113Boot.Boot.Installation
open T113Boot.Boot.EndToEnd

variable {w w' : World} {crc : UInt32}

private theorem changed_ok {addr size : Nat} {done : Mem} {call : DevCall}
    (ok : (if w.power = some 0 then (none, w)
      else (some (changeAnswer w addr size done).1,
        after w call (changeAnswer w addr size done).2)) = (some 0, w')) :
    w' = after w call done := by
  by_cases off : w.power = some 0
  · rw [if_pos off] at ok
    cases ok
  · rw [if_neg off] at ok
    obtain ⟨answered, rfl⟩ := Prod.mk.inj ok
    rw [changeAnswer_ok (Option.some.inj answered)]

theorem partitionErase_ok (r : Region) {off len : UInt32} (fits : Fits r off len) (more : len ≠ 0)
    (ok : partitionErase registry (some r.name) off len w = (some 0, w')) :
    w' = after w ⟨.erase, r.start + off, len⟩
      (erase w.flash (r.start.toNat + off.toNat) len.toNat) := by
  rw [partitionErase_fits r fits more] at ok
  exact changed_ok ok

theorem partitionWrite_ok (r : Region) {off len : UInt32} {bs : List UInt8} (fits : Fits r off len)
    (full : bs.length = len.toNat)
    (ok : partitionWrite registry (some r.name) objectPtr bs off len w = (some 0, w')) :
    w' = after w ⟨.write, r.start + off, len⟩
      (program w.flash (r.start.toNat + off.toNat) bs) := by
  rw [partitionWrite_fits r fits full] at ok
  exact changed_ok ok

theorem rewriteParam_ok {p : OtaParamers} (ok : rewriteParam p w = (some otaOk, w')) :
    w'.flash = storeParam w.flash p := by
  rw [rewriteParam, paraPart_eq] at ok
  obtain ⟨ret, w₁, erased, ok⟩ := bind_returns.mp ok
  by_cases done : ret = 0
  · subst done
    rw [if_neg (by simp)] at ok
    obtain ⟨ret, w₂, written, ok⟩ := bind_returns.mp ok
    by_cases done : ret = 0
    · subst done
      rw [if_neg (by simp)] at ok
      cases ok
      have first := partitionErase_ok param (fits_record param) (by decide) erased
      have second := partitionWrite_ok param (fits_record param) p.length_encode written
      rw [second, first]
      rfl
    · rw [if_pos done] at ok
      cases ok
  · rw [if_pos done] at ok
    cases ok

theorem announceImage_ok (ok : announceImage crc w = (some otaOk, w')) :
    w'.flash = storeParam w.flash (announced (paramOf w.flash) crc) := by
  rw [announceImage, paraPart_eq, bind_of_some (recordRead_run param w)] at ok
  by_cases done : (readAnswer w param.start.toNat 32).1 = 0
  · rw [if_neg fun failed => failed done, readAnswer_ok done, load_paramOf] at ok
    have stored := rewriteParam_ok ok
    exact stored
  · rw [if_pos done] at ok
    cases ok

theorem checkImage_ok (ok : checkImage w = (some otaOk, w')) : ∃ crc, Verified w.flash crc ∧
    w'.flash = storeParam w.flash (announced (paramOf w.flash) crc) := by
  rw [checkImage, downPart_eq, bind_of_some (recordRead_run download w)] at ok
  by_cases done : (readAnswer w download.start.toNat 32).1 = 0
  · rw [if_neg fun failed => failed done, readAnswer_ok done, load_headerOf] at ok
    by_cases magic : (headerOf download w.flash).magic = otaFirmwareMagic
    · rw [if_neg fun bad => bad magic] at ok
      obtain ⟨result, w₁, run, ended⟩ :=
        wp_returns (crcLoop_wp (headerOf download w.flash).size { w with faults := w.faults.tail })
      rw [bind_of_some run] at ok
      rcases result with err | crc
      · obtain ⟨-, rfl, -⟩ := ended
        cases ok
      · obtain ⟨moved, fits, form⟩ := ended
        have whole : crc ^^^ 0xFFFFFFFF = otaCrc32 (payloadOf download w.flash) := by
          rw [form]
          rfl
        dsimp only at ok
        rw [whole] at ok
        by_cases sum : otaCrc32 (payloadOf download w.flash) = (headerOf download w.flash).crc32
        · rw [if_neg fun bad => bad sum] at ok
          refine ⟨_, ⟨magic, fits, sum.symm, rfl⟩, ?_⟩
          have stored := announceImage_ok ok
          rw [moved.flash] at stored
          exact stored
        · rw [if_pos sum] at ok
          cases ok
    · rw [if_pos magic] at ok
      cases ok
  · rw [if_pos done] at ok
    cases ok

theorem otaDownloadFirmware_ok (ok : otaDownloadFirmware w = (some otaOk, w')) :
    ∃ m crc, Verified m crc ∧ paramOf m = paramOf w.flash ∧
      w'.flash = storeParam m (announced (paramOf w.flash) crc) := by
  rw [otaDownloadFirmware, downPart_eq] at ok
  obtain ⟨ret, w₁, erased, ok⟩ := bind_returns.mp ok
  have erasing := touches_eraseAll download w
  rw [erased] at erasing
  by_cases done : ret = 0
  · rw [if_neg fun bad => bad done] at ok
    obtain ⟨ret, w₂, received, ok⟩ := bind_returns.mp ok
    have receiving := touches_receive w₁
    rw [received] at receiving
    by_cases done : ret = 0
    · rw [if_neg fun bad => bad done] at ok
      obtain ⟨crc, verified, stored⟩ := checkImage_ok ok
      have same := (erasing.trans _ _ _ receiving).param_eq
      rw [same] at stored
      exact ⟨_, crc, verified, same, stored⟩
    · rw [if_pos done] at ok
      cases ok
  · rw [if_pos done] at ok
    cases ok

/-- Whatever the flash held, whatever arrives and whichever device calls fail in whatever way: when
the download succeeds, `Download` begins with a whole image, whose checksum the header and the
record carry, and of the rest of the record nothing has changed. -/
theorem download_success_sound (w w' : World) (ok : otaDownloadFirmware w = (some otaOk, w')) :
    (headerOf download w'.flash).magic = otaFirmwareMagic ∧
      Fits download recordSize (headerOf download w'.flash).size ∧
      zlibCrc32 (payloadOf download w'.flash) = (headerOf download w'.flash).crc32 ∧
      (paramOf w'.flash).magic = otaParaMagic ∧
      (paramOf w'.flash).downloadCrc = zlibCrc32 (payloadOf download w'.flash) ∧
      (paramOf w'.flash).upgradeReady = 1 ∧
      (paramOf w'.flash).activeSlot = (paramOf w.flash).activeSlot ∧
      (paramOf w'.flash).canBeBack = (paramOf w.flash).canBeBack ∧
      (paramOf w'.flash).app1Crc = (paramOf w.flash).app1Crc ∧
      (paramOf w'.flash).app2Crc = (paramOf w.flash).app2Crc := by
  obtain ⟨m, crc, verified, same, stored⟩ := otaDownloadFirmware_ok ok
  have there := Verified.congr verified (sameOutside_storeParam m (announced (paramOf w.flash) crc))
    download_param.symm.single
  rw [← stored] at there
  have record : paramOf w'.flash = announced (paramOf w.flash) crc := by
    rw [stored, paramOf_store]
  have sum : zlibCrc32 (payloadOf download w'.flash) = crc := by
    rw [← otaCrc32_eq_zlib, there.payload]
  rw [record, sum]
  exact ⟨there.magic, there.fits, there.header.symm, rfl, rfl, rfl, rfl, rfl, rfl, rfl⟩

/-- A packed firmware of three blocks, sent without losses to an empty board. -/
theorem download_success_sound_pages : ∃ w', otaDownloadFirmware
    (receiving (boardWith fun _ => 0) pagesSession []) = (some otaOk, w') ∧
      (headerOf download w'.flash).magic = otaFirmwareMagic ∧
      (paramOf w'.flash).upgradeReady = 1 := by
  obtain ⟨w', downloads, -⟩ := otaDownloadFirmware_sends [] (healthy_boardWith fun _ => 0) rfl
    sends_pages
  have sound := download_success_sound _ w' downloads
  exact ⟨w', downloads, sound.1, sound.2.2.2.2.2.1⟩

end T113Boot.Boot.Acceptance
