/- Module: T113Boot/Boot/Soundness
   layer: results
   digest: An entry that the loader returns belongs to a slot whose every check has passed. -/

import T113Boot.Boot.EndToEnd
import T113Boot.Ota.Checksums

set_option autoImplicit false
set_option relaxedAutoImplicit false

namespace T113Boot.Boot.Soundness

open T113Boot.Lib.Stoppable
open Prog
open T113Boot.Storage.Table
open T113Boot.Ota.Board
open T113Boot.Ota.Crc32
open T113Boot.Ota.Checksums
open T113Boot.Ota.Firmware
open T113Boot.Ota.Access
open T113Boot.Ota.Layout
open T113Boot.Boot.Loader
open T113Boot.Boot.RunningSlot
open T113Boot.Boot.Verdict
open T113Boot.Boot.EndToEnd

/-- The active slot has a header that passes the loader's checks, its payload is in memory at the
load address, and the entry is that of the header. -/
structure Loaded (w : World) (entry : UInt32) (header : FirmwareHeader) : Prop where
  para : (paramOf w.flash).magic = otaParaMagic
  read : header = headerOf (activeApp (paramOf w.flash)) w.flash
  magic : header.magic = otaFirmwareMagic
  crc : header.crc32 = activeCrc (paramOf w.flash)
  payload : zlibCrc32 (ramWindow w.ram header.loadAddr header.size) = activeCrc (paramOf w.flash)
  entry : entry = header.execAddr

/-- What an entry other than null has to mean. -/
def Sound (entry : UInt32) (w : World) : Prop := entry ≠ hgbootNull → ∃ header, Loaded w entry header

theorem wp_of_forall {σ α : Type} {x : Prog σ α} {Q : α → σ → Prop} {E : σ → Prop} {s : σ}
    (returns : ∀ a s', Q a s') (stops : ∀ s', E s') : wp x Q E s := by
  unfold wp
  split
  · exact returns _ _
  · exact stops _

theorem wp_record (r : Region) (Q : Answer → World → Prop) (E : World → Prop) (w : World) :
    wp (partitionRead registry (some r.name) objectPtr 0 recordSize) Q E w ↔
      Q (readAnswer w r.start.toNat 32) { w with faults := w.faults.tail } :=
  wp_of_some (recordRead_run r w)

theorem wp_rollback {again : Prog World UInt32}
    (sound : ∀ w, wp again Sound (fun _ => True) w) (w : World) :
    wp (rollback again) Sound (fun _ => True) w := by
  rw [rollback, wp_bind]
  refine wp_of_forall (fun ret w' => ?_) fun _ => trivial
  rw [wp_ite]
  split
  · exact fun null => absurd rfl null
  · exact sound w'

/-- The turn that returns has read its record, its header and its payload itself: what the loop
keeps of earlier turns is read again or not used. -/
theorem wp_bootLoop (retry : Nat) (header : FirmwareHeader) (para : OtaParamers) (w : World) :
    wp (bootLoop retry header para) Sound (fun _ => True) w := by
  induction retry generalizing header para w with
  | zero => exact fun null => absurd rfl null
  | succ retry ih =>
    rw [bootLoop, paraPart_eq, wp_bind, wp_record, wp_ite]
    split
    · exact ih _ _ _
    rename_i ok
    rw [readAnswer_ok (not_not.mp ok), load_paramOf, wp_ite]
    split
    · exact ih _ _ _
    rename_i magic
    dsimp only
    rw [activePart_name, activePart_crc, wp_bind, wp_record, wp_ite]
    split
    · exact ih _ _ _
    rename_i ok
    rw [readAnswer_ok (not_not.mp ok), load_headerOf, wp_ite]
    split
    · exact wp_rollback (ih _ _) _
    rename_i headed
    rw [wp_ite]
    split
    · exact wp_rollback (ih _ _) _
    rename_i field
    obtain ⟨answer, faults, run, -, -⟩ := partitionRead_any (activeApp (paramOf w.flash))
      (headerOf (activeApp (paramOf w.flash)) w.flash).loadAddr recordSize
      (headerOf (activeApp (paramOf w.flash)) w.flash).size { w with faults := w.faults.tail.tail }
      (activeApp (paramOf w.flash)).room
    rw [wp_bind, readIntoRam, wp_bind, wp_of_some run, wp_bind, wp_modify, wp_pure, wp_ite]
    split
    · exact ih _ _ _
    rw [wp_bind, wp_read]
    dsimp only
    rw [wp_ite]
    split
    · exact wp_rollback (ih _ _) _
    rename_i sum
    refine fun _ => ⟨_, not_not.mp magic, rfl, not_not.mp headed, not_not.mp field, ?_, rfl⟩
    rw [← bootCrc32_eq_zlib]
    exact not_not.mp sum

/-- Whatever the flash holds, whichever calls fail, and however the supply ends: an entry other than
null that the loader returns is that of a header in the slot active in the record that `Param` holds
then, and this header and the payload in memory have passed every check against that record. -/
theorem bootFirmware_sound {w w' : World} {entry : UInt32}
    (run : bootFirmware w = (some entry, w')) (found : entry ≠ hgbootNull) :
    ∃ header, Loaded w' entry header :=
  (wp_of_some run).mp (wp_bootLoop _ _ _ w) found

/-- A firmware of three blocks and two pages, downloaded, installed and loaded. -/
theorem bootFirmware_sound_pages : ∃ w₁ w₂ w₃ header,
    otaDownloadFirmware (receiving (boardWith fun _ => 0) pagesSession []) = (some otaOk, w₁) ∧
      otaUpdateFirmware w₁ = (some otaOk, w₂) ∧ bootFirmware w₂ = (some 0x41000040, w₃) ∧
      Loaded w₃ 0x41000040 header := by
  obtain ⟨w₁, w₂, downloads, updates, healthy, starts, header, -⟩ :=
    sends_run [] (healthy_boardWith fun _ => 0) rfl sends_pages
  obtain ⟨w₃, boots, -⟩ := bootFirmware_run healthy
  rw [pagesFirmware_length, if_pos (by decide)] at starts
  rw [entryOf, starts] at boots
  dsimp only at boots
  rw [header] at boots
  obtain ⟨header, loaded⟩ := bootFirmware_sound boots (by decide)
  exact ⟨w₁, w₂, w₃, header, downloads, updates, boots, loaded⟩

end T113Boot.Boot.Soundness
