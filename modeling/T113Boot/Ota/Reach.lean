/- Module: T113Boot/Ota/Reach
   layer: specification
   digest: How far each function of `ota.c` reaches into the flash, with any faults and any supply. -/

import T113Boot.Ota.Loops
import T113Boot.Ota.Reception

set_option autoImplicit false
set_option relaxedAutoImplicit false

namespace T113Boot.Ota.Reach

open T113Boot.Lib.Cells
open T113Boot.Lib.Stoppable
open Prog
open T113Boot.Storage.Table
open T113Boot.Ota.Board
open T113Boot.Ota.Firmware
open T113Boot.Ota.Access
open T113Boot.Ota.Layout
open T113Boot.Ota.Footprint
open T113Boot.Ota.Loops
open T113Boot.Ota.Reception

theorem touches_crcLoop (rs : List Region) (size : UInt32) : Keeps (Touches rs) (crcLoop size) := by
  intro w
  obtain ⟨result, w', run, ended⟩ := wp_returns (crcLoop_wp size w)
  rw [run]
  rcases result with err | crc
  · exact ended.1.touches rs
  · exact ended.1.touches rs

theorem touches_announceImage (crc32 : UInt32) : Keeps (Touches [param]) (announceImage crc32) := by
  rw [announceImage, paraPart_eq]
  refine touches_bind (touches_record _ param) fun answer => keeps_ite (touches_pure _ _) ?_
  exact touches_rewriteParam _

theorem touches_checkImage : Keeps (Touches [param]) checkImage := by
  rw [checkImage, downPart_eq]
  refine touches_bind (touches_record _ download) fun answer => keeps_ite (touches_pure _ _) ?_
  refine keeps_ite (touches_pure _ _) (touches_bind (touches_crcLoop _ _) fun sum => ?_)
  rcases sum with err | crc32
  · exact touches_pure _ _
  · exact keeps_ite (touches_pure _ _) (touches_announceImage _)

theorem touches_download : Keeps (Touches [download, param]) otaDownloadFirmware := by
  rw [otaDownloadFirmware, downPart_eq]
  refine touches_bind (keeps_mono (touches_eraseAll download) (by simp)) fun ret => ?_
  refine keeps_ite (touches_pure _ _) ?_
  refine touches_bind (keeps_mono touches_receive (by simp)) fun ret => ?_
  exact keeps_ite (touches_pure _ _) (keeps_mono touches_checkImage (by simp))

theorem touches_copyImage (para : OtaParamers) (size : UInt32) :
    Keeps (Touches [otherApp para]) (copyImage para size) := by
  rw [copyImage, otherPart_eq]
  refine touches_bind (fun w => ?_) fun done => ?_
  · have same : (otherApp para).size = download.size := by
      unfold otherApp
      split <;> rfl
    have loop := copyLoop_wp (other_download para) same (size + recordSize) w
    rw [wp] at loop
    split at loop
    · rename_i result w' run
      rw [run]
      rcases result with err | _
      · exact loop.1
      · exact loop.1
    · rename_i w' run
      rw [run]
      exact loop.1
  · rcases done with err | _
    · exact touches_pure _ _
    · exact touches_pure _ _

theorem touches_installImage (para : OtaParamers) :
    Keeps (Touches [otherApp para]) (installImage para) := by
  rw [installImage, downPart_eq, otherPart_eq]
  refine touches_bind (touches_record _ download) fun answer => keeps_ite (touches_pure _ _) ?_
  refine keeps_ite (touches_pure _ _) (touches_bind (touches_eraseAll _) fun ret => ?_)
  exact keeps_ite (touches_pure _ _) (touches_copyImage _ _)

theorem touches_updateExit (exit : Int × OtaParamers) :
    Keeps (Touches [param]) (updateExit exit) := touches_rewriteParam _

/-- The other slot is chosen by the record that `Param` held, or not touched at all. -/
theorem touches_updateBody (w : World) :
    Touches [otherApp (paramOf w.flash), param] w (updateBody w).2 := by
  have read := recordRead_run param w
  rw [updateBody, paraPart_eq, bind_of_some read]
  have moved := touches_faults [otherApp (paramOf w.flash), param] w (List.tail_suffix _)
  refine moved.trans _ _ _ ?_
  have exit (exit : Int × OtaParamers) :
      Keeps (Touches [otherApp (paramOf w.flash), param]) (updateExit exit) :=
    keeps_mono (touches_updateExit exit) (by simp)
  by_cases ok : (readAnswer w param.start.toNat 32).1 = 0
  · rw [if_neg fun failed => failed ok]
    rw [readAnswer_ok ok, load_paramOf]
    refine keeps_ite (exit _) (keeps_ite (touches_bind ?_ exit) (touches_pure _ _)) _
    exact keeps_mono (touches_installImage _) (by simp)
  · rw [if_pos ok]
    exact exit _ _

theorem touches_tryOther (rs : List Region) (para : OtaParamers) :
    Keeps (Touches rs) (tryOther para) := by
  rw [tryOther, otherPart_eq]
  refine touches_bind (touches_record _ _) fun answer => keeps_ite (touches_pure _ _) ?_
  exact keeps_ite (touches_pure _ _) (keeps_ite (touches_pure _ _) (touches_pure _ _))

theorem touches_rollBack (para : OtaParamers) : Keeps (Touches [param]) (rollBack para) := by
  refine touches_bind (touches_tryOther _ _) fun found => ?_
  refine touches_bind (touches_rewriteParam _) fun ret => ?_
  exact keeps_ite (touches_pure _ _) (keeps_ite (touches_pure _ _) (touches_pure _ _))

theorem touches_backupBody : Keeps (Touches [param]) backupBody := by
  rw [backupBody, paraPart_eq]
  refine touches_bind (touches_record _ param) fun answer => keeps_ite (touches_pure _ _) ?_
  exact keeps_ite (touches_pure _ _) (keeps_ite (touches_rollBack _) (touches_pure _ _))

/-- A board without supply keeps its flash. -/
def Dark (w w' : World) : Prop := w.power = some 0 → w'.power = some 0 ∧ w'.flash = w.flash

theorem Dark.refl (w : World) : Dark w w := fun off => ⟨off, rfl⟩

theorem Dark.trans (w w' w'' : World) (h : Dark w w') (h' : Dark w' w'') : Dark w w'' := by
  intro off
  obtain ⟨first, same⟩ := h off
  obtain ⟨later, kept⟩ := h' first
  exact ⟨later, kept.trans same⟩

theorem dark_pure {α : Type} (a : α) : Keeps Dark (pure a : Prog World α) := keeps_pure Dark.refl a

theorem dark_bind {α β : Type} {x : Prog World α} {f : α → Prog World β} (hx : Keeps Dark x)
    (hf : ∀ a, Keeps Dark (f a)) : Keeps Dark (x >>= f) := keeps_bind Dark.trans hx hf

theorem dark_read (r : Region) (off len : UInt32) :
    Keeps Dark (partitionRead registry (some r.name) objectPtr off len) := by
  rw [partitionRead_eq r objectPtr_ne]
  refine keeps_ite (dark_pure _) (dark_bind (fun w off => ⟨off, rfl⟩) fun fault w off => ?_)
  cases fault <;> exact ⟨off, rfl⟩

private theorem dark_draw {α : Type} (call : DevCall) (f : Unit → Prog World α) :
    Keeps Dark (draw call >>= f) := by
  intro w off
  have drawn : draw call w = (none, w) := by rw [draw, off]
  rw [bind_of_none drawn]
  exact ⟨off, rfl⟩

theorem dark_write (r : Region) (bs : List UInt8) (off len : UInt32) :
    Keeps Dark (partitionWrite registry (some r.name) objectPtr bs off len) := by
  rw [partitionWrite_eq r objectPtr_ne]
  exact keeps_ite (dark_pure _) (dark_draw _ _)

theorem dark_erase (r : Region) (off len : UInt32) :
    Keeps Dark (partitionErase registry (some r.name) off len) := by
  rw [partitionErase_eq r]
  exact keeps_ite (dark_pure _) (dark_draw _ _)

theorem dark_cacheLoop {α : Type} {turn : UInt32 → UInt32 → α → Prog World (Except Int α)}
    (dark : ∀ offset len acc, Keeps Dark (turn offset len acc)) (fuel : Nat)
    (remain offset : UInt32) (acc : α) : Keeps Dark (cacheLoop turn fuel remain offset acc) := by
  induction fuel generalizing remain offset acc with
  | zero => exact dark_pure _
  | succ fuel ih =>
    refine keeps_ite (dark_pure _) (keeps_ite ?_ ?_)
    · refine dark_bind (dark _ _ _) fun answer => ?_
      cases answer with
      | error err => exact dark_pure _
      | ok acc => exact ih _ _ _
    · refine dark_bind (dark _ _ _) fun answer => ?_
      cases answer with
      | error err => exact dark_pure _
      | ok acc => exact ih _ _ _

theorem dark_copyImage (para : OtaParamers) (size : UInt32) :
    Keeps Dark (copyImage para size) := by
  rw [copyImage, otherPart_eq]
  refine dark_bind (dark_cacheLoop (fun offset len acc => ?_) _ _ _ _) fun done => ?_
  · rw [copyChunk, downPart_eq]
    refine dark_bind (dark_read download _ _) fun answer => keeps_ite (dark_pure _) ?_
    refine dark_bind (dark_write _ _ _ _) fun ret => ?_
    exact keeps_ite (dark_pure _) (dark_pure _)
  · rcases done with err | _
    · exact dark_pure _
    · exact dark_pure _

theorem dark_rewriteParam (para : OtaParamers) : Keeps Dark (rewriteParam para) := by
  rw [rewriteParam, paraPart_eq]
  refine dark_bind (dark_erase param _ _) fun ret => keeps_ite (dark_pure _) ?_
  refine dark_bind (dark_write param _ _ _) fun ret => ?_
  exact keeps_ite (dark_pure _) (dark_pure _)

end T113Boot.Ota.Reach
