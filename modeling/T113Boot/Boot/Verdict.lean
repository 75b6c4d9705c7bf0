/- Module: T113Boot/Boot/Verdict
   layer: specification
   digest: Which image the loader starts on a healthy board, as a function of the flash. -/

import T113Boot.Boot.RunningSlot
import T113Boot.Ota.Outcomes

set_option autoImplicit false
set_option relaxedAutoImplicit false

namespace T113Boot.Boot.Verdict

open T113Boot.Lib.Cells
open T113Boot.Lib.Stoppable
open Prog
open T113Boot.Nand.Chip
open T113Boot.Nand.Port
open T113Boot.Storage.Table
open T113Boot.Ota.Board
open T113Boot.Ota.Crc32
open T113Boot.Ota.Firmware
open T113Boot.Ota.Access
open T113Boot.Ota.Layout
open T113Boot.Ota.Footprint
open T113Boot.Ota.Outcomes
open T113Boot.Boot.Loader
open T113Boot.Boot.RunningSlot

/-- The header has its magic number and the checksum that the record keeps for the slot. -/
def Headed (m : Mem) (r : Region) (crc : UInt32) : Prop :=
  (headerOf r m).magic = otaFirmwareMagic ∧ (headerOf r m).crc32 = crc

/-- The payload lies in the partition and the load address can take it. -/
def Loadable (m : Mem) (r : Region) : Prop :=
  Fits r recordSize (headerOf r m).size ∧
    Clear 32 (headerOf r m).loadAddr.toNat (headerOf r m).size.toNat

/-- The payload has the checksum. -/
def Intact (m : Mem) (r : Region) (crc : UInt32) : Prop := otaCrc32 (payloadOf r m) = crc

instance (m : Mem) (r : Region) (crc : UInt32) : Decidable (Headed m r crc) :=
  inferInstanceAs (Decidable (_ ∧ _))

instance (m : Mem) (r : Region) : Decidable (Loadable m r) :=
  inferInstanceAs (Decidable (_ ∧ _))

instance (m : Mem) (r : Region) (crc : UInt32) : Decidable (Intact m r crc) :=
  inferInstanceAs (Decidable (_ = _))

/-- The slot passes every check of the loader. -/
def Bootable (m : Mem) (r : Region) (crc : UInt32) : Prop :=
  Headed m r crc ∧ Loadable m r ∧ Intact m r crc

/-- The slot fails a check that makes the loader roll back. A slot that is headed and cannot be
read does not. -/
def Falls (m : Mem) (r : Region) (crc : UInt32) : Prop :=
  ¬ Headed m r crc ∨ Loadable m r ∧ ¬ Intact m r crc

instance (m : Mem) (r : Region) (crc : UInt32) : Decidable (Bootable m r crc) :=
  inferInstanceAs (Decidable (_ ∧ _))

instance (m : Mem) (r : Region) (crc : UInt32) : Decidable (Falls m r crc) :=
  inferInstanceAs (Decidable (_ ∨ _))

/-- The slot whose image the loader starts, if it starts one. -/
def booted (m : Mem) : Option Region :=
  if (paramOf m).magic ≠ otaParaMagic then none
  else if Bootable m (activeApp (paramOf m)) (activeCrc (paramOf m)) then
    some (activeApp (paramOf m))
  else if Falls m (activeApp (paramOf m)) (activeCrc (paramOf m)) ∧
      (paramOf m).canBeBack = backupFlag ∧
      Bootable m (otherApp (paramOf m)) (otherCrc (paramOf m)) then some (otherApp (paramOf m))
  else none

/-- The address it returns. -/
def entryOf (m : Mem) : UInt32 :=
  match booted m with
  | none => hgbootNull
  | some r => (headerOf r m).execAddr

theorem ramWindow_ramStore (ram : UInt32 → UInt8) (a : UInt32) {size : UInt32} {bs : List UInt8}
    (full : bs.length = size.toNat) : ramWindow (ramStore ram a bs) a size = bs := by
  unfold ramWindow
  apply List.ext_getElem
  · rw [List.length_map, List.length_range, full]
  · intro i _ inside
    have word := size.toNat_lt
    have index : (a + UInt32.ofNat i - a).toNat = i := by
      rw [UInt32.add_comm, UInt32.add_sub_cancel, UInt32.toNat_ofNat_of_lt'
        (by rw [UInt32.size]; omega)]
    rw [List.getElem_map, List.getElem_range, ramStore, index, if_pos inside,
      List.getD_eq_getElem _ _ inside]

/-- No call fails and the supply lasts. -/
structure Healthy (w : World) : Prop where
  faults : w.faults = []
  power : w.power = none

theorem Healthy.moved {w : World} (healthy : Healthy w) : { w with faults := w.faults.tail } = w := by
  rcases w with ⟨flash, ram, port, input, frame, faults, power, trace, calls⟩
  obtain ⟨rfl, -⟩ := healthy
  rfl

theorem Healthy.touched {w w' : World} {rs : List Region} (healthy : Healthy w)
    (touched : Touches rs w w') : Healthy w' :=
  ⟨touched.healthy healthy.faults, touched.supply healthy.power⟩

theorem stored_healthy {w w' : World} {p : OtaParamers} {ret : Option Int} (healthy : Healthy w)
    (ends : StoreEnd w p ret w') : ret = some otaOk ∧ w'.flash = storeParam w.flash p := by
  cases ends with
  | stored flash => exact ⟨rfl, flash⟩
  | failed faulty flash => exact absurd healthy.faults faulty
  | cut off flash => exact absurd healthy.power off
  | torn off flash last => exact absurd healthy.power off

theorem recordRead_healthy {w : World} (healthy : Healthy w) (r : Region) :
    partitionRead registry (some r.name) objectPtr 0 recordSize w =
      (some (0, slice w.flash r.start.toNat 32), w) := by
  rw [recordRead_run, healthy.moved, readAnswer_healthy healthy.faults]

theorem active_page (p : OtaParamers) :
    ((activeApp p).start.toNat + recordSize.toNat) % pageSize = 32 := by
  unfold activeApp
  split <;> rfl

theorem payloadRead_healthy {w : World} (healthy : Healthy w) (p : OtaParamers) :
    ∃ ret bs, readIntoRam (activeApp p).name (headerOf (activeApp p) w.flash).loadAddr recordSize
        (headerOf (activeApp p) w.flash).size w =
          (some ret, { w with ram := ramStore w.ram (headerOf (activeApp p) w.flash).loadAddr bs }) ∧
      (ret = 0 ↔ Loadable w.flash (activeApp p)) ∧
      (ret = 0 → bs = payloadOf (activeApp p) w.flash) := by
  have room := (activeApp p).room
  generalize hbuf : (headerOf (activeApp p) w.flash).loadAddr = buf
  by_cases loadable : Loadable w.flash (activeApp p)
  · have ⟨fits, clear⟩ := loadable
    rw [hbuf, ← active_page p] at clear
    have run := partitionRead_clear (activeApp p) fits clear w
    rw [healthy.moved, readAnswer_healthy healthy.faults] at run
    refine ⟨0, _, ?_, iff_of_true rfl loadable, fun _ => rfl⟩
    rw [readIntoRam, bind_of_some run]
    rfl
  · obtain ⟨answer, faults, run, tail, ok⟩ := partitionRead_any (activeApp p) buf recordSize
      (headerOf (activeApp p) w.flash).size w room
    have same : { w with faults := faults } = w := by
      rw [healthy.faults, List.suffix_nil] at tail
      rw [tail, ← healthy.faults]
    rw [same] at run
    have failed : answer.1 ≠ 0 := by
      intro zero
      have fits := (ok zero).2
      refine partitionRead_unclear (activeApp p) fits (fun clear => loadable ⟨fits, ?_⟩)
        healthy.faults run zero
      rw [hbuf, ← active_page p]
      exact clear
    refine ⟨answer.1, answer.2, ?_, iff_of_false failed loadable, fun zero => absurd zero failed⟩
    rw [readIntoRam, bind_of_some run]
    rfl

theorem bootLoop_turn {w : World} (healthy : Healthy w) (retry : Nat) (header : FirmwareHeader)
    (para : OtaParamers) :
    let p := paramOf w.flash
    let h := headerOf (activeApp p) w.flash
    ∃ ram, (Loadable w.flash (activeApp p) →
        ram = ramStore w.ram h.loadAddr (payloadOf (activeApp p) w.flash)) ∧
      bootLoop (retry + 1) header para w =
        if p.magic ≠ otaParaMagic then bootLoop retry header p w
        else if ¬ Headed w.flash (activeApp p) (activeCrc p) then
          rollback (bootLoop retry h p) w
        else if ¬ Loadable w.flash (activeApp p) then bootLoop retry h p { w with ram := ram }
        else if ¬ Intact w.flash (activeApp p) (activeCrc p) then
          rollback (bootLoop retry h p) { w with ram := ram }
        else (some h.execAddr, { w with ram := ram }) := by
  intro p h
  obtain ⟨ret, bs, load, loaded, whole⟩ := payloadRead_healthy healthy p
  refine ⟨ramStore w.ram h.loadAddr bs, fun loadable => by rw [whole (loaded.mpr loadable)], ?_⟩
  rw [bootLoop, paraPart_eq, bind_of_some (recordRead_healthy healthy param),
    if_neg (by simp), load_paramOf]
  change (if p.magic ≠ otaParaMagic then bootLoop retry header p else _) w = _
  by_cases magic : p.magic = otaParaMagic
  · rw [if_neg (not_not_intro magic), if_neg (not_not_intro magic)]
    dsimp only
    rw [activePart_name, activePart_crc, bind_of_some (recordRead_healthy healthy _),
      if_neg (by simp), load_headerOf]
    change (if h.magic ≠ otaFirmwareMagic then _ else _ : Prog World UInt32) w = _
    by_cases start : h.magic = otaFirmwareMagic
    · rw [if_neg (not_not_intro start)]
      by_cases field : h.crc32 = activeCrc p
      · have headed : Headed w.flash (activeApp p) (activeCrc p) := ⟨start, field⟩
        rw [if_neg (not_not_intro field), if_neg (not_not_intro headed), bind_of_some load]
        by_cases loadable : Loadable w.flash (activeApp p)
        · have ok := loaded.mpr loadable
          have window : ramWindow (ramStore w.ram h.loadAddr bs) h.loadAddr h.size =
              payloadOf (activeApp p) w.flash := by
            rw [ramWindow_ramStore _ _ (by rw [whole ok, payloadOf, length_slice]), whole ok]
          rw [if_neg (not_not_intro ok), if_neg (not_not_intro loadable),
            bind_of_some (read_apply _)]
          change (if bootCrc32Update 0xFFFFFFFF (ramWindow _ h.loadAddr h.size) ^^^ 0xFFFFFFFF ≠
            activeCrc p then _ else _ : Prog World UInt32) _ = _
          rw [window, bootCrc32Update_eq]
          by_cases intact : Intact w.flash (activeApp p) (activeCrc p)
          · have sum : otaCrc32Update 0xFFFFFFFF (payloadOf (activeApp p) w.flash) ^^^ 0xFFFFFFFF =
                activeCrc p := intact
            rw [if_neg (not_not_intro sum), if_neg (not_not_intro intact)]
            rfl
          · have sum : otaCrc32Update 0xFFFFFFFF (payloadOf (activeApp p) w.flash) ^^^ 0xFFFFFFFF ≠
                activeCrc p := intact
            rw [if_pos sum, if_pos intact]
        · have failed : ret ≠ 0 := fun ok => loadable (loaded.mp ok)
          rw [if_pos failed, if_pos loadable]
      · rw [if_pos field, if_pos fun headed : Headed _ _ _ => field headed.2]
    · rw [if_pos start, if_pos fun headed : Headed _ _ _ => start headed.1]
  · rw [if_pos magic, if_pos magic]

theorem recorded_run {fn : OtaFn} {body : Prog World Int} {w w' : World} {ret : Int}
    (run : body w = (some ret, w')) : recorded fn body w =
      (some ret, { w' with calls := w'.calls ++ [⟨fn, ret, paramBytes w, paramBytes w'⟩] }) := by
  rw [recorded, bind_of_some (read_apply w), bind_of_some run]
  rfl

theorem recorded_leaves (fn : OtaFn) (body : Prog World Int) (w : World) :
    ∃ calls, (recorded fn body w).2 = { (body w).2 with calls := calls } := by
  rcases run : body w with ⟨_ | ret, w'⟩
  · refine ⟨w'.calls, ?_⟩
    rw [recorded, bind_of_some (read_apply w), bind_of_none run]
  · have called : recorded fn body w = _ := recorded_run run
    exact ⟨_, by rw [called]⟩

/-- The record allows a rollback, and the other slot begins with a header. -/
def CanSwitch (m : Mem) : Prop :=
  CanRoll (paramOf m) ∧ (headerOf (otherApp (paramOf m)) m).magic = otaFirmwareMagic

theorem backupBody_healthy {w : World} (healthy : Healthy w) : ∃ ret w',
    backupBody w = (some ret, w') ∧ Healthy w' ∧
      (CanSwitch w.flash → ret = otaOk ∧
        w'.flash = storeParam w.flash (flipped (spent (paramOf w.flash)))) ∧
      (¬ CanSwitch w.flash → ret ≠ otaOk ∧
        (w'.flash = w.flash ∨ w'.flash = storeParam w.flash (spent (paramOf w.flash)))) := by
  have ends := backupBody_ends (quiet_healthy healthy.faults)
  have after := healthy.touched (T113Boot.Ota.Reach.touches_backupBody w)
  rcases run : backupBody w with ⟨result, w'⟩
  rw [run] at ends after
  cases ends with
  | @refused ret _ code flash =>
    refine ⟨ret, w', rfl, after, fun can => ?_, fun _ => ⟨?_, .inl flash⟩⟩
    · rcases code with ⟨-, faulty⟩ | ⟨-, magic⟩ | ⟨-, flag⟩
      · exact absurd healthy.faults faulty
      · exact absurd can.1.1 magic
      · exact absurd can.1.2 flag
    · rcases code with ⟨rfl, -⟩ | ⟨rfl, -⟩ | ⟨rfl, -⟩ <;> decide
  | gaveUp ready headless flash =>
    refine ⟨otaErrBackup, w', rfl, after, fun can => ?_, fun _ => ⟨by decide, .inr flash⟩⟩
    rcases headless with faulty | headless
    · exact absurd healthy.faults faulty
    · exact absurd can.2 headless
  | switched ready headed flash =>
    exact ⟨otaOk, w', rfl, after, fun _ => ⟨rfl, flash⟩, fun cannot => absurd ⟨ready, headed⟩ cannot⟩
  | failed ready faulty flash => exact absurd healthy.faults faulty
  | cut supply flash => exact absurd healthy.power supply
  | torn supply flash last => exact absurd healthy.power supply

theorem rollback_healthy {w : World} (healthy : Healthy w) (again : Prog World UInt32) :
    (CanSwitch w.flash → ∃ w', rollback again w = again w' ∧ Healthy w' ∧
      w'.flash = storeParam w.flash (flipped (spent (paramOf w.flash)))) ∧
    (¬ CanSwitch w.flash → ∃ w', rollback again w = (some hgbootNull, w')) := by
  obtain ⟨ret, w₁, run, after, switches, stays⟩ := backupBody_healthy healthy
  have called : otaBackupFirmware w = _ := recorded_run run
  rw [rollback, bind_of_some called]
  refine ⟨fun can => ?_, fun cannot => ?_⟩
  · obtain ⟨rfl, flash⟩ := switches can
    rw [if_neg (by decide)]
    exact ⟨_, rfl, ⟨after.faults, after.power⟩, flash⟩
  · have failed : ret ≠ 0 := (stays cannot).1
    rw [if_pos failed]
    exact ⟨_, rfl⟩

/-- The loader returns null. -/
def Dead (retry : Nat) (header : FirmwareHeader) (para : OtaParamers) (w : World) : Prop :=
  ∃ w', bootLoop retry header para w = (some hgbootNull, w')

/-- The loader returns the entry of the region, whose payload is in memory. -/
def Starts (retry : Nat) (header : FirmwareHeader) (para : OtaParamers) (w : World) (r : Region) :
    Prop :=
  ∃ w', bootLoop retry header para w = (some (headerOf r w.flash).execAddr, w') ∧
    ramWindow w'.ram (headerOf r w.flash).loadAddr (headerOf r w.flash).size = payloadOf r w.flash

variable {w : World} {header : FirmwareHeader} {para : OtaParamers}

theorem bootLoop_lost (healthy : Healthy w) (magic : (paramOf w.flash).magic ≠ otaParaMagic)
    (retry : Nat) : Dead retry header para w := by
  induction retry generalizing header para with
  | zero => exact ⟨w, rfl⟩
  | succ retry ih =>
    obtain ⟨ram, -, turn⟩ := bootLoop_turn healthy retry header para
    rw [Dead, turn, if_pos magic]
    exact ih

theorem bootLoop_unloadable (healthy : Healthy w) (magic : (paramOf w.flash).magic = otaParaMagic)
    (headed : Headed w.flash (activeApp (paramOf w.flash)) (activeCrc (paramOf w.flash)))
    (unloadable : ¬ Loadable w.flash (activeApp (paramOf w.flash))) (retry : Nat) :
    Dead retry header para w := by
  induction retry generalizing header para w with
  | zero => exact ⟨w, rfl⟩
  | succ retry ih =>
    obtain ⟨ram, -, turn⟩ := bootLoop_turn healthy retry header para
    rw [Dead, turn, if_neg (not_not_intro magic), if_neg (not_not_intro headed), if_pos unloadable]
    exact @ih { w with ram := ram } _ _ ⟨healthy.faults, healthy.power⟩ magic headed unloadable

theorem bootLoop_active (healthy : Healthy w) (magic : (paramOf w.flash).magic = otaParaMagic)
    (bootable : Bootable w.flash (activeApp (paramOf w.flash)) (activeCrc (paramOf w.flash)))
    (retry : Nat) : Starts (retry + 1) header para w (activeApp (paramOf w.flash)) := by
  obtain ⟨headed, loadable, intact⟩ := bootable
  obtain ⟨ram, loaded, turn⟩ := bootLoop_turn healthy retry header para
  rw [Starts, turn, if_neg (not_not_intro magic), if_neg (not_not_intro headed),
    if_neg (not_not_intro loadable), if_neg (not_not_intro intact)]
  refine ⟨_, rfl, ?_⟩
  dsimp only
  rw [loaded loadable, ramWindow_ramStore _ _ (by rw [payloadOf, length_slice])]

theorem bootLoop_falls (healthy : Healthy w) (magic : (paramOf w.flash).magic = otaParaMagic)
    (falls : Falls w.flash (activeApp (paramOf w.flash)) (activeCrc (paramOf w.flash)))
    (retry : Nat) : ∃ header' para' w', bootLoop (retry + 1) header para w =
      rollback (bootLoop retry header' para') w' ∧ Healthy w' ∧ w'.flash = w.flash := by
  obtain ⟨ram, -, turn⟩ := bootLoop_turn healthy retry header para
  rw [turn, if_neg (not_not_intro magic)]
  by_cases headed : Headed w.flash (activeApp (paramOf w.flash)) (activeCrc (paramOf w.flash))
  · rcases falls with headless | ⟨loadable, broken⟩
    · exact absurd headed headless
    · rw [if_neg (not_not_intro headed), if_neg (not_not_intro loadable), if_pos broken]
      exact ⟨_, _, _, rfl, ⟨healthy.faults, healthy.power⟩, rfl⟩
  · rw [if_pos headed]
    exact ⟨_, _, _, rfl, healthy, rfl⟩

section Frame

variable {rs : List Region} {m m' : Mem} {r : Region}

theorem headed_congr (same : SameOutside rs m m') (apart : ∀ t ∈ rs, Apart t r) (crc : UInt32) :
    Headed m' r crc ↔ Headed m r crc := by
  rw [Headed, Headed, same.header_eq apart]

theorem loadable_congr (same : SameOutside rs m m') (apart : ∀ t ∈ rs, Apart t r) :
    Loadable m' r ↔ Loadable m r := by
  rw [Loadable, Loadable, same.header_eq apart]

theorem Loadable.payload_eq (loadable : Loadable m r) (same : SameOutside rs m m')
    (apart : ∀ t ∈ rs, Apart t r) : payloadOf r m' = payloadOf r m :=
  same.payload_eq apart loadable.1

theorem bootable_congr (same : SameOutside rs m m') (apart : ∀ t ∈ rs, Apart t r) (crc : UInt32) :
    Bootable m' r crc ↔ Bootable m r crc := by
  rw [Bootable, Bootable, headed_congr same apart, loadable_congr same apart]
  refine and_congr_right fun _ => and_congr_right fun loadable => ?_
  rw [Intact, Intact, loadable.payload_eq same apart]

theorem falls_congr (same : SameOutside rs m m') (apart : ∀ t ∈ rs, Apart t r) (crc : UInt32) :
    Falls m' r crc ↔ Falls m r crc := by
  rw [Falls, Falls, headed_congr same apart, loadable_congr same apart]
  refine or_congr_right (and_congr_right fun loadable => ?_)
  rw [Intact, Intact, loadable.payload_eq same apart]

end Frame

theorem unloadable_of {m : Mem} {r : Region} {crc : UInt32} (fails : ¬ Bootable m r crc)
    (stays : ¬ Falls m r crc) : Headed m r crc ∧ ¬ Loadable m r := by
  have headed : Headed m r crc := by
    by_contra headless
    exact stays (.inl headless)
  refine ⟨headed, fun loadable => ?_⟩
  by_cases intact : Intact m r crc
  · exact fails ⟨headed, loadable, intact⟩
  · exact stays (.inr ⟨loadable, intact⟩)

/-- The flash once a rollback has switched the slots. -/
def rolled (m : Mem) : Mem := storeParam m (flipped (spent (paramOf m)))

theorem paramOf_rolled (m : Mem) : paramOf (rolled m) = flipped (spent (paramOf m)) :=
  paramOf_store _ _

theorem activeApp_rolled (m : Mem) : activeApp (paramOf (rolled m)) = otherApp (paramOf m) := by
  rw [paramOf_rolled, activeApp_flipped]
  rfl

theorem activeCrc_rolled (m : Mem) : activeCrc (paramOf (rolled m)) = otherCrc (paramOf m) := by
  rw [paramOf_rolled, activeCrc_flipped]
  rfl

theorem sameOutside_rolled (m : Mem) : SameOutside [param] m (rolled m) :=
  sameOutside_storeParam _ _

theorem param_apart_other (p : OtaParamers) : ∀ t ∈ [param], Apart t (otherApp p) :=
  (other_param p).symm.single

theorem not_canSwitch_rolled (m : Mem) : ¬ CanSwitch (rolled m) := by
  rintro ⟨⟨-, flag⟩, -⟩
  have spentFlag : (flipped (spent (paramOf m))).canBeBack = 0 := rfl
  rw [paramOf_rolled, spentFlag] at flag
  exact absurd flag (by decide)

theorem bootLoop_rolled {m : Mem} (healthy : Healthy w) (flash : w.flash = rolled m)
    (magic : (paramOf m).magic = otaParaMagic) (retry : Nat) :
    (Bootable m (otherApp (paramOf m)) (otherCrc (paramOf m)) →
      Starts (retry + 1) header para w (otherApp (paramOf m))) ∧
    (¬ Bootable m (otherApp (paramOf m)) (otherCrc (paramOf m)) →
      Dead (retry + 1) header para w) := by
  have same := sameOutside_rolled m
  have apart := param_apart_other (paramOf m)
  have there : (paramOf w.flash).magic = otaParaMagic := by
    rw [flash, paramOf_rolled]
    exact magic
  have slot : activeApp (paramOf w.flash) = otherApp (paramOf m) := by
    rw [flash, activeApp_rolled]
  have sum : activeCrc (paramOf w.flash) = otherCrc (paramOf m) := by
    rw [flash, activeCrc_rolled]
  have passes := bootable_congr same apart (otherCrc (paramOf m))
  rw [← flash, ← slot, ← sum] at passes
  rw [← slot, ← sum]
  rw [← passes]
  refine ⟨fun bootable => bootLoop_active healthy there bootable retry, fun fails => ?_⟩
  by_cases falls : Falls w.flash (activeApp (paramOf w.flash)) (activeCrc (paramOf w.flash))
  · obtain ⟨header', para', w', turn, healthy', flash'⟩ := bootLoop_falls healthy there falls retry
    rw [Dead, turn]
    refine (rollback_healthy healthy' _).2 ?_
    rw [flash', flash]
    exact not_canSwitch_rolled m
  · obtain ⟨headed, unloadable⟩ := unloadable_of fails falls
    exact bootLoop_unloadable healthy there headed unloadable _

/-- What the loader returns on a healthy board, and the image it leaves in memory. -/
theorem bootFirmware_run (healthy : Healthy w) : ∃ w',
    bootFirmware w = (some (entryOf w.flash), w') ∧
      ∀ r, booted w.flash = some r →
        ramWindow w'.ram (headerOf r w.flash).loadAddr (headerOf r w.flash).size =
          payloadOf r w.flash := by
  have dies (none : booted w.flash = none) (dead : Dead bootMaxRetry .zero .zero w) : ∃ w',
      bootFirmware w = (some (entryOf w.flash), w') ∧ ∀ r, booted w.flash = some r →
        ramWindow w'.ram (headerOf r w.flash).loadAddr (headerOf r w.flash).size =
          payloadOf r w.flash := by
    obtain ⟨w', run⟩ := dead
    refine ⟨w', ?_, fun r found => ?_⟩
    · rw [entryOf, none]
      exact run
    · rw [none] at found
      cases found
  by_cases magic : (paramOf w.flash).magic = otaParaMagic
  · by_cases bootable : Bootable w.flash (activeApp (paramOf w.flash)) (activeCrc (paramOf w.flash))
    · have starts : booted w.flash = some (activeApp (paramOf w.flash)) := by
        rw [booted, if_neg (not_not_intro magic), if_pos bootable]
      obtain ⟨w', run, window⟩ := @bootLoop_active w .zero .zero healthy magic bootable 4
      refine ⟨w', ?_, fun r found => ?_⟩
      · rw [entryOf, starts]
        exact run
      · rw [starts] at found
        cases found
        exact window
    · by_cases falls : Falls w.flash (activeApp (paramOf w.flash)) (activeCrc (paramOf w.flash))
      · obtain ⟨header', para', w₁, turn, healthy₁, flash₁⟩ :=
          @bootLoop_falls w .zero .zero healthy magic falls 4
        obtain ⟨switch, stay⟩ := rollback_healthy healthy₁ (bootLoop 4 header' para')
        rw [flash₁] at switch stay
        by_cases can : CanSwitch w.flash
        · obtain ⟨w₂, again, healthy₂, flash₂⟩ := switch can
          obtain ⟨started, dead⟩ := @bootLoop_rolled w₂ header' para' w.flash healthy₂ flash₂ magic 3
          by_cases other : Bootable w.flash (otherApp (paramOf w.flash)) (otherCrc (paramOf w.flash))
          · have starts : booted w.flash = some (otherApp (paramOf w.flash)) := by
              rw [booted, if_neg (not_not_intro magic), if_neg bootable,
                if_pos ⟨falls, can.1.2, other⟩]
            have same := sameOutside_rolled w.flash
            have apart := param_apart_other (paramOf w.flash)
            obtain ⟨w', run, window⟩ := started other
            rw [flash₂, show storeParam w.flash (flipped (spent (paramOf w.flash))) =
              rolled w.flash from rfl, same.header_eq apart] at run window
            rw [other.2.1.payload_eq same apart] at window
            refine ⟨w', ?_, fun r found => ?_⟩
            · rw [entryOf, starts]
              exact turn.trans (again.trans run)
            · rw [starts] at found
              cases found
              exact window
          · refine dies ?_ ?_
            · rw [booted, if_neg (not_not_intro magic), if_neg bootable,
                if_neg fun all => other all.2.2]
            · obtain ⟨w', run⟩ := dead other
              exact ⟨w', turn.trans (again.trans run)⟩
        · refine dies ?_ ?_
          · rw [booted, if_neg (not_not_intro magic), if_neg bootable,
              if_neg fun all => can ⟨⟨magic, all.2.1⟩, all.2.2.1.1⟩]
          · obtain ⟨w', run⟩ := stay can
            exact ⟨w', turn.trans run⟩
      · refine dies ?_ ?_
        · rw [booted, if_neg (not_not_intro magic), if_neg bootable, if_neg fun all => falls all.1]
        · obtain ⟨headed, unloadable⟩ := unloadable_of bootable falls
          exact bootLoop_unloadable healthy magic headed unloadable _
  · refine dies ?_ (bootLoop_lost healthy magic _)
    rw [booted, if_pos magic]

/-- A healthy board with the given flash. -/
def boardWith (m : Mem) : World where
  flash := m
  ram := fun _ => 0
  port := true
  input := []
  frame := ⟨0, [], 0⟩
  faults := []
  power := none
  trace := []
  calls := []

theorem healthy_boardWith (m : Mem) : Healthy (boardWith m) := ⟨rfl, rfl⟩

/-- An erased flash but for the record and what stands at the start of the slots. -/
def flashWith (p : OtaParamers) (one two : List UInt8) : Mem :=
  store (store (store (fun _ => 0xFF) param.start.toNat p.encode) app1.start.toNat one)
    app2.start.toNat two

/-- An image of a single zero byte. -/
def tinyHeader (addr : UInt32) : FirmwareHeader :=
  ⟨otaFirmwareMagic, 1, 0xD202EF8D, 1, addr, addr, 0, 0⟩

def tinyImage (addr : UInt32) : List UInt8 := (tinyHeader addr).encode ++ [0]

/-- A record with the first slot active, which may be left. -/
def tinyRecord : OtaParamers :=
  ⟨otaParaMagic, appSlot1, backupFlag, 0, 0xD202EF8D, 0xD202EF8D, 0, 0⟩

end T113Boot.Boot.Verdict
