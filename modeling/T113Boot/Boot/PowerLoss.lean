/- Module: T113Boot/Boot/PowerLoss
   layer: results
   digest: What is started after an operation that the supply cut short. -/

import T113Boot.Boot.EndToEnd
import T113Boot.Boot.Operations

set_option autoImplicit false
set_option relaxedAutoImplicit false

namespace T113Boot.Boot.PowerLoss

open T113Boot.Lib.Cells
open T113Boot.Lib.LittleEndian
open T113Boot.Lib.Stoppable
open Prog
open T113Boot.Nand.Port
open T113Boot.Ota.Board
open T113Boot.Ota.Crc32
open T113Boot.Ota.Firmware
open T113Boot.Ota.Access
open T113Boot.Ota.Layout
open T113Boot.Ota.Footprint
open T113Boot.Ota.Reach
open T113Boot.Ota.Outcomes
open T113Boot.Boot.Loader
open T113Boot.Boot.Operations
open T113Boot.Boot.Verdict
open T113Boot.Boot.Installation
open T113Boot.Boot.EndToEnd

/-- A header and the payload behind it. -/
structure Image where
  header : FirmwareHeader
  payload : List UInt8

def imageOf (r : Region) (m : Mem) : Image := ⟨headerOf r m, payloadOf r m⟩

/-- Every healthy board with this flash starts the image: it is in a slot, whole and with its
checksum, and the loader returns its entry with the payload in memory. -/
structure Boots (m : Mem) (image : Image) : Prop where
  stored : ∃ r ∈ [app1, app2], imageOf r m = image
  whole : image.payload.length = image.header.size.toNat
  sum : zlibCrc32 image.payload = image.header.crc32
  entry : image.header.execAddr ≠ hgbootNull
  started : ∀ w, Healthy w → w.flash = m → ∃ w', bootFirmware w = (some image.header.execAddr, w') ∧
    ramWindow w'.ram image.header.loadAddr image.header.size = image.payload

/-- The image that was started before is started again, or that of the region `target` is. -/
def Survives (m m' : Mem) (target : Option Region) : Prop :=
  ∃ image, Boots m image ∧ (Boots m' image ∨ ∃ r ∈ target, Boots m' (imageOf r m))

variable {m m' : Mem} {r : Region} {target : Option Region}

theorem booted_bootable (started : booted m = some r) :
    r ∈ [app1, app2] ∧ ∃ crc, Bootable m r crc := by
  have slots (p : OtaParamers) : activeApp p ∈ [app1, app2] ∧ otherApp p ∈ [app1, app2] := by
    unfold activeApp otherApp
    split <;> exact ⟨by simp, by simp⟩
  unfold booted at started
  split at started
  · cases started
  · split at started
    · rename_i bootable
      cases started
      exact ⟨(slots _).1, _, bootable⟩
    · split at started
      · rename_i all
        cases started
        exact ⟨(slots _).2, _, all.2.2⟩
      · cases started

theorem boots_of_booted (started : booted m = some r)
    (entry : (headerOf r m).execAddr ≠ hgbootNull) : Boots m (imageOf r m) := by
  obtain ⟨slot, crc, headed, -, intact⟩ := booted_bootable started
  refine ⟨⟨r, slot, rfl⟩, length_slice _ _ _, ?_, entry, fun w healthy flash => ?_⟩
  · rw [← otaCrc32_eq_zlib]
    exact intact.trans headed.2.symm
  · obtain ⟨w', run, window⟩ := bootFirmware_run healthy
    rw [entryOf, flash, started] at run
    rw [flash] at window
    exact ⟨w', run, window r started⟩

theorem booted_of_entry (found : entryOf m ≠ hgbootNull) :
    ∃ r, booted m = some r ∧ (headerOf r m).execAddr ≠ hgbootNull := by
  unfold entryOf at found
  rcases started : booted m with _ | r
  · rw [started] at found
    exact absurd rfl found
  · rw [started] at found
    exact ⟨r, rfl, found⟩

/-- The fields of a record that the loader looks at. -/
structure SameView (p p' : OtaParamers) : Prop where
  magic : p'.magic = p.magic
  activeSlot : p'.activeSlot = p.activeSlot
  canBeBack : p'.canBeBack = p.canBeBack
  app1Crc : p'.app1Crc = p.app1Crc
  app2Crc : p'.app2Crc = p.app2Crc

section View

variable {p p' : OtaParamers} (view : SameView p p')

include view

theorem SameView.active : activeApp p' = activeApp p := by
  rw [activeApp, activeApp, view.activeSlot]

theorem SameView.other : otherApp p' = otherApp p := by
  rw [otherApp, otherApp, view.activeSlot]

theorem SameView.activeSum : activeCrc p' = activeCrc p := by
  rw [activeCrc, activeCrc, view.activeSlot, view.app1Crc, view.app2Crc]

theorem SameView.otherSum : otherCrc p' = otherCrc p := by
  rw [otherCrc, otherCrc, view.activeSlot, view.app1Crc, view.app2Crc]

end View

theorem aside_apart (p : OtaParamers) : (∀ t ∈ [download, param], Apart t (activeApp p)) ∧
    ∀ t ∈ [download, param], Apart t (otherApp p) := by
  simp only [List.forall_mem_cons, List.not_mem_nil, false_implies, implies_true, and_true]
  exact ⟨⟨(active_download p).symm, (active_param p).symm⟩,
    ⟨(other_download p).symm, (other_param p).symm⟩⟩

theorem booted_congr (same : SameOutside [download, param] m m')
    (view : SameView (paramOf m) (paramOf m')) : booted m' = booted m := by
  obtain ⟨active, other⟩ := aside_apart (paramOf m)
  simp only [booted, view.magic, view.canBeBack, view.active, view.other, view.activeSum,
    view.otherSum, bootable_congr same active, falls_congr same active, bootable_congr same other]

theorem image_congr {rs : List Region} {crc : UInt32} (bootable : Bootable m r crc)
    (same : SameOutside rs m m') (apart : ∀ t ∈ rs, Apart t r) : imageOf r m' = imageOf r m := by
  rw [imageOf, imageOf, same.header_eq apart, bootable.2.1.payload_eq same apart]

theorem survives_again (started : booted m = some r) (again : booted m' = some r)
    (image : imageOf r m' = imageOf r m) (entry : (headerOf r m).execAddr ≠ hgbootNull) :
    Survives m m' target := by
  have header : headerOf r m' = headerOf r m := congrArg Image.header image
  have boots := boots_of_booted again (by rw [header]; exact entry)
  rw [image] at boots
  exact ⟨_, boots_of_booted started entry, .inl boots⟩

theorem survives_aside (found : entryOf m ≠ hgbootNull)
    (same : SameOutside [download, param] m m') (view : SameView (paramOf m) (paramOf m')) :
    Survives m m' target := by
  obtain ⟨r, started, entry⟩ := booted_of_entry found
  obtain ⟨slot, crc, bootable⟩ := booted_bootable started
  have apart : ∀ t ∈ [download, param], Apart t r := by
    rcases List.mem_cons.mp slot with rfl | two
    · decide
    · rw [List.mem_singleton.mp two]
      decide
  have again := booted_congr same view
  rw [started] at again
  exact survives_again started again (image_congr bootable same apart) entry

theorem magic_of_entry (found : entryOf m ≠ hgbootNull) : (paramOf m).magic = otaParaMagic := by
  obtain ⟨r, started, -⟩ := booted_of_entry found
  by_contra magic
  rw [booted, if_pos magic] at started
  cases started

theorem booted_active (magic : (paramOf m).magic = otaParaMagic)
    (bootable : Bootable m (activeApp (paramOf m)) (activeCrc (paramOf m))) :
    booted m = some (activeApp (paramOf m)) := by
  rw [booted, if_neg (not_not_intro magic), if_pos bootable]

theorem entryOf_active (magic : (paramOf m).magic = otaParaMagic)
    (bootable : Bootable m (activeApp (paramOf m)) (activeCrc (paramOf m))) :
    entryOf m = (headerOf (activeApp (paramOf m)) m).execAddr := by
  rw [entryOf, booted_active magic bootable]

/-- Without the active slot and without a rollback nothing is started. -/
theorem entryOf_stuck (fails : ¬ Bootable m (activeApp (paramOf m)) (activeCrc (paramOf m)))
    (stays : ¬ (Falls m (activeApp (paramOf m)) (activeCrc (paramOf m)) ∧
      (paramOf m).canBeBack = backupFlag ∧
      Bootable m (otherApp (paramOf m)) (otherCrc (paramOf m)))) : entryOf m = hgbootNull := by
  have nothing : booted m = none := by
    rw [booted, if_neg fails, if_neg stays, ite_self]
  rw [entryOf, nothing]

theorem active_entry (found : entryOf m ≠ hgbootNull)
    (bootable : Bootable m (activeApp (paramOf m)) (activeCrc (paramOf m))) :
    (headerOf (activeApp (paramOf m)) m).execAddr ≠ hgbootNull := by
  rw [entryOf_active (magic_of_entry found) bootable] at found
  exact found

theorem update_apart (p : OtaParamers) : ∀ t ∈ [otherApp p, download, param], Apart t (activeApp p) := by
  intro t listed
  rcases List.mem_cons.mp listed with rfl | aside
  · exact (active_other p).symm
  · exact (aside_apart p).1 t aside

theorem survives_active (found : entryOf m ≠ hgbootNull)
    (bootable : Bootable m (activeApp (paramOf m)) (activeCrc (paramOf m)))
    (same : SameOutside [otherApp (paramOf m), download, param] m m')
    (record : (paramOf m').magic = (paramOf m).magic)
    (slot : activeApp (paramOf m') = activeApp (paramOf m))
    (sum : activeCrc (paramOf m') = activeCrc (paramOf m)) : Survives m m' target := by
  have magic := magic_of_entry found
  have apart := update_apart (paramOf m)
  have again : booted m' = some (activeApp (paramOf m)) := by
    have there : Bootable m' (activeApp (paramOf m')) (activeCrc (paramOf m')) := by
      rw [slot, sum]
      exact (bootable_congr same apart _).mpr bootable
    rw [booted_active (record.trans magic) there, slot]
  exact survives_again (booted_active magic bootable) again (image_congr bootable same apart)
    (active_entry found bootable)

/-- What an update makes of `Download` can be started, or is refused by the loader in a way that rolls
back. -/
structure Startable (m : Mem) : Prop where
  loadable : Headed (installed m) (otherApp (paramOf m)) (paramOf m).downloadCrc →
    Loadable (installed m) (otherApp (paramOf m))
  entry : Bootable (installed m) (otherApp (paramOf m)) (paramOf m).downloadCrc →
    (headerOf (otherApp (paramOf m)) (installed m)).execAddr ≠ hgbootNull

theorem bootable_updated (m : Mem) :
    Bootable (updated m) (activeApp (paramOf (updated m))) (activeCrc (paramOf (updated m))) ↔
      Bootable (installed m) (otherApp (paramOf m)) (paramOf m).downloadCrc := by
  rw [activeApp_updated, activeCrc_updated]
  exact bootable_congr (sameOutside_updated m) (param_apart_other _) _

theorem magic_updated (m : Mem) : (paramOf (updated m)).magic = otaParaMagic := by
  rw [paramOf_updated]
  rfl

theorem survives_new (found : entryOf m ≠ hgbootNull)
    (bootable : Bootable m (activeApp (paramOf m)) (activeCrc (paramOf m)))
    (fits : Fits download 0 (imageSize m))
    (new : Bootable (installed m) (otherApp (paramOf m)) (paramOf m).downloadCrc)
    (entry : (headerOf (otherApp (paramOf m)) (installed m)).execAddr ≠ hgbootNull) :
    Survives m (updated m) (some download) := by
  have sized := sized_of_loadable fits new.2.1
  have header := header_installed fits (by rw [Sized] at sized; omega)
  have apart := param_apart_other (paramOf m)
  have started := booted_active (magic_updated m) ((bootable_updated m).mpr new)
  rw [activeApp_updated] at started
  have boots := boots_of_booted started (by
    rw [(sameOutside_updated m).header_eq apart]
    exact entry)
  have image : imageOf (otherApp (paramOf m)) (updated m) = imageOf download m := by
    rw [image_congr new (sameOutside_updated m) apart, imageOf, imageOf, header,
      payload_installed fits sized]
  rw [image] at boots
  exact ⟨_, boots_of_booted (booted_active (magic_of_entry found) bootable)
    (active_entry found bootable), .inr ⟨download, rfl, boots⟩⟩

theorem survives_old (found : entryOf m ≠ hgbootNull)
    (bootable : Bootable m (activeApp (paramOf m)) (activeCrc (paramOf m)))
    (fits : Fits download 0 (imageSize m))
    (falls : Falls (installed m) (otherApp (paramOf m)) (paramOf m).downloadCrc) :
    Survives m (updated m) (some download) := by
  have fallen := (falls_congr (sameOutside_updated m) (param_apart_other (paramOf m)) _).mpr falls
  have fails : ¬ Bootable (updated m) (otherApp (paramOf m)) (paramOf m).downloadCrc := by
    rintro ⟨headed, -, intact⟩
    rcases fallen with headless | ⟨-, broken⟩
    · exact headless headed
    · exact broken intact
  have same : SameOutside [otherApp (paramOf m), download, param] m (updated m) :=
    ((sameOutside_installed fits).mono (by simp)).trans ((sameOutside_updated m).mono (by simp))
  have old := (bootable_congr same (update_apart _) _).mpr bootable
  have again : booted (updated m) = some (activeApp (paramOf m)) := by
    rw [booted, if_neg (not_not_intro (magic_updated m)), activeApp_updated, activeCrc_updated,
      if_neg fails, paramOf_updated, otherApp_upgraded, otherCrc_upgraded, canBeBack_upgraded,
      if_pos ⟨fallen, rfl, old⟩]
  exact survives_again (booted_active (magic_of_entry found) bootable) again
    (image_congr bootable same (update_apart _)) (active_entry found bootable)

theorem survives_updated (found : entryOf m ≠ hgbootNull)
    (bootable : Bootable m (activeApp (paramOf m)) (activeCrc (paramOf m)))
    (fits : Fits download 0 (imageSize m)) (startable : Startable m) :
    Survives m (updated m) (some download) := by
  by_cases headed : Headed (installed m) (otherApp (paramOf m)) (paramOf m).downloadCrc
  · have loadable := startable.loadable headed
    by_cases intact : Intact (installed m) (otherApp (paramOf m)) (paramOf m).downloadCrc
    · have new : Bootable (installed m) (otherApp (paramOf m)) (paramOf m).downloadCrc :=
        ⟨headed, loadable, intact⟩
      exact survives_new found bootable fits new (startable.entry new)
    · exact survives_old found bootable fits (.inr ⟨loadable, intact⟩)
  · exact survives_old found bootable fits (.inl headed)

theorem survives_rolled (found : entryOf m ≠ hgbootNull)
    (bootable : Bootable m (otherApp (paramOf m)) (otherCrc (paramOf m)))
    (entry : (headerOf (otherApp (paramOf m)) m).execAddr ≠ hgbootNull) :
    Survives m (rolled m) (some (otherApp (paramOf m))) := by
  obtain ⟨r, started, own⟩ := booted_of_entry found
  have same := sameOutside_rolled m
  have apart := param_apart_other (paramOf m)
  have magic : (paramOf (rolled m)).magic = otaParaMagic := by
    rw [paramOf_rolled]
    exact magic_of_entry found
  have there : Bootable (rolled m) (activeApp (paramOf (rolled m)))
      (activeCrc (paramOf (rolled m))) := by
    rw [activeApp_rolled, activeCrc_rolled]
    exact (bootable_congr same apart _).mpr bootable
  have again := booted_active magic there
  rw [activeApp_rolled] at again
  have boots := boots_of_booted again (by
    rw [same.header_eq apart]
    exact entry)
  rw [image_congr bootable same apart] at boots
  exact ⟨_, boots_of_booted started own, .inr ⟨_, rfl, boots⟩⟩

/-- The board behind an operation for which the supply lasts for so many calls that change the
flash. -/
def interrupted (op : Operation) (supply : Option Nat) (w : World) : World :=
  (op.run { w with power := supply, trace := [] }).2

/-- What an operation installs or rolls back to. -/
def goal (m : Mem) : Operation → Option Region
  | .update => some download
  | .backup => some (otherApp (paramOf m))
  | _ => none

/-- An update that gets to installing overwrites a slot that is not needed, and an image that it copies
whole can be started or is left again; a rollback that will switch does so to a slot that can be
started. The loader is none of these operations. -/
def Sheltered (m : Mem) : Operation → Prop
  | .download _ => True
  | .update => Matches m →
      Bootable m (activeApp (paramOf m)) (activeCrc (paramOf m)) ∧
        (Fits download 0 (imageSize m) → Startable m)
  | .backup => CanSwitch m →
      Bootable m (otherApp (paramOf m)) (otherCrc (paramOf m)) ∧
        (headerOf (otherApp (paramOf m)) m).execAddr ≠ hgbootNull
  | .boot => False

theorem SameView.of_eq {p p' : OtaParamers} (same : p' = p) : SameView p p' := by
  subst same
  exact ⟨rfl, rfl, rfl, rfl, rfl⟩

theorem stored_or_not {w w' : World} {p : OtaParamers} {ret : Option Int}
    (ends : StoreEnd w p ret w') (healthy : w.faults = [])
    (last : w'.trace.getLast? ≠ some eraseCall) :
    w'.flash = storeParam w.flash p ∨ w'.flash = w.flash := by
  cases ends with
  | stored flash => exact .inl flash
  | failed faulty flash => exact absurd healthy faulty
  | cut off flash => exact .inr flash
  | torn off flash torn => exact absurd torn last

theorem drop_leaves {α : Type} (x : Prog World α) (w : World) :
    ((x >>= fun _ => pure ()) w).2 = (x w).2 := by
  rcases run : x w with ⟨_ | a, w'⟩
  · rw [bind_of_none run]
  · rw [bind_of_some run]
    rfl

theorem survives_download {w : World} (healthy : w.faults = []) (found : entryOf w.flash ≠ hgbootNull)
    (last : (otaDownloadFirmware w).2.trace.getLast? ≠ some eraseCall) :
    Survives w.flash (otaDownloadFirmware w).2.flash target := by
  have ends := otaDownloadFirmware_ends (quiet_healthy healthy)
  generalize otaDownloadFirmware w = run at ends last ⊢
  obtain ⟨ret, w'⟩ := run
  have only {w₁ : World} (touched : Touches [download] w w₁) :
      SameOutside [download, param] w.flash w₁.flash ∧ paramOf w₁.flash = paramOf w.flash :=
    ⟨touched.flash.mono (by simp), touched.param_eq⟩
  cases ends with
  | rejected touched code arrived reason =>
    obtain ⟨same, record⟩ := only touched
    exact survives_aside found same (.of_eq record)
  | announced touched arrived received verified store =>
    obtain ⟨same, record⟩ := only touched
    rcases stored_or_not store (touched.healthy healthy) last with flash | flash
    · rw [flash]
      refine survives_aside found (same.trans ((sameOutside_storeParam _ _).mono (by simp))) ?_
      rw [paramOf_store]
      exact ⟨(magic_of_entry found).symm, rfl, rfl, rfl, rfl⟩
    · rw [flash]
      exact survives_aside found same (.of_eq record)
  | cut touched reason =>
    obtain ⟨same, record⟩ := only touched
    exact survives_aside found same (.of_eq record)

theorem survives_update {w : World} (healthy : w.faults = []) (found : entryOf w.flash ≠ hgbootNull)
    (sheltered : Sheltered w.flash .update)
    (last : (updateBody w).2.trace.getLast? ≠ some eraseCall) :
    Survives w.flash (updateBody w).2.flash (some download) := by
  have ends := updateBody_ends (quiet_healthy healthy)
  generalize updateBody w = run at ends last ⊢
  obtain ⟨ret, w'⟩ := run
  have magic := magic_of_entry found
  -- only the other slot changed, and the active one passes
  have partly {m : Mem} (matched : Matches w.flash)
      (outside : SameOutside [otherApp (paramOf w.flash)] w.flash m) :
      Survives w.flash m (some download) := by
    have kept := outside.param_eq (other_param _).single
    exact survives_active found (sheltered matched).1 (outside.mono (by simp)) (by rw [kept])
      (by rw [kept]) (by rw [kept])
  cases ends with
  | idle magic none flash =>
    rw [flash]
    exact survives_aside found (.refl _ _) (.of_eq rfl)
  | @exit w₁ _ p _ faults supply exits store =>
    rw [healthy, List.suffix_nil] at faults
    have record (m : Mem) : SameOutside [param] m (storeParam m (closed (paramOf w.flash))) :=
      sameOutside_storeParam _ _
    have view (m : Mem) :
        SameView (paramOf w.flash) (paramOf (storeParam m (closed (paramOf w.flash)))) := by
      rw [paramOf_store]
      exact ⟨magic.symm, rfl, rfl, rfl, rfl⟩
    have stored := stored_or_not store faults last
    generalize w₁.flash = m at exits stored
    cases exits with
    | lost faulty => exact absurd healthy faulty
    | badMagic bad => exact absurd magic bad
    | kept magic ready reason =>
      rcases stored with flash | flash
      · rw [flash]
        exact survives_aside found ((record _).mono (by simp)) (view _)
      · rw [flash]
        exact survives_aside found (.refl _ _) (.of_eq rfl)
    | broken matched outside reason =>
      rcases stored with flash | flash
      · rw [flash]
        exact survives_active found (sheltered matched).1
          ((outside.mono (by simp)).trans ((record _).mono (by simp))) (view _).magic
          (view _).active (view _).activeSum
      · rw [flash]
        exact partly matched outside
    | installed matched fits =>
      rcases stored with flash | flash
      · rw [flash]
        obtain ⟨bootable, startable⟩ := sheltered matched
        exact survives_updated found bootable fits (startable fits)
      · rw [flash]
        exact partly matched (sameOutside_installed fits)
  | cut off matched outside => exact partly matched outside

theorem survives_backup {w : World} (healthy : w.faults = []) (found : entryOf w.flash ≠ hgbootNull)
    (sheltered : Sheltered w.flash .backup)
    (last : (backupBody w).2.trace.getLast? ≠ some eraseCall) :
    Survives w.flash (backupBody w).2.flash (some (otherApp (paramOf w.flash))) := by
  have ends := backupBody_ends (quiet_healthy healthy)
  generalize backupBody w = run at ends last ⊢
  obtain ⟨ret, w'⟩ := run
  have same : Survives w.flash w.flash (some (otherApp (paramOf w.flash))) :=
    survives_aside found (.refl _ _) (.of_eq rfl)
  cases ends with
  | refused code flash => exact flash ▸ same
  | gaveUp ready headless flash =>
    have other : ¬ Bootable w.flash (otherApp (paramOf w.flash)) (otherCrc (paramOf w.flash)) := by
      rcases headless with faulty | headless
      · exact absurd healthy faulty
      · exact fun bootable => headless bootable.1.1
    -- so it is the active slot that was started
    have active : Bootable w.flash (activeApp (paramOf w.flash)) (activeCrc (paramOf w.flash)) := by
      by_contra fails
      exact found (entryOf_stuck fails fun all => other all.2.2)
    have record : paramOf w'.flash = spent (paramOf w.flash) := by rw [flash, paramOf_store]
    have only : SameOutside [otherApp (paramOf w.flash), download, param] w.flash w'.flash := by
      rw [flash]
      exact (sameOutside_storeParam _ _).mono (by simp)
    exact survives_active found active only (by rw [record]; rfl) (by rw [record]; rfl)
      (by rw [record]; rfl)
  | switched ready headed flash =>
    obtain ⟨bootable, entry⟩ := sheltered ⟨ready, headed⟩
    exact flash ▸ survives_rolled found bootable entry
  | failed ready faulty flash => exact absurd healthy faulty
  | cut off flash => exact flash ▸ same
  | torn off flash torn => exact absurd torn last

/-- From a flash on which the loader starts an image: wherever the supply ends in a sheltered operation,
unless between the erase of `Param` and the write behind it, the loader starts that image again or
the one the operation was about. -/
theorem survives_interrupted {w w₀ : World} {first : UInt32} (healthy : w.faults = [])
    (boots : bootFirmware { w with power := none } = (some first, w₀)) (found : first ≠ hgbootNull)
    {op : Operation} (sheltered : Sheltered w.flash op) {supply : Option Nat}
    (last : (interrupted op supply w).trace.getLast? ≠ some eraseCall) :
    Survives w.flash (interrupted op supply w).flash (goal w.flash op) := by
  have entry : entryOf w.flash ≠ hgbootNull := by
    have on : Healthy { w with power := none } := ⟨healthy, rfl⟩
    obtain ⟨w', run, -⟩ := bootFirmware_run on
    rw [boots] at run
    cases run
    exact found
  have recorded_same (fn : OtaFn) (body : Prog World Int) (v : World) :
      ((recorded fn body >>= fun _ => pure ()) v).2.flash = (body v).2.flash ∧
        ((recorded fn body >>= fun _ => pure ()) v).2.trace = (body v).2.trace := by
    obtain ⟨calls, same⟩ := recorded_leaves fn body v
    rw [drop_leaves, same]
    exact ⟨rfl, rfl⟩
  cases op with
  | download input =>
    have run : interrupted (.download input) supply w = (otaDownloadFirmware
        { w with power := supply, trace := [], input := input }).2 := drop_leaves _ _
    rw [run] at last ⊢
    exact survives_download (w := { w with power := supply, trace := [], input := input }) healthy
      entry last
  | update =>
    obtain ⟨flash, trace⟩ := recorded_same .update updateBody { w with power := supply, trace := [] }
    have run : interrupted .update supply w = ((recorded .update updateBody >>= fun _ => pure ())
        { w with power := supply, trace := [] }).2 := rfl
    rw [run, trace] at last
    rw [run, flash]
    exact survives_update (w := { w with power := supply, trace := [] }) healthy entry sheltered last
  | backup =>
    obtain ⟨flash, trace⟩ := recorded_same .backup backupBody { w with power := supply, trace := [] }
    have run : interrupted .backup supply w = ((recorded .backup backupBody >>= fun _ => pure ())
        { w with power := supply, trace := [] }).2 := rfl
    rw [run, trace] at last
    rw [run, flash]
    exact survives_backup (w := { w with power := supply, trace := [] }) healthy entry sheltered last
  | boot => exact sheltered.elim

/-- A flash with an upgrade announced. -/
def offering (one two image : List UInt8) : Mem :=
  store (flashWith { tinyRecord with upgradeReady := 1, downloadCrc := 0xD202EF8D } one two)
    download.start.toNat image

/-- Two images, one in the active slot and one announced. -/
def announcedImage : Mem := offering (tinyImage 0x41000000) [] (tinyImage 0x42000000)

/-- An update whose supply ends behind the copy. -/
theorem survives_interrupted_copied : Survives announcedImage
    (interrupted .update (some 2) (boardWith announcedImage)).flash (some download) := by
  obtain ⟨w₀, run, -⟩ := bootFirmware_run (healthy_boardWith announcedImage)
  have found : entryOf (boardWith announcedImage).flash ≠ hgbootNull := by decide +kernel
  have startable : Startable announcedImage := ⟨by decide +kernel, by decide +kernel⟩
  have sheltered : Sheltered announcedImage .update := fun matched =>
    ⟨by decide +kernel, fun fits => startable⟩
  have last : (interrupted .update (some 2) (boardWith announcedImage)).trace.getLast? ≠
      some eraseCall := by decide +kernel
  exact survives_interrupted (w := boardWith announcedImage) rfl run found sheltered last

theorem entryOf_lost (magic : (paramOf m).magic ≠ otaParaMagic) : entryOf m = hgbootNull := by
  rw [entryOf, booted, if_pos magic]

theorem not_survives (null : entryOf m' = hgbootNull) : ¬ Survives m m' target := by
  have never (image : Image) : ¬ Boots m' image := by
    intro boots
    obtain ⟨w, run, -⟩ := boots.started (boardWith m') (healthy_boardWith m') rfl
    obtain ⟨w₀, again, -⟩ := bootFirmware_run (healthy_boardWith m')
    have flash : (boardWith m').flash = m' := rfl
    rw [run, flash, null] at again
    exact boots.entry (Option.some.inj (congrArg Prod.fst again))
  rintro ⟨image, -, boots | ⟨r, -, boots⟩⟩
  · exact never _ boots
  · exact never _ boots

theorem rewriteParam_torn {w : World} (healthy : w.faults = []) (one : w.power = some 1)
    (p : OtaParamers) : rewriteParam p w = (none, after w eraseCall (eraseParam w.flash)) := by
  have start : param.start.toNat + (0 : UInt32).toNat = param.start.toNat := rfl
  have size : recordSize.toNat = 32 := rfl
  have erasing := partitionErase_fits param (fits_record param) (by decide) w
  rw [if_neg (by simp [one]), start, size] at erasing
  dsimp only at erasing
  rw [changeAnswer_healthy healthy] at erasing
  have whole : p.encode.length = recordSize.toNat := by rw [p.length_encode, size]
  have writing := partitionWrite_fits param (fits_record param) whole
    (after w eraseCall (eraseParam w.flash))
  rw [if_pos (by rw [after_power, one]; rfl)] at writing
  rw [rewriteParam, paraPart_eq, bind_of_some erasing, if_neg (by simp)]
  exact bind_of_none writing

theorem backup_torn {w : World} (healthy : w.faults = []) (one : w.power = some 1)
    (ready : CanRoll (paramOf w.flash)) : (backupBody w).2.flash = eraseParam w.flash := by
  obtain ⟨found, faults, tried, tail, -, -⟩ := tryOther_run (spent (paramOf w.flash))
    { w with faults := w.faults.tail }
  have left : faults = [] := by
    rw [healthy] at tail
    exact List.suffix_nil.mp tail
  have torn := rewriteParam_torn (w := { w with faults := faults }) left one
    (if found then flipped (spent (paramOf w.flash)) else spent (paramOf w.flash))
  rw [backupBody, paraPart_eq, bind_of_some (recordRead_run param w), readAnswer_healthy healthy,
    if_neg (by simp), load_paramOf, if_neg (not_not_intro ready.1), if_pos ready.2, rollBack_eq,
    bind_of_some tried, bind_of_none torn, after_flash]

theorem update_darkened {w : World} (healthy : w.faults = []) (one : w.power = some 1)
    (matched : Matches w.flash) : (updateBody w).2.flash =
      erase w.flash (otherApp (paramOf w.flash)).start.toNat
        (otherApp (paramOf w.flash)).size.toNat := by
  have same : { w with faults := w.faults.tail } = w := by
    rcases w with ⟨flash, ram, port, input, frame, faults, power, trace, calls⟩
    obtain rfl : faults = [] := healthy
    rfl
  have erasing := partitionEraseAll_run (otherApp (paramOf w.flash)) w
  rw [if_neg (by simp [one])] at erasing
  dsimp only at erasing
  rw [changeAnswer_healthy healthy] at erasing
  generalize gone : erase w.flash (otherApp (paramOf w.flash)).start.toNat
    (otherApp (paramOf w.flash)).size.toNat = m at erasing ⊢
  generalize left : after w ⟨.erase, (otherApp (paramOf w.flash)).start,
    (otherApp (paramOf w.flash)).size⟩ m = w₁ at erasing
  have off : w₁.power = some 0 := by rw [← left, after_power, one]; rfl
  have flash : w₁.flash = m := by rw [← left, after_flash]
  have install : installImage (paramOf w.flash) w =
      copyImage (paramOf w.flash) (headerOf download w.flash).size w₁ := by
    rw [installImage, downPart_eq, bind_of_some (recordRead_run download w), same,
      readAnswer_healthy healthy, if_neg (by simp), load_headerOf,
      if_neg fun differs => differs matched.crc, otherPart_eq, bind_of_some erasing,
      if_neg (by simp)]
  -- what comes behind the erase finds no supply
  have rest := dark_bind (dark_copyImage (paramOf w.flash) (headerOf download w.flash).size)
    (f := updateExit) (fun exit => dark_rewriteParam _) w₁ off
  rw [updateBody, paraPart_eq, bind_of_some (recordRead_run param w), same,
    readAnswer_healthy healthy, if_neg (by simp), load_paramOf,
    if_neg (not_not_intro matched.magic), if_pos matched.ready, bind_apply, install, ← bind_apply]
  exact rest.2.trans flash

/-- An image was started before, and none of those it could be is afterwards. -/
def Lost (op : Operation) (supply : Option Nat) (m : Mem) : Prop :=
  entryOf m ≠ hgbootNull ∧
    ¬ Survives m (interrupted op supply (boardWith m)).flash (goal m op)

theorem lost_update {m : Mem} (found : entryOf m ≠ hgbootNull) (matched : Matches m)
    (fits : Fits download 0 (imageSize m)) (null : entryOf (updated m) = hgbootNull) :
    Lost .update none m := by
  refine ⟨found, not_survives ?_⟩
  obtain ⟨w', run, -, flash⟩ := otaUpdateFirmware_installs (healthy_boardWith m) matched fits
  have ends : interrupted .update none (boardWith m) = (otaUpdateFirmware (boardWith m)).2 :=
    drop_leaves _ _
  rw [ends, run]
  exact flash ▸ null

theorem lost_backup {m : Mem} {supply : Option Nat} (found : entryOf m ≠ hgbootNull)
    (null : entryOf (backupBody { boardWith m with power := supply }).2.flash = hgbootNull) :
    Lost .backup supply m := by
  refine ⟨found, not_survives ?_⟩
  obtain ⟨calls, same⟩ := recorded_leaves .backup backupBody { boardWith m with power := supply }
  have ends : interrupted .backup supply (boardWith m) =
      (recorded .backup backupBody { boardWith m with power := supply }).2 := drop_leaves _ _
  rw [ends, same]
  exact null

theorem not_bootable_erased (m : Mem) (r : Region) (crc : UInt32) :
    ¬ Bootable (erase m r.start.toNat r.size.toNat) r crc := by
  have room := r.room
  rintro ⟨⟨magic, -⟩, -⟩
  have blank : slice (erase m r.start.toNat r.size.toNat) r.start.toNat 32 =
      List.replicate 32 0xFF := by
    rw [← take_slice _ _ r.size.toNat 32 room, slice_erase, List.take_replicate, min_eq_left room]
  rw [headerOf, blank] at magic
  revert magic
  decide

theorem lost_erased (found : entryOf m ≠ hgbootNull) (matched : Matches m)
    (fails : ¬ Bootable m (activeApp (paramOf m)) (activeCrc (paramOf m))) :
    Lost .update (some 1) m := by
  refine ⟨found, not_survives ?_⟩
  obtain ⟨calls, same⟩ := recorded_leaves .update updateBody { boardWith m with power := some 1 }
  have ends : interrupted .update (some 1) (boardWith m) =
      (recorded .update updateBody { boardWith m with power := some 1 }).2 := drop_leaves _ _
  have erased : (updateBody { boardWith m with power := some 1 }).2.flash =
      erase m (otherApp (paramOf m)).start.toNat (otherApp (paramOf m)).size.toNat :=
    update_darkened (w := { boardWith m with power := some 1 }) rfl rfl matched
  have outside : SameOutside [otherApp (paramOf m)] m
      (erase m (otherApp (paramOf m)).start.toNat (otherApp (paramOf m)).size.toNat) :=
    @sameOutside_erase (otherApp (paramOf m)) 0 _ m (Nat.zero_add _).le
  rw [ends, same]
  apply (congrArg entryOf erased).trans
  have record := outside.param_eq (other_param (paramOf m)).single
  apply entryOf_stuck
  · rw [record]
    exact fun passes => fails ((bootable_congr outside (active_other _).symm.single _).mp passes)
  · rw [record]
    exact fun all => not_bootable_erased _ _ _ all.2.2

theorem lost_installed (found : entryOf m ≠ hgbootNull) (matched : Matches m)
    (fits : Fits download 0 (imageSize m)) (unfit : ¬ Startable m) : Lost .update none m := by
  refine lost_update found matched fits ?_
  have apart := param_apart_other (paramOf m)
  by_cases new : Bootable (installed m) (otherApp (paramOf m)) (paramOf m).downloadCrc
  · -- started, at no address
    have null : (headerOf (otherApp (paramOf m)) (installed m)).execAddr = hgbootNull := by
      by_contra entry
      exact unfit ⟨fun _ => new.2.1, fun _ => entry⟩
    rw [entryOf_active (magic_updated m) ((bootable_updated m).mpr new), activeApp_updated]
    exact (congrArg FirmwareHeader.execAddr ((sameOutside_updated m).header_eq apart)).trans null
  · have stuck : Headed (installed m) (otherApp (paramOf m)) (paramOf m).downloadCrc ∧
        ¬ Loadable (installed m) (otherApp (paramOf m)) := by
      by_contra other
      exact unfit ⟨fun headed => by_contra fun unloadable => other ⟨headed, unloadable⟩,
        fun passes => absurd passes new⟩
    have stays : ¬ Falls (updated m) (otherApp (paramOf m)) (paramOf m).downloadCrc := by
      rw [falls_congr (sameOutside_updated m) apart]
      rintro (headless | ⟨loadable, -⟩)
      · exact headless stuck.1
      · exact stuck.2 loadable
    apply entryOf_stuck (mt (bootable_updated m).mp new)
    rw [activeApp_updated, activeCrc_updated]
    exact fun all => stays all.1

/-- A rollback switches to a slot that does not pass or has no entry; it cannot be left again. -/
theorem lost_switched (found : entryOf m ≠ hgbootNull) (can : CanSwitch m)
    (unfit : ¬ (Bootable m (otherApp (paramOf m)) (otherCrc (paramOf m)) ∧
      (headerOf (otherApp (paramOf m)) m).execAddr ≠ hgbootNull)) : Lost .backup none m := by
  refine lost_backup found ?_
  obtain ⟨ret, w', run, -, switches, -⟩ := backupBody_healthy (healthy_boardWith m)
  have same : ({ boardWith m with power := none } : World) = boardWith m := rfl
  have flash : w'.flash = rolled m := (switches can).2
  have apart := param_apart_other (paramOf m)
  have magic : (paramOf (rolled m)).magic = otaParaMagic := by
    rw [paramOf_rolled]
    exact can.1.1
  have passes := bootable_congr (sameOutside_rolled m) apart (otherCrc (paramOf m))
  rw [same, run, flash]
  by_cases bootable : Bootable m (otherApp (paramOf m)) (otherCrc (paramOf m))
  · have null : (headerOf (otherApp (paramOf m)) m).execAddr = hgbootNull :=
      by_contra fun entry => unfit ⟨bootable, entry⟩
    have there : Bootable (rolled m) (activeApp (paramOf (rolled m)))
        (activeCrc (paramOf (rolled m))) := by
      rw [activeApp_rolled, activeCrc_rolled]
      exact passes.mpr bootable
    rw [entryOf_active magic there, activeApp_rolled]
    exact (congrArg FirmwareHeader.execAddr ((sameOutside_rolled m).header_eq apart)).trans null
  · have spent : (paramOf (rolled m)).canBeBack ≠ backupFlag := by
      rw [paramOf_rolled]
      exact (show (0 : UInt32) ≠ backupFlag by decide)
    apply entryOf_stuck ?_ fun all => spent all.2.1
    rw [activeApp_rolled, activeCrc_rolled]
    exact mt passes.mp bootable

/-- On every flash without shelter an image is lost: behind the whole operation, or behind an update
that ends with the erase of the other slot. -/
theorem lost_of_unsheltered (found : entryOf m ≠ hgbootNull) {op : Operation} (real : op ≠ .boot)
    (bare : ¬ Sheltered m op) : Lost op none m ∨ op = .update ∧ Lost .update (some 1) m := by
  cases op with
  | download input => exact absurd trivial bare
  | update =>
    obtain ⟨matched, unfit⟩ := Classical.not_imp.mp bare
    by_cases bootable : Bootable m (activeApp (paramOf m)) (activeCrc (paramOf m))
    · obtain ⟨fits, unfit⟩ := Classical.not_imp.mp fun fine => unfit ⟨bootable, fine⟩
      exact .inl (lost_installed found matched fits unfit)
    · exact .inr ⟨rfl, lost_erased found matched bootable⟩
  | backup =>
    obtain ⟨can, unfit⟩ := Classical.not_imp.mp bare
    exact .inl (lost_switched found can unfit)
  | boot => exact absurd rfl real

/-- Both slots hold an image. -/
def bothHeld : Mem := flashWith tinyRecord (tinyImage 0x41000000) (tinyImage 0x42000000)

/-- The other slot holds a header without its payload. -/
def headerOnly : Mem := flashWith tinyRecord (tinyImage 0x41000000) (tinyHeader 0x42000000).encode

/-- The other slot holds an image whose entry is null. -/
def entryless : Mem := flashWith tinyRecord (tinyImage 0x41000000)
  ({ tinyHeader 0x42000000 with execAddr := 0 }.encode ++ [0])

/-- The active slot is erased, and `Download` holds a header that is none. -/
def activeErased : Mem :=
  offering [] (tinyImage 0x42000000) { tinyHeader 0x41000000 with magic := 0 }.encode

/-- The image in `Download` has load address 0. -/
def nullOffered : Mem := offering (tinyImage 0x41000000) [] (tinyImage 0)

/-- Its size and that of the header add up to 31 bytes, in 32 bits. -/
def wrapOffered : Mem := offering (tinyImage 0x41000000) []
  { tinyHeader 0x42000000 with size := 0xFFFFFFFF }.encode

/-- Its entry is null. -/
def entrylessOffered : Mem := offering (tinyImage 0x41000000) []
  ({ tinyHeader 0x42000000 with execAddr := 0 }.encode ++ [0])

/-- None of the conditions can be left out: nothing is started behind a rollback that ends between
erase and write, behind one to a slot that does not pass, or that has no entry, behind an update over
the only slot that passes, and behind one with an image of a null load address, of a size that
wraps, or without an entry. -/
theorem unsheltered_lost : Lost .backup (some 1) bothHeld ∧ Lost .backup none headerOnly ∧
    Lost .backup none entryless ∧ Lost .update none activeErased ∧ Lost .update none nullOffered ∧
    Lost .update none wrapOffered ∧ Lost .update none entrylessOffered := by
  refine ⟨lost_backup (by decide +kernel) ?_, lost_switched (by decide +kernel) ?_ ?_,
    lost_switched (by decide +kernel) ?_ ?_,
    lost_update (by decide +kernel) ⟨?_, ?_, ?_⟩ (by decide +kernel) (by decide +kernel),
    lost_update (by decide +kernel) ⟨?_, ?_, ?_⟩ (by decide +kernel) (by decide +kernel),
    lost_update (by decide +kernel) ⟨?_, ?_, ?_⟩ (by decide +kernel) (by decide +kernel),
    lost_update (by decide +kernel) ⟨?_, ?_, ?_⟩ (by decide +kernel) (by decide +kernel)⟩
  · have ready : CanRoll (paramOf bothHeld) := ⟨by decide +kernel, by decide +kernel⟩
    have torn := backup_torn (w := { boardWith bothHeld with power := some 1 }) rfl rfl ready
    rw [torn]
    apply entryOf_lost
    rw [paramOf_erase]
    decide
  · exact ⟨⟨by decide +kernel, by decide +kernel⟩, by decide +kernel⟩
  · decide +kernel
  · exact ⟨⟨by decide +kernel, by decide +kernel⟩, by decide +kernel⟩
  all_goals decide +kernel

end T113Boot.Boot.PowerLoss
