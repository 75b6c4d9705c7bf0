/- Module: T113Boot/Boot/OneRollback
   layer: results
   digest: Between two updates that switch the slots, at most one rollback does. -/

import T113Boot.Boot.Operations
import T113Boot.Boot.Verdict
import T113Boot.Lib.Rations

set_option autoImplicit false
set_option relaxedAutoImplicit false

namespace T113Boot.Boot.OneRollback

open T113Boot.Lib.Cells
open T113Boot.Lib.Rations
open T113Boot.Lib.Stoppable
open Prog
open T113Boot.Storage.Table
open T113Boot.Ota.Board
open T113Boot.Ota.Firmware
open T113Boot.Ota.Access
open T113Boot.Ota.Layout
open T113Boot.Ota.Footprint
open T113Boot.Ota.Outcomes
open T113Boot.Ota.Reach
open T113Boot.Boot.Loader
open T113Boot.Boot.Operations
open T113Boot.Boot.RunningSlot
open T113Boot.Boot.Verdict

/-- The record before a call, and the one behind it. -/
def before (c : CallRecord) : OtaParamers := .decode c.before
def after (c : CallRecord) : OtaParamers := .decode c.after

/-- An update that returned `OTA_OK` and made the other slot active. -/
def updateSwitch (c : CallRecord) : Bool :=
  c.fn = .update ∧ c.ret = otaOk ∧ (after c).activeSlot = otherSlot (before c)

/-- A rollback behind which `Param` names another slot. -/
def backupSwitch (c : CallRecord) : Bool :=
  c.fn = .backup ∧ (after c).activeSlot ≠ (before c).activeSlot

/-- The rollbacks that a record still allows. -/
def left (m : Mem) : Nat := if (paramOf m).canBeBack = backupFlag then 1 else 0

/-- What holds between any two calls. -/
structure Ledger (w : World) : Prop where
  quiet : Quiet w
  supply : w.power = none
  rationed : Rationed updateSwitch backupSwitch 1 (left w.flash) w.calls
  refused : ∀ c ∈ w.calls, c.fn = .backup → c.ret = otaErrBackup →
    (after c).activeSlot = (before c).activeSlot

/-- The ledger is kept, whether the program returns or stops. -/
def Balanced (w w' : World) : Prop := Ledger w → Ledger w'

theorem Balanced.refl (w : World) : Balanced w w := id

theorem Balanced.trans (w w' w'' : World) (h : Balanced w w') (h' : Balanced w' w'') :
    Balanced w w'' := fun ledger => h' (h ledger)

theorem left_le (m : Mem) : left m ≤ 1 := by
  unfold left
  split <;> omega

theorem left_congr {m m' : Mem} (same : paramOf m' = paramOf m) : left m' = left m := by
  rw [left, left, same]

theorem left_erase (m : Mem) : left (eraseParam m) = 0 := by
  rw [left, paramOf_erase]
  decide

/-- The ledger is kept where no rollback is gained. -/
theorem Ledger.touched {w w' : World} (ledger : Ledger w) {rs : List Region}
    (touched : Touches rs w w') (bound : left w'.flash ≤ left w.flash) : Ledger w' := by
  refine ⟨ledger.quiet.of_suffix touched.faults, touched.supply ledger.supply, ?_, ?_⟩
  · rw [touched.calls]
    exact ledger.rationed.mono bound
  · rw [touched.calls]
    exact ledger.refused

theorem balanced_modify {f : World → World}
    (same : ∀ w, (f w).faults = w.faults ∧ (f w).power = w.power ∧ (f w).flash = w.flash ∧
      (f w).calls = w.calls) : Keeps Balanced (modify f) := by
  intro w ledger
  obtain ⟨faults, power, flash, calls⟩ := same w
  refine ⟨ledger.quiet.of_suffix ?_, ?_, ?_, ?_⟩
  · exact faults ▸ List.suffix_refl _
  · exact power.trans ledger.supply
  · rw [modify_apply]
    dsimp only
    rw [flash, calls]
    exact ledger.rationed
  · rw [modify_apply]
    dsimp only
    rw [calls]
    exact ledger.refused

theorem left_stored {w w' : World} {p : OtaParamers} {ret : Option Int}
    (ends : StoreEnd w p ret w') (supply : w.power = none)
    (allows : ret = some otaOk → p.canBeBack = backupFlag → left w.flash = 1) :
    left w'.flash ≤ left w.flash := by
  cases ends with
  | stored flash =>
    rw [flash, left, paramOf_store]
    split
    · rename_i flag
      rw [allows rfl flag]
    · exact Nat.zero_le _
  | failed faulty flash =>
    rcases flash with same | erased
    · rw [same]
    · rw [erased, left_erase]
      exact Nat.zero_le _
  | cut off flash => exact absurd supply off
  | torn off flash last => exact absurd supply off

theorem left_eq_one {m : Mem} (flag : (paramOf m).canBeBack = backupFlag) : left m = 1 := by
  rw [left, if_pos flag]

theorem balanced_download : Keeps Balanced otaDownloadFirmware := by
  intro w ledger
  have touched := touches_download w
  refine ledger.touched touched ?_
  have ends := otaDownloadFirmware_ends ledger.quiet
  generalize otaDownloadFirmware w = run at ends touched ⊢
  obtain ⟨ret, w'⟩ := run
  cases ends with
  | rejected only code arrived reason => exact Nat.le_of_eq (left_congr only.param_eq)
  | announced only arrived received verified store =>
    have same := left_congr only.param_eq
    rw [← same]
    refine left_stored store (only.supply ledger.supply) fun _ flag => ?_
    rw [same]
    exact left_eq_one flag
  | cut only reason => exact Nat.le_of_eq (left_congr only.param_eq)

/-- The record of a call. -/
def entry (fn : OtaFn) (ret : Int) (w w' : World) : CallRecord :=
  ⟨fn, ret, paramBytes w, paramBytes w'⟩

theorem before_entry (fn : OtaFn) (ret : Int) (w w' : World) :
    before (entry fn ret w w') = paramOf w.flash := rfl

theorem after_entry (fn : OtaFn) (ret : Int) (w w' : World) :
    after (entry fn ret w w') = paramOf w'.flash := rfl

/-- A recorded call keeps the ledger if it pays for the switch it makes. -/
theorem Ledger.call {w w' : World} (ledger : Ledger w) {rs : List Region} {fn : OtaFn}
    {body : Prog World Int} {ret : Int} (run : body w = (some ret, w')) (touched : Touches rs w w')
    (paid : updateSwitch (entry fn ret w w') = false →
      [entry fn ret w w'].countP backupSwitch + left w'.flash ≤ left w.flash)
    (kept : fn = .backup → ret = otaErrBackup →
      (paramOf w'.flash).activeSlot = (paramOf w.flash).activeSlot) :
    Ledger (recorded fn body w).2 := by
  have called : recorded fn body w = _ := recorded_run run
  rw [called]
  refine ⟨ledger.quiet.of_suffix touched.faults, touched.supply ledger.supply, ?_, ?_⟩
  · dsimp only
    rw [touched.calls]
    exact ledger.rationed.concat (left_le _) paid
  · intro c member
    dsimp only at member
    rw [touched.calls] at member
    rcases List.mem_append.mp member with old | new
    · exact ledger.refused c old
    · rw [List.mem_singleton.mp new]
      exact kept

theorem countP_update (ret : Int) (w w' : World) :
    [entry .update ret w w'].countP backupSwitch = 0 := by
  rw [List.countP_singleton]
  rfl

theorem exits_allow {w : World} {p : OtaParamers} {m : Mem} (exits : Exits w p m)
    (flag : (closed p).canBeBack = backupFlag) :
    (closed p).activeSlot = otherSlot (paramOf w.flash) ∨ left w.flash = 1 := by
  cases exits with
  | lost faulty => exact absurd flag (by decide)
  | badMagic magic => exact .inr (left_eq_one flag)
  | kept magic ready reason => exact .inr (left_eq_one flag)
  | broken ready outside reason => exact .inr (left_eq_one flag)
  | installed ready fits =>
    refine .inl ?_
    unfold closed OtaParamers.switched otherSlot
    split
    · rfl
    · rfl

theorem exits_param {w : World} {p : OtaParamers} {m : Mem} (exits : Exits w p m) :
    paramOf m = paramOf w.flash := by
  have away := (other_param (paramOf w.flash)).single
  cases exits with
  | lost faulty => rfl
  | badMagic magic => rfl
  | kept magic ready reason => rfl
  | broken ready outside reason => exact outside.param_eq away
  | installed ready fits => exact (sameOutside_installed fits).param_eq away

theorem balanced_update : Keeps Balanced otaUpdateFirmware := by
  intro w ledger
  have touched := touches_updateBody w
  have ends := updateBody_ends ledger.quiet
  rw [otaUpdateFirmware]
  rcases run : updateBody w with ⟨_ | ret, w'⟩
  · rw [run] at ends
    cases ends with
    | exit faults supply exits store =>
      cases store with
      | cut off flash => exact absurd (supply ledger.supply) off
      | torn off flash last => exact absurd (supply ledger.supply) off
    | cut off ready outside => exact absurd ledger.supply off
  · rw [run] at ends touched
    refine ledger.call run touched (fun stayed => ?_) fun other => by cases other
    rw [countP_update, Nat.zero_add]
    cases ends with
    | idle magic none flash => rw [flash]
    | @exit w₁ _ p _ faults supply exits store =>
      have same := left_congr (exits_param exits)
      rw [← same]
      refine left_stored store (supply ledger.supply) fun ok flag => ?_
      rw [same]
      rcases exits_allow exits flag with switched | one
      · cases ok
        cases store with
        | stored flash =>
          have done : updateSwitch (entry .update otaOk w w') = true := by
            apply decide_eq_true
            rw [before_entry, after_entry, flash, paramOf_store]
            exact ⟨rfl, rfl, switched⟩
          rw [done] at stayed
          cases stayed
      · exact one

theorem countP_backup (ret : Int) (w w' : World) : [entry .backup ret w w'].countP backupSwitch =
    if (paramOf w'.flash).activeSlot = (paramOf w.flash).activeSlot then 0 else 1 := by
  rw [List.countP_singleton, backupSwitch, before_entry, after_entry]
  split
  · simp_all [entry]
  · simp_all [entry]

theorem balanced_backup : Keeps Balanced otaBackupFirmware := by
  intro w ledger
  have touched := touches_backupBody w
  have ends := backupBody_ends ledger.quiet
  rw [otaBackupFirmware]
  rcases run : backupBody w with ⟨_ | ret, w'⟩
  · rw [run] at ends
    cases ends with
    | cut off flash => exact absurd ledger.supply off
    | torn off flash last => exact absurd ledger.supply off
  · rw [run] at ends touched
    have spends (ready : CanRoll (paramOf w.flash)) (none : left w'.flash = 0) :
        [entry .backup ret w w'].countP backupSwitch + left w'.flash ≤ left w.flash := by
      rw [countP_backup, none, left_eq_one ready.2]
      split <;> omega
    have keeps (same : paramOf w'.flash = paramOf w.flash) :
        [entry .backup ret w w'].countP backupSwitch + left w'.flash ≤ left w.flash := by
      rw [countP_backup, if_pos (by rw [same]), left_congr same, Nat.zero_add]
    have none_spent {p : OtaParamers} (flash : w'.flash = storeParam w.flash p)
        (flag : p.canBeBack = 0) : left w'.flash = 0 := by
      rw [flash, left, paramOf_store, flag]
      decide
    cases ends with
    | refused code flash =>
      have same : paramOf w'.flash = paramOf w.flash := by rw [flash]
      exact ledger.call run touched (fun _ => keeps same) fun _ _ => by rw [same]
    | gaveUp ready headless flash =>
      refine ledger.call run touched (fun _ => spends ready (none_spent flash rfl)) fun _ _ => ?_
      rw [flash, paramOf_store]
      rfl
    | switched ready headed flash =>
      refine ledger.call run touched (fun _ => spends ready (none_spent flash rfl)) fun _ code => ?_
      exact absurd code (by decide)
    | failed ready faulty flash =>
      refine ledger.call run touched (fun _ => ?_) fun _ code => absurd code (by decide)
      rcases flash with same | erased
      · exact keeps (by rw [same])
      · exact spends ready (by rw [erased, left_erase])

theorem balanced_bind {α β : Type} {x : Prog World α} {f : α → Prog World β}
    (hx : Keeps Balanced x) (hf : ∀ a, Keeps Balanced (f a)) : Keeps Balanced (x >>= f) :=
  keeps_bind Balanced.trans hx hf

theorem balanced_pure {α : Type} (a : α) : Keeps Balanced (pure a : Prog World α) :=
  keeps_pure Balanced.refl a

theorem balanced_bootLoop (retry : Nat) (header : FirmwareHeader) (para : OtaParamers) :
    Keeps Balanced (bootLoop retry header para) :=
  keeps_bootLoop Balanced.trans (fun _ _ _ tail ledger =>
    ⟨ledger.quiet.of_suffix tail, ledger.supply, ledger.rationed, ledger.refused⟩)
    balanced_backup retry header para

theorem balanced_run (op : Operation) : Keeps Balanced op.run := by
  cases op with
  | download input =>
    refine balanced_bind (balanced_modify fun w => ⟨rfl, rfl, rfl, rfl⟩) fun _ => ?_
    exact balanced_bind balanced_download fun _ => balanced_pure _
  | update => exact balanced_bind balanced_update fun _ => balanced_pure _
  | backup => exact balanced_bind balanced_backup fun _ => balanced_pure _
  | boot => exact balanced_bind (balanced_bootLoop _ _ _) fun _ => balanced_pure _

theorem balanced_operate (ops : List Operation) : Keeps Balanced (operate ops) := by
  induction ops with
  | nil => exact balanced_pure _
  | cons op ops ih => exact balanced_bind (balanced_run op) fun _ => ih

/-- The board with a lasting supply, before its first call. -/
def started (w : World) : World := { w with power := none, calls := [] }

/-- In a run of any calls, with any input and any failures that change nothing, at most one rollback
between two updates that switch the slots names another slot, and none that returns
`OTA_ERR_BACKUP` does. -/
theorem one_rollback_between_updates {w : World} (quiet : Quiet w) (ops : List Operation) :
    (∀ window, window <:+: (operate ops (started w)).2.calls →
      Unfilled updateSwitch window → window.countP backupSwitch ≤ 1) ∧
    ∀ c ∈ (operate ops (started w)).2.calls, c.fn = .backup →
      c.ret = otaErrBackup → (after c).activeSlot = (before c).activeSlot := by
  have start : Ledger (started w) :=
    ⟨quiet, rfl, rationed_nil (left_le _), fun c member => absurd member List.not_mem_nil⟩
  have ledger := balanced_operate ops _ start
  exact ⟨ledger.rationed.windows, ledger.refused⟩

/-- A board whose first call fails. -/
def faultyBoard : World :=
  { boardWith (flashWith tinyRecord [] (tinyImage 0x41000000)) with
    faults := [some ⟨-1, by decide, []⟩] }

/-- Two rollbacks and the loader there. -/
theorem one_rollback_between_updates_faulty :
    (∀ window, window <:+: (operate [.backup, .backup, .boot] (started faultyBoard)).2.calls →
      Unfilled updateSwitch window → window.countP backupSwitch ≤ 1) ∧
    ∀ c ∈ (operate [.backup, .backup, .boot] (started faultyBoard)).2.calls, c.fn = .backup →
      c.ret = otaErrBackup → (after c).activeSlot = (before c).activeSlot := by
  have quiet : Quiet faultyBoard := by
    intro f member
    cases List.mem_singleton.mp member
    rfl
  exact one_rollback_between_updates quiet [.backup, .backup, .boot]

end T113Boot.Boot.OneRollback
