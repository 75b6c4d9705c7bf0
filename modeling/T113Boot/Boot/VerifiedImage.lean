/- Module: T113Boot/Boot/VerifiedImage
   layer: results
   digest: When every upgrade that is pending in a run has its verified image in `Download`. -/

import T113Boot.Boot.EndToEnd
import T113Boot.Boot.Operations
import T113Boot.Lib.Runs

set_option autoImplicit false
set_option relaxedAutoImplicit false

namespace T113Boot.Boot.VerifiedImage

open T113Boot.Lib.Cells
open T113Boot.Lib.Runs
open T113Boot.Lib.Stoppable
open Prog
open T113Boot.Ymodem.Receive
open T113Boot.Ymodem.Sender
open T113Boot.Ymodem.Transfer
open T113Boot.Ymodem.LossFree
open T113Boot.Ota.Board
open T113Boot.Ota.Firmware
open T113Boot.Ota.Access
open T113Boot.Ota.Layout
open T113Boot.Ota.Footprint
open T113Boot.Ota.Reception
open T113Boot.Ota.Reach
open T113Boot.Ota.Outcomes
open T113Boot.Boot.Loader
open T113Boot.Boot.Operations
open T113Boot.Boot.RunningSlot
open T113Boot.Boot.Verdict
open T113Boot.Boot.Installation
open T113Boot.Boot.EndToEnd

/-- An upgrade is announced and was not installed or dropped since. -/
structure Pending (m : Mem) : Prop where
  magic : (paramOf m).magic = otaParaMagic
  ready : (paramOf m).upgradeReady ≠ 0

/-- An upgrade that is pending is in `Download`, whole and with the checksum it was announced with. -/
def Upheld (m : Mem) : Prop := Pending m → Verified m (paramOf m).downloadCrc

/-- The board behind a call, if the call returns. -/
def next (w : World) (op : Operation) : Option World :=
  match op.run w with
  | (some _, w') => some w'
  | (none, _) => none

theorem next_eq_some {w w' : World} {op : Operation} (h : next w op = some w') :
    op.run w = (some (), w') := by
  unfold next at h
  split at h
  · rename_i run
    cases h
    exact run
  · cases h

theorem pending_congr {m m' : Mem} (same : paramOf m' = paramOf m) : Pending m' ↔ Pending m := by
  constructor
  · rintro ⟨magic, ready⟩
    exact ⟨same ▸ magic, same ▸ ready⟩
  · rintro ⟨magic, ready⟩
    exact ⟨same.symm ▸ magic, same.symm ▸ ready⟩

/-- On a healthy board every upgrade that is pending stays upheld. -/
def Upholds (w w' : World) : Prop := Healthy w → Healthy w' ∧ (Upheld w.flash → Upheld w'.flash)

theorem Upholds.trans (w w' w'' : World) (h : Upholds w w') (h' : Upholds w' w'') :
    Upholds w w'' := by
  intro healthy
  obtain ⟨healthy', kept⟩ := h healthy
  obtain ⟨healthy'', kept'⟩ := h' healthy'
  exact ⟨healthy'', fun upheld => kept' (kept upheld)⟩

theorem upheld_store {m : Mem} {p : OtaParamers} (none : p.upgradeReady = 0) :
    Upheld (storeParam m p) := by
  intro pending
  have ready := pending.ready
  rw [paramOf_store] at ready
  exact absurd none ready

theorem upholds_recorded {fn : OtaFn} {body : Prog World Int} (kept : Keeps Upholds body) :
    Keeps Upholds (recorded fn body) := by
  intro w healthy
  obtain ⟨healthy', upheld⟩ := kept w healthy
  obtain ⟨calls, same⟩ := recorded_leaves fn body w
  rw [same]
  exact ⟨⟨healthy'.faults, healthy'.power⟩, upheld⟩

theorem upholds_updateBody : Keeps Upholds updateBody := by
  intro w healthy
  refine ⟨healthy.touched (touches_updateBody w), fun upheld => ?_⟩
  have ends := updateBody_ends (quiet_healthy healthy.faults)
  generalize updateBody w = run at ends ⊢
  obtain ⟨ret, w'⟩ := run
  cases ends with
  | idle magic none flash => exact flash ▸ upheld
  | exit faults supply exits store =>
    rw [healthy.faults, List.suffix_nil] at faults
    obtain ⟨-, flash⟩ := stored_healthy ⟨faults, supply healthy.power⟩ store
    exact flash ▸ upheld_store rfl
  | cut off ready outside => exact absurd healthy.power off

theorem upholds_backupBody : Keeps Upholds backupBody := by
  intro w healthy
  obtain ⟨ret, w', run, after, switches, stays⟩ := backupBody_healthy healthy
  rw [run]
  refine ⟨after, fun upheld => ?_⟩
  by_cases can : CanSwitch w.flash
  · rw [(switches can).2]
    exact upheld_store rfl
  · rcases (stays can).2 with flash | flash
    · exact flash ▸ upheld
    · exact flash ▸ upheld_store rfl

theorem upholds_boot : Keeps Upholds bootFirmware := by
  refine keeps_bootLoop Upholds.trans (fun w ram faults tail healthy => ?_)
    (upholds_recorded upholds_backupBody) bootMaxRetry .zero .zero
  rw [healthy.faults, List.suffix_nil] at tail
  exact ⟨⟨tail, healthy.power⟩, id⟩

/-- What the line brings is accepted, or is what was announced before. -/
def Brings (w : World) : Prop :=
  (transfer w).1 = some otaOk ∧ (∃ crc, Verified (delivered w) crc) ∨
    Verified (delivered w) (paramOf w.flash).downloadCrc

theorem download_waits {w : World} (healthy : Healthy w) (silent : (transfer w).1 = none) :
    (otaDownloadFirmware w).1 = none := by
  have erasing := partitionEraseAll_run download w
  have touched := touches_eraseAll download w
  rw [if_neg (by simp [healthy.power])] at erasing
  rw [erasing] at touched
  rw [otaDownloadFirmware, downPart_eq, bind_of_some erasing, changeAnswer_healthy healthy.faults,
    if_neg (by simp)]
  rw [changeAnswer_healthy healthy.faults] at touched
  dsimp only at touched ⊢
  generalize hw : after w _ _ = w₁ at touched ⊢
  have line : transfer w₁ = transfer w := by
    rw [← hw]
    rfl
  obtain ⟨w₂, run, -⟩ := otaReceive_healthy (touched.healthy healthy.faults)
    (touched.supply healthy.power)
  rw [line, silent] at run
  rw [bind_of_none run]

theorem download_upholds_iff {w w' : World} {ret : Int} (healthy : Healthy w)
    (run : otaDownloadFirmware w = (some ret, w')) :
    Upheld w'.flash ↔ (Pending w.flash → Brings w) := by
  have ends := otaDownloadFirmware_ends (quiet_healthy healthy.faults)
  rw [run] at ends
  cases ends with
  | rejected only code arrived reason =>
    have record := only.param_eq
    rw [Upheld, pending_congr record, record, arrived healthy.faults healthy.power]
    refine forall_congr' fun pending => ?_
    rw [arrived healthy.faults healthy.power] at reason
    constructor
    · exact .inr
    · rintro (⟨ok, crc, verified⟩ | verified)
      · rcases reason with faulty | failed | unverified
        · exact absurd healthy.faults faulty
        · exact absurd ok failed
        · exact absurd verified (unverified crc)
      · exact verified
  | @announced w₁ _ crc _ only arrived received verified store =>
    obtain ⟨-, flash⟩ := stored_healthy (healthy.touched only) store
    refine iff_of_true (fun _ => ?_) fun _ => ?_
    · rw [flash]
      exact (matches_offered verified).2
    · rw [arrived healthy.faults healthy.power] at verified
      exact .inl ⟨received, crc, verified⟩

/-- Where an upgrade is pending, a download whose transfer ends brings a verified image. -/
def Careful (w : World) : Operation → Prop
  | .download input => Pending w.flash → ∀ ret, (transfer { w with input := input }).1 = some ret →
      Brings { w with input := input }
  | _ => True

theorem upholds_run {op : Operation} (other : ∀ input, op ≠ .download input) :
    Keeps Upholds op.run := by
  have drop {α : Type} {x : Prog World α} (kept : Keeps Upholds x) :
      Keeps Upholds (x >>= fun _ => pure ()) :=
    keeps_bind Upholds.trans kept fun _ => keeps_pure (fun _ healthy => ⟨healthy, id⟩) ()
  cases op with
  | download input => exact absurd rfl (other input)
  | update => exact drop (upholds_recorded upholds_updateBody)
  | backup => exact drop (upholds_recorded upholds_backupBody)
  | boot => exact drop upholds_boot

theorem next_download (w : World) (input : List (Option UInt8)) :
    (∀ ret w', otaDownloadFirmware { w with input := input } = (some ret, w') →
      next w (.download input) = some w') ∧
    (∀ w', otaDownloadFirmware { w with input := input } = (none, w') →
      next w (.download input) = none) := by
  have run : Operation.run (.download input) w =
      (otaDownloadFirmware >>= fun _ => pure ()) { w with input := input } := rfl
  refine ⟨fun ret w' returned => ?_, fun w' stopped => ?_⟩
  · rw [next, run, bind_of_some returned]
    rfl
  · rw [next, run, bind_of_none stopped]

theorem next_healthy {w w' : World} {op : Operation} (healthy : Healthy w)
    (h : next w op = some w') : Healthy w' := by
  by_cases download : ∃ input, op = .download input
  · obtain ⟨input, rfl⟩ := download
    have touched := touches_download { w with input := input }
    obtain ⟨returns, stops⟩ := next_download w input
    rcases run : otaDownloadFirmware { w with input := input } with ⟨_ | ret, w₁⟩
    · rw [stops w₁ run] at h
      cases h
    · rw [returns ret w₁ run] at h
      rw [run] at touched
      cases h
      have there : Healthy { w with input := input } := ⟨healthy.faults, healthy.power⟩
      exact there.touched touched
  · have kept := upholds_run (fun input same => download ⟨input, same⟩) w healthy
    rw [next_eq_some h] at kept
    exact kept.1

/-- One call leaves no upgrade pending without its image exactly if it is careful. -/
theorem next_upheld_iff {w : World} {op : Operation} (healthy : Healthy w) (upheld : Upheld w.flash) :
    (∀ w', next w op = some w' → Upheld w'.flash) ↔ Careful w op := by
  by_cases download : ∃ input, op = .download input
  · obtain ⟨input, rfl⟩ := download
    have there : Healthy { w with input := input } := ⟨healthy.faults, healthy.power⟩
    have ends := otaDownloadFirmware_ends (quiet_healthy there.faults)
    obtain ⟨returns, stops⟩ := next_download w input
    rcases run : otaDownloadFirmware { w with input := input } with ⟨_ | ret, w₁⟩
    · rw [run] at ends
      refine iff_of_true (fun w' returned => ?_) fun _ ret ended => ?_
      · rw [stops w₁ run] at returned
        cases returned
      · cases ends with
        | announced only arrived received verified store =>
          cases (stored_healthy (there.touched only) store).1
        | cut only reason =>
          rcases reason with faulty | off | silent
          · exact absurd there.faults faulty
          · exact absurd there.power off
          · rw [silent] at ended
            cases ended
    · have upholds := download_upholds_iff there run
      constructor
      · exact fun all pending _ _ => upholds.mp (all w₁ (returns ret w₁ run)) pending
      · intro careful w' returned
        rw [returns ret w₁ run] at returned
        cases returned
        refine upholds.mpr fun pending => ?_
        rcases ended : (transfer { w with input := input }).1 with _ | code
        · have waits := download_waits there ended
          rw [run] at waits
          cases waits
        · exact careful pending code ended
  · refine iff_of_true (fun w' returned => ?_) ?_
    · have kept := upholds_run (fun input same => download ⟨input, same⟩) w healthy
      rw [next_eq_some returned] at kept
      exact kept.2 upheld
    · cases op with
      | download input => exact absurd ⟨input, rfl⟩ download
      | update => trivial
      | backup => trivial
      | boot => trivial

/-- From a record without an upgrade: between any two calls of a run what is pending is in `Download`
with its checksum if and only if every download of the run is careful. -/
theorem upheld_throughout_iff {w : World} (healthy : Healthy w)
    (none : (paramOf w.flash).upgradeReady = 0) (ops : List Operation) :
    Always next (fun w => Upheld w.flash) w ops ↔ Along next Careful w ops :=
  always_iff_along Healthy next_healthy next_upheld_iff healthy
    fun pending => absurd none pending.ready

/-- A download of an image, its update and the loader, from an empty flash. -/
theorem upheld_throughout_iff_tiny :
    Always next (fun w => Upheld w.flash) (boardWith fun _ => 0)
      [.download (stream (tinySession 0x41000000)), .update, .boot] := by
  have none : (paramOf (boardWith fun _ => 0).flash).upgradeReady = 0 := by decide +kernel
  refine (upheld_throughout_iff (healthy_boardWith _) none _).mpr ⟨?_, ?_⟩
  · exact fun pending => absurd none pending.ready
  · exact fun _ _ => ⟨trivial, fun _ _ => ⟨trivial, fun _ _ => trivial⟩⟩

/-- A line on which nothing comes for as long as a transfer waits. -/
def silentLine : List (Option UInt8) := silence (ymodemMaxRetry * ymodemMaxRetry)

theorem transfer_silent (w : World) : ∃ code,
    (transfer { w with input := silentLine }).1 = some code ∧ code ≠ otaOk ∧
      pieces { w with input := silentLine } = [] := by
  unfold pieces transfer
  dsimp only
  rcases w.port
  · exact ⟨ymodemErrParam, rfl, by decide, rfl⟩
  · obtain ⟨s, run, -, trace⟩ := recvFirst_silence ymodemMaxRetry
      (s := { input := silentLine, frame := w.frame, trace := [], client := () }) rfl
    rw [ymodemReceive, if_neg (by decide), bind_of_some run]
    refine ⟨ymodemErrTimeout, rfl, by decide, ?_⟩
    have only : handed (List.replicate ymodemMaxRetry (.putchar ymodemC) ++
        [.abort ymodemErrTimeout]) = [] := by
      decide
    rw [← only]
    exact congrArg (fun events => handed (events ++ [.abort ymodemErrTimeout])) trace

theorem magic_erased (m : Mem) (r : Region) :
    (headerOf r (erase m r.start.toNat r.size.toNat)).magic ≠ otaFirmwareMagic := by
  have bytes := take_slice (erase m r.start.toNat r.size.toNat) r.start.toNat r.size.toNat 32 r.room
  rw [slice_erase, List.take_replicate, Nat.min_eq_left r.room] at bytes
  rw [headerOf, ← bytes]
  decide

/-- An image is downloaded, and then nothing comes: the upgrade stays pending over an erased
`Download`. -/
theorem failed_download_stays_pending : ∃ (w : World) (ops : List Operation), Healthy w ∧
    (paramOf w.flash).upgradeReady = 0 ∧ ¬ Always next (fun w => Upheld w.flash) w ops := by
  refine ⟨boardWith fun _ => 0, [.download (stream (tinySession 0x41000000)), .download silentLine],
    healthy_boardWith _, by decide +kernel, fun always => ?_⟩
  obtain ⟨w₁, first, healthy₁, flash₁⟩ := otaDownloadFirmware_sends []
    (healthy_boardWith fun _ => 0) rfl (sends_tiny 0x41000000)
  rw [receiving, List.append_nil] at first
  have rest := (always_cons.mp always).2 w₁ ((next_download _ _).1 _ _ first)
  have pending : Pending w₁.flash := by
    rw [flash₁]
    exact ⟨by rw [paramOf_store]; rfl, by rw [paramOf_store]; exact (by decide : (1 : UInt32) ≠ 0)⟩
  have careful : Careful w₁ (.download silentLine) :=
    (next_upheld_iff healthy₁ (rest 0 w₁ rfl)).mp fun w₂ second =>
      (always_cons.mp rest).2 w₂ second 0 w₂ rfl
  obtain ⟨code, ended, failed, nothing⟩ := transfer_silent w₁
  have erased : delivered { w₁ with input := silentLine } =
      erase w₁.flash download.start.toNat download.size.toNat := by
    rw [delivered, nothing]
    rfl
  rcases careful pending code ended with ⟨ok, -⟩ | verified
  · rw [ended] at ok
    exact failed (Option.some.inj ok)
  · rw [erased] at verified
    exact magic_erased _ _ verified.magic

end T113Boot.Boot.VerifiedImage
