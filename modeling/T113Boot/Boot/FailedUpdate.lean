/- Module: T113Boot/Boot/FailedUpdate
   layer: results
   digest: When an update that failed reports it, and when it leaves the record as it was. -/

import T113Boot.Ota.Foresight
import T113Boot.Boot.Installation

set_option autoImplicit false
set_option relaxedAutoImplicit false

namespace T113Boot.Boot.FailedUpdate

open T113Boot.Lib.Cells
open T113Boot.Lib.Stoppable
open Prog
open T113Boot.Ota.Board
open T113Boot.Ota.Firmware
open T113Boot.Ota.Access
open T113Boot.Ota.Layout
open T113Boot.Ota.Footprint
open T113Boot.Ota.Outcomes
open T113Boot.Ota.Foresight
open T113Boot.Boot.Verdict
open T113Boot.Boot.Installation

variable {w w' : World}

/-- The board with a supply that lasts. -/
def supplied (w : World) : World := { w with power := none }

/-- The error codes of `ota.h`. -/
def otaErrors : List Int :=
  [otaErrDownload, otaErrUpdate, otaErrBackup, otaErrCheck, otaErrPartition]

/-- How an update returns, by its fate. -/
inductive Returns (w : World) : Fate → Int → World → Prop
  | idle {w' : World} (flash : w'.flash = w.flash) : Returns w .idle otaErrUpdate w'
  | unstored {fate : Fate} {p : OtaParamers} {w₁ w' : World} (reached : Reached w fate p w₁)
      (fails : ¬ Stores w₁.faults) : Returns w fate otaErrPartition w'
  | stored {fate : Fate} {p : OtaParamers} {w₁ w' : World} (reached : Reached w fate p w₁)
      (stores : Stores w₁.faults) (flash : w'.flash = storeParam w₁.flash (closed p))
      (trace : w'.trace = w₁.trace ++ storeCalls) : Returns w fate otaOk w'

theorem Reached.on {fate : Fate} {p : OtaParamers} {w₁ : World} (reached : Reached w fate p w₁) :
    w₁.power = none := by
  cases reached with
  | trips on touched read => exact on
  | completes on flash => exact on

/-- With supply an update returns, with a result that its fate tells. -/
theorem otaUpdateFirmware_returns (on : w.power = none) : ∃ ret w',
    otaUpdateFirmware w = (some ret, w') ∧ Returns w (foresee w.flash w.faults) ret w' := by
  have fated := updateBody_fated on
  rcases run : updateBody w with ⟨ret, w'⟩
  rw [run] at fated
  generalize foresee w.flash w.faults = fate at fated ⊢
  cases fated with
  | idle flash => exact ⟨_, _, recorded_run run, .idle flash⟩
  | @exit _ p w₁ reached =>
    obtain ⟨w₂, stored, ends⟩ := rewriteParam_stores (closed p) (Reached.on reached)
    rw [stored] at run
    refine ⟨_, _, recorded_run run, ?_⟩
    by_cases stores : Stores w₁.faults
    · rw [if_pos stores]
      exact .stored reached stores (ends stores).1 (ends stores).2
    · rw [if_neg stores]
      exact .unstored reached stores

/-- It succeeds if the record is stored at its exit, however that was reached. -/
theorem otaUpdateFirmware_stores (on : w.power = none) {left : Faults}
    (exits : foresee w.flash w.faults = .trips left ∨ foresee w.flash w.faults = .completes left)
    (stores : Stores left) : ∃ w', otaUpdateFirmware w = (some otaOk, w') := by
  obtain ⟨ret, w', run, returns⟩ := otaUpdateFirmware_returns on
  generalize foresee w.flash w.faults = fate at exits returns
  cases returns with
  | idle flash => rcases exits with same | same <;> cases same
  | unstored reached fails =>
    cases reached with
    | trips on touched read =>
      rcases exits with same | same <;> cases same
      exact absurd stores fails
    | completes on flash =>
      rcases exits with same | same <;> cases same
      exact absurd stores fails
  | stored reached stores flash trace => exact ⟨w', run⟩

/-- What an update that succeeds should have done. -/
structure Done (w w' : World) : Prop where
  undisturbed : ¬ Disturbed w.flash w.faults
  magic : (paramOf w.flash).magic = otaParaMagic
  ready : (paramOf w.flash).upgradeReady ≠ 0
  whole : Fits download recordSize (headerOf download w.flash).size
  copied : slice w'.flash (otherApp (paramOf w.flash)).start.toNat
      (32 + (headerOf download w.flash).size.toNat) =
    slice w.flash download.start.toNat (32 + (headerOf download w.flash).size.toNat)
  rewritten : ∃ made, w'.trace = made ++ storeCalls
  switched : (paramOf w'.flash).activeSlot = otherSlot (paramOf w.flash)
  record : paramOf w'.flash = upgraded (paramOf w.flash)

/-- Success is reported of an update that is done, and a failure of one that was disturbed. -/
structure Reports (w : World) : Prop where
  success : ∀ w', otaUpdateFirmware w = (some otaOk, w') → Done w w'
  failure : Disturbed w.flash w.faults →
    ∃ ret w', otaUpdateFirmware w = (some ret, w') ∧ ret ∈ otaErrors

/-- When the exit tells success for failure: an update trips before it, or copies a part of an image
whose size wraps around, and the two calls that store the record succeed. -/
def Reported (m : Mem) (faults : Faults) : Prop :=
  match foresee m faults with
  | .idle => True
  | .trips left => ¬ Stores left
  | .completes left => Stores left → Sized m

theorem otaOk_notMem : otaOk ∉ otaErrors := by decide

theorem activeSlot_upgraded (p : OtaParamers) : (upgraded p).activeSlot = otherSlot p := by
  unfold upgraded closed OtaParamers.switched otherSlot
  split
  · rfl
  · rfl

theorem sized_of_fits {m : Mem} (fits : Fits download recordSize (headerOf download m).size) :
    Sized m := by
  have total : download.size.toNat = 1048576 := rfl
  have record : recordSize.toNat = 32 := rfl
  unfold Fits at fits
  rw [Sized, imageSize, UInt32.toNat_add]
  omega

/-- A copy that ran through and a record that was stored are what success means, for a size that
does not wrap. -/
theorem done_of_completes {m₁ : Mem} (undisturbed : ¬ Disturbed w.flash w.faults)
    (sized : Sized w.flash) (installs : m₁ = installed w.flash)
    (flash : w'.flash = storeParam m₁ (closed (paramOf w.flash).switched))
    (trace : ∃ made, w'.trace = made ++ storeCalls) : Done w w' := by
  subst installs
  have total : download.size.toNat = 1048576 := rfl
  have record : recordSize.toNat = 32 := rfl
  have fits : Fits download 0 (imageSize w.flash) := by
    by_contra unfit
    exact undisturbed (.inr (.inr (.inr (.inr (.inr (.inl unfit))))))
  have whole := fits
  unfold Sized at sized
  rw [Fits, UInt32.toNat_zero, sized] at whole
  have stored : paramOf w'.flash = upgraded (paramOf w.flash) := by
    rw [flash, paramOf_store]
    rfl
  refine ⟨undisturbed, ?_, ?_, ?_, ?_, trace, ?_, stored⟩
  · by_contra bad
    exact undisturbed (.inr (.inl bad))
  · exact fun none => undisturbed (.inr (.inr (.inl none)))
  · rw [Fits, record]
    omega
  · have same := sameOutside_storeParam (installed w.flash) (closed (paramOf w.flash).switched)
    have size := other_size (paramOf w.flash)
    rw [flash, slice_congr (same.agree (param_apart_other (paramOf w.flash)) (Nat.le_refl _)
      (by rw [size]; omega)), slice_installed fits (by omega)]
  · rw [stored, activeSlot_upgraded]

private theorem vacuous {ret : Int} (run : otaUpdateFirmware w = (some ret, w')) (bad : ret ≠ otaOk)
    {P : World → Prop} (w'' : World) (ok : otaUpdateFirmware w = (some otaOk, w'')) : P w'' := by
  rw [run] at ok
  exact absurd (Option.some.inj (congrArg Prod.fst ok)) bad

/-- An update reports what it did if and only if no storing of the record at its exit succeeds
behind a failure, or behind the copy of an image whose size wraps around. -/
theorem reports_iff (w : World) : Reports (supplied w) ↔ Reported w.flash w.faults := by
  obtain ⟨ret, w', run, returns⟩ := otaUpdateFirmware_returns (w := supplied w) rfl
  have completes := completes_iff w.flash w.faults
  rw [Reported]
  change Returns (supplied w) (foresee w.flash w.faults) ret w' at returns
  generalize foresee w.flash w.faults = fate at completes returns ⊢
  cases returns with
  | idle flash =>
    exact iff_of_true ⟨vacuous run (by decide), fun _ => ⟨_, _, run, by decide⟩⟩ trivial
  | unstored reached fails =>
    refine iff_of_true ⟨vacuous run (by decide), fun _ => ⟨_, _, run, by decide⟩⟩ ?_
    cases reached with
    | trips on touched read => exact fails
    | completes on flash => exact fun stores => absurd stores fails
  | stored reached stores flash trace =>
    cases reached with
    | trips on touched read =>
      refine iff_of_false (fun reports => ?_) fun fails => fails stores
      have disturbed : Disturbed w.flash w.faults := by
        by_contra clear
        obtain ⟨left, same⟩ := completes.mpr clear
        cases same
      obtain ⟨ret, w'', again, error⟩ := reports.failure disturbed
      rw [run] at again
      cases again
      exact otaOk_notMem error
    | completes on copied =>
      have undisturbed := completes.mp ⟨_, rfl⟩
      constructor
      · exact fun reports _ => sized_of_fits (reports.success w' run).whole
      · intro sized
        refine ⟨fun w'' ok => ?_, fun disturbed => absurd disturbed undisturbed⟩
        rw [run] at ok
        cases ok
        exact done_of_completes undisturbed (sized stores) copied flash ⟨_, trace⟩

/-- An image whose size wraps around to nothing, and a record that announces it. -/
def wrapping : Mem :=
  store (flashWith { tinyRecord with upgradeReady := 1 } (tinyImage 0x41000000) [])
    download.start.toNat { tinyHeader 0x41000000 with size := 0xFFFFFFE0, crc32 := 0 }.encode

/-- On an empty flash an update returns success for a record with a wrong magic number, and of an
image whose size wraps around it installs nothing and returns success. -/
theorem failures_reported_as_success :
    ¬ Reports (boardWith fun _ => 0) ∧ ¬ Reports (boardWith wrapping) := by
  have stores : Stores [] := by decide
  refine ⟨fun reports => ?_, fun reports => ?_⟩
  · have magic : (paramOf fun _ => 0).magic ≠ otaParaMagic := by decide +kernel
    have trips : foresee (fun _ => 0) [] = .trips [] := by rw [foresee_healthy, if_pos magic]
    obtain ⟨w', run⟩ := otaUpdateFirmware_stores (w := boardWith fun _ => 0) rfl (.inl trips) stores
    exact (reports.success w' run).undisturbed (.inr (.inl magic))
  · have completes : foresee wrapping [] = .completes [] := by
      rw [foresee_healthy, if_neg (by decide +kernel), if_neg (by decide +kernel),
        if_neg (by decide +kernel), if_pos (by decide +kernel)]
    obtain ⟨w', run⟩ :=
      otaUpdateFirmware_stores (w := boardWith wrapping) rfl (.inr completes) stores
    have whole := (reports.success w' run).whole
    revert whole
    decide +kernel

/-- The copy of the image is not made, or only of a part of it. -/
def Uncopied (m : Mem) (faults : Faults) : Prop := Disturbed m faults ∨ ¬ Sized m

/-- The record is as it was, at most without its upgrade; and one that could not be read was neither
erased nor written. -/
structure RecordKept (w w' : World) : Prop where
  same : paramOf w'.flash = paramOf w.flash ∨
    paramOf w'.flash = { paramOf w.flash with upgradeReady := 0 }
  unread : FailsAt w.faults 0 → ∀ c ∈ w'.trace.drop w.trace.length, ¬ Inside c param

/-- An update that copies no image, and whose exit stores the record, keeps it. -/
def KeepsRecord (w : World) : Prop :=
  ∀ w', Uncopied w.flash w.faults → otaUpdateFirmware w = (some otaOk, w') → RecordKept w w'

/-- When it does: of an update that trips before its exit because the record cannot be read or has a
wrong magic number the exit fails, and so does that of an update whose size wraps around. -/
def Spares (m : Mem) (faults : Faults) : Prop :=
  match foresee m faults with
  | .idle => True
  | .trips left => FailsAt faults 0 ∨ (paramOf m).magic ≠ otaParaMagic → ¬ Stores left
  | .completes left => Stores left → Sized m

/-- An update that trips keeps the record exactly if it has read a record with the right magic
number. -/
theorem kept_of_trips {p : OtaParamers} {w₁ : World}
    (touched : Touches [otherApp (paramOf w.flash)] w w₁)
    (read : FailsAt w.faults 0 ∨ p = paramOf w.flash)
    (flash : w'.flash = storeParam w₁.flash (closed p))
    (trace : w'.trace = w₁.trace ++ storeCalls) :
    RecordKept w w' ↔ ¬ FailsAt w.faults 0 ∧ (paramOf w.flash).magic = otaParaMagic := by
  have record : paramOf w'.flash = closed p := by rw [flash, paramOf_store]
  constructor
  · rintro ⟨same, unread⟩
    have known : ¬ FailsAt w.faults 0 := by
      intro lost
      obtain ⟨made, traced, -⟩ := touched.made
      refine unread lost eraseCall ?_ ⟨by decide, by decide⟩
      rw [trace, traced, List.append_assoc, List.drop_left]
      exact List.mem_append_right _ List.mem_cons_self
    have magic : (closed p).magic = (paramOf w.flash).magic := by
      rcases same with same | same <;> rw [← record, same]
    exact ⟨known, magic.symm⟩
  · rintro ⟨known, magic⟩
    obtain rfl := read.resolve_left known
    refine ⟨.inr ?_, fun lost => absurd lost known⟩
    rw [record, closed, ← magic]

/-- An update that copies no image keeps the record if and only if no storing at its exit succeeds
where the record was not read or not valid, or where the size of the image wraps around. -/
theorem keepsRecord_iff (w : World) : KeepsRecord (supplied w) ↔ Spares w.flash w.faults := by
  obtain ⟨ret, w', run, returns⟩ := otaUpdateFirmware_returns (w := supplied w) rfl
  have completes := completes_iff w.flash w.faults
  rw [Spares]
  change Returns (supplied w) (foresee w.flash w.faults) ret w' at returns
  generalize foresee w.flash w.faults = fate at completes returns ⊢
  have keeps : KeepsRecord (supplied w) ↔
      (Uncopied w.flash w.faults → ret = otaOk → RecordKept (supplied w) w') := by
    constructor
    · rintro keeps uncopied rfl
      exact keeps w' uncopied run
    · intro kept w'' uncopied ok
      rw [run] at ok
      cases ok
      exact kept uncopied rfl
  rw [keeps]
  cases returns with
  | idle flash => exact iff_of_true (fun _ ok => by cases ok) trivial
  | unstored reached fails =>
    refine iff_of_true (fun _ ok => by cases ok) ?_
    cases reached with
    | trips on touched read => exact fun _ => fails
    | completes on flash => exact fun stores => absurd stores fails
  | stored reached stores flash trace =>
    cases reached with
    | @trips w₁ p on touched read =>
      have disturbed : Disturbed w.flash w.faults := by
        by_contra clear
        obtain ⟨left, same⟩ := completes.mpr clear
        cases same
      have kept := kept_of_trips touched read flash trace
      constructor
      · rintro keeps (lost | magic) -
        · exact (kept.mp (keeps (.inl disturbed) rfl)).1 lost
        · exact magic (kept.mp (keeps (.inl disturbed) rfl)).2
      · intro fails _ _
        refine kept.mpr ⟨fun lost => fails (.inl lost) stores, ?_⟩
        by_contra magic
        exact fails (.inr magic) stores
    | completes on copied =>
      have undisturbed := completes.mp ⟨_, rfl⟩
      have record : paramOf w'.flash = upgraded (paramOf w.flash) := by
        rw [flash, paramOf_store]
        rfl
      constructor
      · intro keeps _
        by_contra wraps
        have slot : (paramOf w'.flash).activeSlot = (paramOf w.flash).activeSlot := by
          rcases (keeps (.inr wraps) rfl).same with same | same <;> rw [same] <;> rfl
        rw [record, activeSlot_upgraded] at slot
        exact otherSlot_ne _ slot
      · rintro sized (disturbed | wraps) -
        · exact absurd disturbed undisturbed
        · exact absurd (sized stores) wraps

/-- A record that was not read, or not valid, is replaced where the storing succeeds. -/
theorem lost_of_trips (on : w.power = none) {left : Faults}
    (trips : foresee w.flash w.faults = .trips left) (stores : Stores left)
    (bad : FailsAt w.faults 0 ∨ (paramOf w.flash).magic ≠ otaParaMagic) :
    ∃ w', otaUpdateFirmware w = (some otaOk, w') ∧ ¬ RecordKept w w' := by
  obtain ⟨ret, w', run, returns⟩ := otaUpdateFirmware_returns on
  rw [trips] at returns
  cases returns with
  | unstored reached fails =>
    cases reached with
    | trips on touched read => exact absurd stores fails
  | stored reached stores flash trace =>
    cases reached with
    | trips on touched read =>
      refine ⟨w', run, fun kept => ?_⟩
      obtain ⟨known, magic⟩ := (kept_of_trips touched read flash trace).mp kept
      exact bad.elim known fun wrong => wrong magic

theorem code_ne : (-1 : Int) ≠ 0 := by decide

/-- A valid record, and the call that reads it is to fail. -/
def unreadable : World :=
  { boardWith (flashWith tinyRecord [] []) with faults := [some ⟨-1, code_ne, []⟩] }

/-- On an empty flash a record with a wrong magic number becomes valid, and a record that cannot be
read is overwritten. -/
theorem failed_update_changes_record :
    ¬ KeepsRecord (boardWith fun _ => 0) ∧ ¬ KeepsRecord unreadable := by
  have stores : Stores [] := by decide
  refine ⟨fun keeps => ?_, fun keeps => ?_⟩
  · have magic : (paramOf fun _ => 0).magic ≠ otaParaMagic := by decide +kernel
    have trips : foresee (fun _ => 0) [] = .trips [] := by rw [foresee_healthy, if_pos magic]
    obtain ⟨w', run, lost⟩ :=
      lost_of_trips (w := boardWith fun _ => 0) rfl trips stores (.inr magic)
    exact lost (keeps w' (.inl (.inr (.inl magic))) run)
  · have fails : FailsAt unreadable.faults 0 := by decide
    have trips : foresee unreadable.flash unreadable.faults = .trips [] := rfl
    obtain ⟨w', run, lost⟩ := lost_of_trips (w := unreadable) rfl trips stores (.inl fails)
    exact lost (keeps w' (.inl (.inl fails)) run)

end T113Boot.Boot.FailedUpdate
