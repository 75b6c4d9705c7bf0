/- Module: T113Boot/Boot/Rollback
   layer: results
   digest: When a damaged slot is left for the other one. -/

import T113Boot.Boot.Verdict

set_option autoImplicit false
set_option relaxedAutoImplicit false

namespace T113Boot.Boot.Rollback

open T113Boot.Lib.Cells
open T113Boot.Nand.Port
open T113Boot.Ota.Board
open T113Boot.Ota.Firmware
open T113Boot.Ota.Access
open T113Boot.Ota.Layout
open T113Boot.Boot.Loader
open T113Boot.Boot.Verdict

/-- A whole image with the checksum and an entry. -/
structure Valid (m : Mem) (r : Region) (crc : UInt32) : Prop where
  headed : Headed m r crc
  fits : Fits r recordSize (headerOf r m).size
  intact : Intact m r crc
  entry : (headerOf r m).execAddr ≠ hgbootNull

/-- The image passes the checks of its magic number, its checksum field and its payload. -/
def Passes (m : Mem) (r : Region) (crc : UInt32) : Prop := Headed m r crc ∧ Intact m r crc

instance (m : Mem) (r : Region) (crc : UInt32) : Decidable (Passes m r crc) :=
  inferInstanceAs (Decidable (_ ∧ _))

/-- A healthy board whose record allows a rollback to a valid image in the other slot. The active
slot holds anything. -/
structure Recoverable (w : World) : Prop where
  healthy : Healthy w
  magic : (paramOf w.flash).magic = otaParaMagic
  flag : (paramOf w.flash).canBeBack = backupFlag
  other : Valid w.flash (otherApp (paramOf w.flash)) (otherCrc (paramOf w.flash))

/-- The loader returns the entry of the active image if that passes, and otherwise that of the
other one, whose payload is then in memory. -/
def Recovers (w : World) : Prop :=
  ∃ entry w', bootFirmware w = (some entry, w') ∧ entry ≠ hgbootNull ∧
    (Passes w.flash (activeApp (paramOf w.flash)) (activeCrc (paramOf w.flash)) →
      entry = (headerOf (activeApp (paramOf w.flash)) w.flash).execAddr) ∧
    (¬ Passes w.flash (activeApp (paramOf w.flash)) (activeCrc (paramOf w.flash)) →
      entry = (headerOf (otherApp (paramOf w.flash)) w.flash).execAddr ∧
      ramWindow w'.ram (headerOf (otherApp (paramOf w.flash)) w.flash).loadAddr
          (headerOf (otherApp (paramOf w.flash)) w.flash).size =
        payloadOf (otherApp (paramOf w.flash)) w.flash)

/-- An active header that is accepted has a payload that can be loaded, an active image that passes
has an entry, and in place of one that does not the other can be loaded. -/
structure Covered (m : Mem) : Prop where
  loads : Headed m (activeApp (paramOf m)) (activeCrc (paramOf m)) → Loadable m (activeApp (paramOf m))
  active : Passes m (activeApp (paramOf m)) (activeCrc (paramOf m)) →
    (headerOf (activeApp (paramOf m)) m).execAddr ≠ hgbootNull
  other : ¬ Passes m (activeApp (paramOf m)) (activeCrc (paramOf m)) →
    Clear 32 (headerOf (otherApp (paramOf m)) m).loadAddr.toNat
      (headerOf (otherApp (paramOf m)) m).size.toNat

/-- What is started where the flash is covered. -/
theorem Covered.booted {w : World} (recoverable : Recoverable w) (covered : Covered w.flash) :
    booted w.flash =
      if Passes w.flash (activeApp (paramOf w.flash)) (activeCrc (paramOf w.flash))
      then some (activeApp (paramOf w.flash)) else some (otherApp (paramOf w.flash)) := by
  obtain ⟨headed, fits, intact, -⟩ := recoverable.other
  rw [Verdict.booted, if_neg (not_not_intro recoverable.magic)]
  by_cases passes : Passes w.flash (activeApp (paramOf w.flash)) (activeCrc (paramOf w.flash))
  · have loadable := covered.loads passes.1
    rw [if_pos ⟨passes.1, loadable, passes.2⟩, if_pos passes]
  · have falls : Falls w.flash (activeApp (paramOf w.flash)) (activeCrc (paramOf w.flash)) := by
      by_cases accepted : Headed w.flash (activeApp (paramOf w.flash)) (activeCrc (paramOf w.flash))
      · exact .inr ⟨covered.loads accepted, fun whole => passes ⟨accepted, whole⟩⟩
      · exact .inl accepted
    rw [if_neg fun bootable => passes ⟨bootable.1, bootable.2.2⟩, if_neg passes,
      if_pos ⟨falls, recoverable.flag, headed, ⟨fits, covered.other passes⟩, intact⟩]

theorem covered_of_entry {m : Mem} (found : entryOf m ≠ hgbootNull) : Covered m := by
  unfold entryOf at found
  rcases started : booted m with _ | r
  · rw [started] at found
    exact absurd rfl found
  rw [started] at found
  dsimp only at found
  unfold booted at started
  split at started
  · cases started
  split at started
  · rename_i bootable
    cases started
    exact ⟨fun _ => bootable.2.1, fun _ => found,
      fun fails => absurd ⟨bootable.1, bootable.2.2⟩ fails⟩
  split at started
  · rename_i fails all
    cases started
    obtain ⟨falls, -, bootable⟩ := all
    have loads (headed : Headed m (activeApp (paramOf m)) (activeCrc (paramOf m))) :
        Loadable m (activeApp (paramOf m)) := by
      rcases falls with headless | ⟨loadable, -⟩
      · exact absurd headed headless
      · exact loadable
    exact ⟨loads, fun passes => absurd ⟨passes.1, loads passes.1, passes.2⟩ fails,
      fun _ => bootable.2.1.2⟩
  · cases started

/-- A rollback to a valid image is complete if and only if the flash is covered. -/
theorem recovers_iff_covered {w : World} (recoverable : Recoverable w) :
    Recovers w ↔ Covered w.flash := by
  obtain ⟨w', run, window⟩ := bootFirmware_run recoverable.healthy
  constructor
  · rintro ⟨entry, w₁, run₁, found, -⟩
    rw [run] at run₁
    cases run₁
    exact covered_of_entry found
  · intro covered
    have starts := covered.booted recoverable
    by_cases passes : Passes w.flash (activeApp (paramOf w.flash)) (activeCrc (paramOf w.flash))
    · rw [if_pos passes] at starts
      have entry : entryOf w.flash = (headerOf (activeApp (paramOf w.flash)) w.flash).execAddr := by
        rw [entryOf, starts]
      refine ⟨_, w', run, ?_, fun _ => entry, fun fails => absurd passes fails⟩
      rw [entry]
      exact covered.active passes
    · rw [if_neg passes] at starts
      have entry : entryOf w.flash = (headerOf (otherApp (paramOf w.flash)) w.flash).execAddr := by
        rw [entryOf, starts]
      refine ⟨_, w', run, ?_, fun pass => absurd pass passes, fun _ => ⟨entry, window _ starts⟩⟩
      rw [entry]
      exact recoverable.other.entry

/-- A flash whose active slot is erased and whose other one holds the image of one byte. -/
def erasedActive : Mem := flashWith tinyRecord [] (tinyImage 0x41000000)

theorem recoverable_erasedActive : Recoverable (boardWith erasedActive) :=
  ⟨healthy_boardWith _, by decide +kernel, by decide +kernel,
    ⟨by decide +kernel, by decide +kernel, by decide +kernel, by decide +kernel⟩⟩

/-- The loader leaves the erased slot. -/
theorem recovers_iff_covered_erased : Recovers (boardWith erasedActive) ∧ Covered erasedActive := by
  have covered : Covered erasedActive := covered_of_entry (by decide +kernel)
  exact ⟨(recovers_iff_covered recoverable_erasedActive).mpr covered, covered⟩

/-- The same with an active header that asks for one byte more than the partition has. -/
def oversizeActive : Mem :=
  flashWith tinyRecord { tinyHeader 0x41000000 with size := 1048545 }.encode (tinyImage 0x41000000)

/-- The loader tries to read that payload until its turns run out, and never rolls back. -/
theorem oversize_not_left : Recoverable (boardWith oversizeActive) ∧
    ¬ Recovers (boardWith oversizeActive) := by
  refine ⟨⟨healthy_boardWith _, by decide +kernel, by decide +kernel,
    ⟨by decide +kernel, by decide +kernel, by decide +kernel, by decide +kernel⟩⟩, ?_⟩
  rintro ⟨entry, w', run, found, -⟩
  obtain ⟨w₁, returned, -⟩ := bootFirmware_run (healthy_boardWith oversizeActive)
  rw [run] at returned
  cases returned
  exact absurd (by decide +kernel) found

end T113Boot.Boot.Rollback
