/- Module: T113Boot/Ota/Loops
   layer: specification
   digest: The loops over an image: their invariant rule, the checksum they form, the copy they make. -/

import T113Boot.Ota.Footprint

set_option autoImplicit false
set_option relaxedAutoImplicit false

namespace T113Boot.Ota.Loops

open T113Boot.Lib.Cells
open T113Boot.Lib.Stoppable
open Prog
open T113Boot.Nand.Chip
open T113Boot.Storage.Table
open T113Boot.Ota.Board
open T113Boot.Ota.Crc32
open T113Boot.Ota.Firmware
open T113Boot.Ota.Access
open T113Boot.Ota.Layout
open T113Boot.Ota.Footprint

variable {α : Type}

/-- The postcondition of a loop: `I` where it ran through, `F` where a turn failed. -/
def Ends (I : α → World → Prop) (F : Int → World → Prop) : Except Int α → World → Prop
  | .ok acc, w => I acc w
  | .error err, w => F err w

theorem cacheLoop_zero (turn : UInt32 → UInt32 → α → Prog World (Except Int α)) (fuel : Nat)
    (offset : UInt32) (acc : α) : cacheLoop turn fuel 0 offset acc = pure (.ok acc) := by
  cases fuel <;> rfl

theorem wp_cacheLoop {turn : UInt32 → UInt32 → α → Prog World (Except Int α)}
    {I : Nat → α → World → Prop} {F : Int → World → Prop} {E : World → Prop} {stop : Nat}
    (low : ∀ n acc w, I n acc w → n ≤ 2147483648)
    (step : ∀ (offset len : UInt32) acc w, I offset.toNat acc w → 0 < len.toNat →
      len.toNat ≤ 1024 → offset.toNat + len.toNat ≤ stop →
      len.toNat = 1024 ∨ offset.toNat + len.toNat = stop →
      wp (turn offset len acc) (Ends (I (offset.toNat + len.toNat)) F) E w)
    (fuel : Nat) (remain offset : UInt32) (acc : α) (w : World) (start : I offset.toNat acc w)
    (ends : offset.toNat + remain.toNat = stop) (fueled : remain.toNat < fuel) :
    wp (cacheLoop turn fuel remain offset acc) (Ends (I stop) F) E w := by
  have cache : cacheSize.toNat = 1024 := rfl
  induction fuel generalizing remain offset acc w with
  | zero => omega
  | succ fuel ih =>
    unfold cacheLoop
    by_cases done : remain = 0
    · rw [if_pos done, wp_pure]
      rw [done, UInt32.toNat_zero, Nat.add_zero] at ends
      rw [← ends]
      exact start
    · have more : 0 < remain.toNat := by
        apply Nat.pos_of_ne_zero
        intro zero
        exact done (UInt32.toNat_inj.mp zero)
      rw [if_neg done]
      by_cases large : remain > cacheSize
      · rw [if_pos large, wp_bind]
        rw [gt_iff_lt, UInt32.lt_iff_toNat_lt, cache] at large
        have piece := step offset cacheSize acc w start (by omega) (by omega) (by omega) (.inl cache)
        refine wp_mono piece (fun answer w' ended => ?_) fun _ stopped => stopped
        rcases answer with err | acc'
        · exact ended
        · have bound := low _ _ _ start
          have next : (offset + cacheSize).toNat = offset.toNat + cacheSize.toNat := by
            rw [UInt32.toNat_add]
            omega
          have left : (remain - cacheSize).toNat = remain.toNat - 1024 := by
            rw [UInt32.toNat_sub_of_le _ _ (by rw [UInt32.le_iff_toNat_le]; omega), cache]
          exact ih _ _ acc' w' (by rw [next]; exact ended) (by omega) (by omega)
      · rw [if_neg large, wp_bind]
        rw [gt_iff_lt, UInt32.lt_iff_toNat_lt, cache] at large
        have piece := step offset remain acc w start more (by omega) (by omega) (.inr ends)
        refine wp_mono piece (fun answer w' ended => ?_) fun _ stopped => stopped
        rcases answer with err | acc'
        · exact ended
        · dsimp only
          rw [cacheLoop_zero, ← ends]
          exact ended

theorem pieceRead_run {r : Region} {offset len : UInt32} (low : offset.toNat ≤ r.size.toNat)
    (short : len.toNat ≤ 1024) (w : World) :
    partitionRead registry (some r.name) objectPtr offset len w =
      if Fits r offset len then
        (some (readAnswer w (r.start.toNat + offset.toNat) len.toNat),
          { w with faults := w.faults.tail })
      else (some (partitionErrSize, []), w) := by
  by_cases fits : Fits r offset len
  · have total := totalSize_eq
    rw [if_pos fits, partitionRead_fits r fits objectPtr_ne (objectPtr_window (by omega))]
  · have inside := r.inside
    have total := totalSize_eq
    rw [if_neg fits, partitionRead_eq r objectPtr_ne, if_pos (refused fits (by omega))]
    rfl

/-- Where it runs through, the loop has formed the checksum of a payload that fits; without
faults it does whenever the payload fits. -/
theorem crcLoop_wp (size : UInt32) (w : World) :
    wp (crcLoop size) (Ends (fun crc w' => Moved w w' ∧ Fits download recordSize size ∧
        crc = otaCrc32Update 0xFFFFFFFF (slice w.flash (download.start.toNat + 32) size.toNat))
      (fun err w' => Moved w w' ∧ err = otaErrPartition ∧
        (w.faults = [] → ¬ Fits download recordSize size))) (fun _ => False) w := by
  have total : download.size.toNat = 1048576 := rfl
  have record : recordSize.toNat = 32 := rfl
  have loop := @wp_cacheLoop _ crcChunk
    (fun n acc w' => Moved w w' ∧ 32 ≤ n ∧ n ≤ download.size.toNat ∧
      acc = otaCrc32Update 0xFFFFFFFF (slice w.flash (download.start.toNat + 32) (n - 32)))
    (fun err w' => Moved w w' ∧ err = otaErrPartition ∧
      (w.faults = [] → ¬ Fits download recordSize size))
    (fun _ => False) (recordSize.toNat + size.toNat)
    (fun n acc w' h => by omega)
    (fun offset len acc w' ⟨moved, past, low, sum⟩ more short within _ => by
      subst sum
      rw [crcChunk, downPart_eq, wp_bind]
      have read := pieceRead_run (r := download) low short w'
      by_cases fits : Fits download offset len
      · rw [if_pos fits] at read
        rw [wp_of_some read]
        by_cases ok : (readAnswer w' (download.start.toNat + offset.toNat) len.toNat).1 = 0
        · rw [if_neg fun failed => failed ok, wp_pure]
          refine ⟨moved.tail, by omega, fits, ?_⟩
          rw [readAnswer_ok ok, moved.flash,
            show offset.toNat + len.toNat - 32 = offset.toNat - 32 + len.toNat by omega, slice_add,
            otaCrc32Update_append, show download.start.toNat + 32 + (offset.toNat - 32) =
              download.start.toNat + offset.toNat by omega]
        · rw [if_pos ok, wp_pure]
          refine ⟨moved.tail, rfl, fun healthy => ?_⟩
          rw [readAnswer_healthy ((moved.touches []).healthy healthy)] at ok
          exact absurd rfl ok
      · rw [if_neg fits] at read
        rw [wp_of_some read, if_pos (by simp [partitionErrSize]), wp_pure]
        exact ⟨moved, rfl, fun _ all => fits (Nat.le_trans within all)⟩)
    (size.toNat + 1) size recordSize 0xFFFFFFFF w ⟨.refl w, by omega, by omega, rfl⟩ rfl (by omega)
  refine wp_mono loop (fun result w' ended => ?_) fun _ h => h
  rcases result with err | crc
  · exact ended
  · obtain ⟨moved, -, fits, sum⟩ := ended
    rw [show recordSize.toNat + size.toNat - 32 = size.toNat by omega] at sum
    exact ⟨moved, fits, sum⟩

/-- How far a copy into the region `t` has come. -/
def Copied (t : Region) (w : World) (n : Nat) (w' : World) : Prop :=
  Touches [t] w w' ∧ n ≤ download.size.toNat ∧
    w'.flash = program w.flash t.start.toNat (slice w.flash download.start.toNat n)

theorem copyChunk_wp {t : Region} (apart : Apart t download) (same : t.size = download.size)
    {w w' : World} {offset len : UInt32} (copied : Copied t w offset.toNat w')
    (short : len.toNat ≤ 1024) :
    wp (copyChunk t.name offset len ()) (Ends (fun _ w'' => Copied t w (offset.toNat + len.toNat) w'')
      (fun err w'' => Touches [t] w w'' ∧ err = otaErrPartition ∧
        (w.faults = [] → ¬ Fits download offset len)))
      (fun w'' => Touches [t] w w'' ∧ w.power ≠ none) w' := by
  obtain ⟨touched, low, bytes⟩ := copied
  have total : download.size.toNat = 1048576 := rfl
  rw [copyChunk, downPart_eq, wp_bind]
  have read := pieceRead_run (r := download) low short w'
  by_cases fits : Fits download offset len
  · rw [if_pos fits] at read
    rw [wp_of_some read]
    have moved := touched.trans _ _ _ (touches_faults [t] w' (List.tail_suffix _))
    by_cases ok : (readAnswer w' (download.start.toNat + offset.toNat) len.toNat).1 = 0
    · rw [if_neg fun failed => failed ok, wp_bind]
      have there : Fits t offset len := by rw [Fits, same]; exact fits
      have touchedWrite := touches_write t (length_readAnswer ok) (by omega : offset.toNat + len.toNat < _)
        { w' with faults := w'.faults.tail }
      have write := partitionWrite_fits t there (length_readAnswer ok)
        { w' with faults := w'.faults.tail }
      rw [write] at touchedWrite
      dsimp only at write touchedWrite
      by_cases off : w'.power = some 0
      · rw [if_pos off] at write
        rw [wp_of_none write]
        refine ⟨moved, fun none => ?_⟩
        rw [touched.supply none] at off
        cases off
      · rw [if_neg off] at write touchedWrite
        rw [wp_of_some write]
        have after := moved.trans _ _ _ touchedWrite
        split
        · rename_i failed
          refine ⟨after, rfl, fun healthy => ?_⟩
          rw [changeAnswer_healthy (by rw [touched.healthy healthy]; rfl)] at failed
          exact absurd rfl failed
        · rename_i done
          refine ⟨after, fits, ?_⟩
          have here : AgreeOn w'.flash w.flash (download.start.toNat + offset.toNat) len.toNat :=
            touched.flash.agree (t := download)
              (fun r member => by rw [List.mem_singleton.mp member]; exact apart)
              (Nat.le_add_right _ _) (by unfold Fits at fits; omega)
          rw [bytes] at here
          rw [after_flash, changeAnswer_ok (not_not.mp done), readAnswer_ok ok, bytes, slice_congr here]
          have joined := program_append w.flash t.start.toNat
            (slice w.flash download.start.toNat offset.toNat)
            (slice w.flash (download.start.toNat + offset.toNat) len.toNat)
          rw [length_slice, ← slice_add] at joined
          exact joined
    · rw [if_pos ok, wp_pure]
      refine ⟨moved, rfl, fun healthy => ?_⟩
      rw [readAnswer_healthy (touched.healthy healthy)] at ok
      exact absurd rfl ok
  · rw [if_neg fits] at read
    rw [wp_of_some read, if_pos (by simp [partitionErrSize]), wp_pure]
    exact ⟨touched, rfl, fun _ => fits⟩

/-- Copying `size` bytes of `Download` into a region changes that region only. Where it runs
through, the bytes were programmed there; without faults it does when they fit. -/
theorem copyLoop_wp {t : Region} (apart : Apart t download) (same : t.size = download.size)
    (size : UInt32) (w : World) :
    wp (copyLoop t.name size) (Ends (fun _ w' => Copied t w size.toNat w')
      (fun err w' => Touches [t] w w' ∧ err = otaErrPartition ∧
        (w.faults = [] → ¬ Fits download 0 size)))
      (fun w' => Touches [t] w w' ∧ w.power ≠ none) w := by
  have total : download.size.toNat = 1048576 := rfl
  refine @wp_cacheLoop _ (copyChunk t.name) (fun n _ w' => Copied t w n w') _ _ size.toNat
    (fun n _ w' h => by have := h.2.1; omega) ?_ (size.toNat + 1) size 0 () w
    ⟨.refl _ w, by rw [UInt32.toNat_zero]; omega, ?_⟩ (by rw [UInt32.toNat_zero, Nat.zero_add])
    (Nat.lt_succ_self _)
  · intro offset len _ w' copied _ short within _
    refine wp_mono (copyChunk_wp apart same copied short) (fun answer w'' ended => ?_) fun _ h => h
    rcases answer with err | _
    · obtain ⟨touched, code, unfit⟩ := ended
      refine ⟨touched, code, fun healthy all => unfit healthy (Nat.le_trans within ?_)⟩
      simpa [Fits] using all
    · exact ended
  · rw [UInt32.toNat_zero, slice_zero, program_nil]

end T113Boot.Ota.Loops
