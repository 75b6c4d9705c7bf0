/- Module: T113Boot/Ota/Foresight
   layer: specification
   digest: Which device call ends an update, read off the flash and the faults to come. -/

import T113Boot.Ota.Outcomes

set_option autoImplicit false
set_option relaxedAutoImplicit false

namespace T113Boot.Ota.Foresight

open T113Boot.Lib.Cells
open T113Boot.Lib.Stoppable
open Prog
open T113Boot.Storage.Table
open T113Boot.Ota.Board
open T113Boot.Ota.Firmware
open T113Boot.Ota.Access
open T113Boot.Ota.Layout
open T113Boot.Ota.Footprint
open T113Boot.Ota.Loops
open T113Boot.Ota.Reach
open T113Boot.Ota.Outcomes

/-- The device calls to come: which of them fail, and how. -/
abbrev Faults := List (Option Fault)

/-- The `i`-th device call to come fails. -/
def FailsAt (faults : Faults) (i : Nat) : Prop := faults.getD i none ≠ none

instance (faults : Faults) (i : Nat) : Decidable (FailsAt faults i) :=
  match h : faults.getD i none with
  | none => isFalse fun fails => fails h
  | some _ => isTrue fun none => by rw [h] at none; cases none

/-- So many calls in a row, until one fails: what is left of the faults then (`error`), or behind
them all. -/
def attempt : Nat → Faults → Except Faults Faults
  | 0, faults => .ok faults
  | n + 1, faults =>
    match faults.headD none with
    | some _ => .error faults.tail
    | none => attempt n faults.tail

variable {faults left : Faults} {n k : Nat}

theorem attempt_head_ok (head : faults.headD none = none) (n : Nat) :
    attempt (n + 1) faults = attempt n faults.tail := by
  rw [attempt, head]

theorem attempt_head_error (head : ¬ faults.headD none = none) (n : Nat) :
    attempt (n + 1) faults = .error faults.tail := by
  rcases known : faults.headD none with _ | f
  · exact absurd known head
  · rw [attempt, known]

theorem attempt_add_ok (done : attempt k faults = .ok left) (n : Nat) :
    attempt (k + n) faults = attempt n left := by
  induction k generalizing faults with
  | zero =>
    cases done
    rw [Nat.zero_add]
  | succ k ih =>
    by_cases head : faults.headD none = none
    · rw [attempt_head_ok head] at done
      rw [Nat.add_right_comm, attempt_head_ok head]
      exact ih done
    · rw [attempt_head_error head] at done
      cases done

theorem attempt_add_error (failed : attempt k faults = .error left) (n : Nat) :
    attempt (k + n) faults = .error left := by
  induction k generalizing faults with
  | zero => cases failed
  | succ k ih =>
    rw [Nat.add_right_comm]
    by_cases head : faults.headD none = none
    · rw [attempt_head_ok head] at failed ⊢
      exact ih failed
    · rw [attempt_head_error head] at failed ⊢
      exact failed

theorem failsAt_zero_iff : FailsAt faults 0 ↔ ¬ faults.headD none = none := by
  cases faults <;> rfl

theorem failsAt_drop (faults : Faults) (k i : Nat) :
    FailsAt (faults.drop k) i ↔ FailsAt faults (k + i) := by
  unfold FailsAt
  rw [List.getD_eq_getElem?_getD, List.getD_eq_getElem?_getD, List.getElem?_drop]

theorem attempt_one (faults : Faults) : attempt 1 faults =
    if FailsAt faults 0 then .error (faults.drop 1) else .ok (faults.drop 1) := by
  rw [List.drop_one]
  by_cases head : faults.headD none = none
  · rw [if_neg fun fails => failsAt_zero_iff.mp fails head, attempt_head_ok head, attempt]
  · rw [if_pos (failsAt_zero_iff.mpr head), attempt_head_error head]

theorem attempt_ok_iff : (∃ left, attempt n faults = .ok left) ↔ ∀ i < n, ¬ FailsAt faults i := by
  induction n generalizing faults with
  | zero => exact iff_of_true ⟨faults, rfl⟩ fun i low => absurd low (Nat.not_lt_zero i)
  | succ n ih =>
    have later (i : Nat) : FailsAt faults.tail i ↔ FailsAt faults (i + 1) := by
      rw [← List.drop_one, failsAt_drop, Nat.add_comm]
    by_cases head : faults.headD none = none
    · rw [attempt_head_ok head, ih]
      constructor
      · intro none i low
        rcases i with _ | i
        · exact fun fails => failsAt_zero_iff.mp fails head
        · rw [← later]
          exact none i (Nat.lt_of_succ_lt_succ low)
      · intro none i low
        rw [later]
        exact none (i + 1) (Nat.succ_lt_succ low)
    · rw [attempt_head_error head]
      refine iff_of_false ?_ fun none => none 0 (Nat.succ_pos n) (failsAt_zero_iff.mpr head)
      rintro ⟨left, failed⟩
      cases failed

theorem readAnswer_ok_iff (w : World) (addr size : Nat) :
    (readAnswer w addr size).1 = 0 ↔ w.faults.headD none = none := by
  unfold readAnswer
  rcases w.faults.headD none with _ | f
  · exact iff_of_true rfl rfl
  · exact iff_of_false f.code_ne (Option.some_ne_none f)

theorem changeAnswer_ok_iff (w : World) (addr size : Nat) (done : Mem) :
    (changeAnswer w addr size done).1 = 0 ↔ w.faults.headD none = none := by
  unfold changeAnswer
  rcases w.faults.headD none with _ | f
  · exact iff_of_true rfl rfl
  · exact iff_of_false f.code_ne (Option.some_ne_none f)

/-- The pieces of an image of `size` bytes. -/
def chunks (size : Nat) : Nat := (size + 1023) / 1024

/-- The calls of a copy of `size` bytes: a read and a write for each piece that `Download` has. -/
def copyCalls (size : UInt32) : Nat := 2 * min (chunks size.toNat) 1024

/-- Where a copy stands after some calls. -/
def Counted (w : World) (n : Nat) (w' : World) : Prop :=
  attempt n w.faults = .ok w'.faults ∧ w'.power = none

theorem copyChunk_counts {t : Region} (same : t.size = download.size) {w : World}
    (on : w.power = none) {offset len : UInt32} (low : offset.toNat ≤ download.size.toNat)
    (short : len.toNat ≤ 1024) :
    wp (copyChunk t.name offset len ())
      (Ends (fun _ w' => Fits download offset len ∧ Counted w 2 w')
        (fun _ w' => Fits download offset len ∧ attempt 2 w.faults = .error w'.faults ∨
          ¬ Fits download offset len ∧ w'.faults = w.faults)) (fun _ => False) w := by
  rw [copyChunk, downPart_eq, wp_bind]
  have read := pieceRead_run (r := download) low short w
  by_cases fits : Fits download offset len
  · rw [if_pos fits] at read
    rw [wp_of_some read]
    have answered := readAnswer_ok_iff w (download.start.toNat + offset.toNat) len.toNat
    by_cases ok : (readAnswer w (download.start.toNat + offset.toNat) len.toNat).1 = 0
    · rw [if_neg fun failed => failed ok, wp_bind]
      have there : Fits t offset len := by rw [Fits, same]; exact fits
      have write := partitionWrite_fits t there (length_readAnswer ok)
        { w with faults := w.faults.tail }
      rw [if_neg (by simp [on])] at write
      rw [wp_of_some write, attempt_head_ok (answered.mp ok)]
      dsimp only
      have stored := changeAnswer_ok_iff { w with faults := w.faults.tail }
        (t.start.toNat + offset.toNat) len.toNat (program w.flash (t.start.toNat + offset.toNat)
          (readAnswer w (download.start.toNat + offset.toNat) len.toNat).2)
      split
      · rename_i failed
        exact .inl ⟨fits, attempt_head_error (fun head => failed (stored.mpr head)) 0⟩
      · rename_i done
        refine ⟨fits, ?_, ?_⟩
        · rw [attempt_head_ok (answered.mp ok), attempt_head_ok (stored.mp (not_not.mp done))]
          rfl
        · rw [after_power, on]
          rfl
    · rw [if_pos ok, wp_pure]
      exact .inl ⟨fits, attempt_head_error (fun head => ok (answered.mpr head)) 1⟩
  · rw [if_neg fits] at read
    rw [wp_of_some read, if_pos (by simp [partitionErrSize]), wp_pure]
    exact .inr ⟨fits, rfl⟩

theorem copyLoop_counts {t : Region} (same : t.size = download.size) (size : UInt32) {w : World}
    (on : w.power = none) :
    wp (copyLoop t.name size)
      (Ends (fun _ w' => Fits download 0 size ∧ Counted w (copyCalls size) w')
        (fun _ w' => attempt (copyCalls size) w.faults = .error w'.faults ∨
          ¬ Fits download 0 size ∧ attempt (copyCalls size) w.faults = .ok w'.faults))
      (fun _ => False) w := by
  have total : download.size.toNat = 1048576 := rfl
  have loop := @wp_cacheLoop _ (copyChunk t.name)
    (fun n _ w' => n ≤ download.size.toNat ∧ (n = size.toNat ∨ 1024 ∣ n) ∧
      Counted w (2 * chunks n) w')
    (fun _ w' => attempt (copyCalls size) w.faults = .error w'.faults ∨
      ¬ Fits download 0 size ∧ attempt (copyCalls size) w.faults = .ok w'.faults)
    (fun _ => False) size.toNat (fun n _ w' h => by omega)
    (fun offset len _ w' ⟨low, whole, done, on'⟩ more short within last => by
      have aligned : 1024 ∣ offset.toNat := by omega
      refine wp_mono (copyChunk_counts same on' low short) (fun result w'' ended => ?_) fun _ h => h
      rcases result with err | _
      · rcases ended with ⟨fits, failed⟩ | ⟨unfit, kept⟩
        · left
          unfold Fits at fits
          obtain ⟨rest, calls⟩ : ∃ rest, copyCalls size = 2 * chunks offset.toNat + (2 + rest) := by
            refine ⟨copyCalls size - 2 * chunks offset.toNat - 2, ?_⟩
            unfold copyCalls chunks
            omega
          rw [calls, attempt_add_ok done, attempt_add_error failed]
        · right
          unfold Fits at unfit ⊢
          have calls : copyCalls size = 2 * chunks offset.toNat := by
            unfold copyCalls chunks
            omega
          rw [kept, calls, UInt32.toNat_zero]
          exact ⟨by omega, done⟩
      · obtain ⟨fits, next, on''⟩ := ended
        unfold Fits at fits
        have calls : 2 * chunks (offset.toNat + len.toNat) = 2 * chunks offset.toNat + 2 := by
          unfold chunks
          omega
        refine ⟨fits, by omega, ?_, on''⟩
        rw [calls, attempt_add_ok done, next])
    (size.toNat + 1) size 0 () w ⟨by rw [UInt32.toNat_zero]; omega, .inr (by simp), rfl, on⟩
    (by rw [UInt32.toNat_zero, Nat.zero_add]) (Nat.lt_succ_self _)
  refine wp_mono loop (fun result w' ended => ?_) fun _ h => h
  rcases result with err | _
  · exact ended
  · obtain ⟨fits, -, counted⟩ := ended
    have calls : copyCalls size = 2 * chunks size.toNat := by
      unfold copyCalls chunks
      omega
    rw [← calls] at counted
    refine ⟨?_, counted⟩
    rw [Fits, UInt32.toNat_zero, Nat.zero_add]
    exact fits

/-- Of the next two calls neither is to fail. -/
def Stores (faults : Faults) : Prop := ¬ FailsAt faults 0 ∧ ¬ FailsAt faults 1

instance (faults : Faults) : Decidable (Stores faults) := inferInstanceAs (Decidable (_ ∧ _))

theorem stores_iff : Stores faults ↔ faults.headD none = none ∧ faults.tail.headD none = none := by
  rcases faults with _ | ⟨first, _ | ⟨second, rest⟩⟩ <;> simp [Stores, FailsAt]

/-- The calls that store a record. -/
def storeCalls : List DevCall := [eraseCall, ⟨.write, param.start, recordSize⟩]

theorem rewriteParam_stores (p : OtaParamers) {w : World} (on : w.power = none) :
    ∃ w', rewriteParam p w = (some (if Stores w.faults then otaOk else otaErrPartition), w') ∧
      (Stores w.faults → w'.flash = storeParam w.flash p ∧ w'.trace = w.trace ++ storeCalls) := by
  have erasing := partitionErase_fits param (fits_record param) (by decide) w
  rw [if_neg (by simp [on])] at erasing
  have erased := changeAnswer_ok_iff w (param.start.toNat + (0 : UInt32).toNat) recordSize.toNat
    (erase w.flash (param.start.toNat + (0 : UInt32).toNat) recordSize.toNat)
  rw [rewriteParam, paraPart_eq, bind_of_some erasing]
  by_cases first : w.faults.headD none = none
  · have ok := erased.mpr first
    rw [if_neg fun failed => failed ok, changeAnswer_ok ok]
    generalize hw : after w _ _ = w₁
    have power : w₁.power = none := by rw [← hw, after_power, on]; rfl
    have faults : w₁.faults = w.faults.tail := by rw [← hw, after_faults]
    have flash : w₁.flash = eraseParam w.flash := by rw [← hw]; rfl
    have trace : w₁.trace = w.trace ++ [eraseCall] := by rw [← hw]; rfl
    have writing := partitionWrite_fits param (fits_record param) p.length_encode w₁
    rw [if_neg (by simp [power])] at writing
    have written := changeAnswer_ok_iff w₁ (param.start.toNat + (0 : UInt32).toNat)
      recordSize.toNat (program w₁.flash (param.start.toNat + (0 : UInt32).toNat) p.encode)
    rw [faults] at written
    rw [bind_of_some writing]
    by_cases second : w.faults.tail.headD none = none
    · have ok := written.mpr second
      rw [if_neg fun failed => failed ok, changeAnswer_ok ok,
        if_pos (stores_iff.mpr ⟨first, second⟩)]
      refine ⟨_, rfl, fun _ => ⟨?_, ?_⟩⟩
      · rw [after_flash, flash]
        rfl
      · rw [after_trace, trace, List.append_assoc]
        rfl
    · have fails : ¬ Stores w.faults := fun both => second (stores_iff.mp both).2
      rw [if_pos fun ok => second (written.mp ok), if_neg fails]
      exact ⟨_, rfl, fun both => absurd both fails⟩
  · have fails : ¬ Stores w.faults := fun both => first (stores_iff.mp both).1
    rw [if_pos fun ok => first (erased.mp ok), if_neg fails]
    exact ⟨_, rfl, fun both => absurd both fails⟩

/-- How an update goes: no upgrade is ready, a check or a call before its exit fails, or the copy
runs through; and the faults that are left at its exit. -/
inductive Fate
  | idle
  | trips (left : Faults)
  | completes (left : Faults)

/-- The fate of the installation, once the record allows it. -/
def foreseeInstall (m : Mem) (faults : Faults) : Fate :=
  match attempt 1 faults with
  | .error left => .trips left
  | .ok left =>
    if (paramOf m).downloadCrc ≠ (headerOf download m).crc32 then .trips left
    else match attempt (1 + copyCalls (imageSize m)) left with
      | .error left => .trips left
      | .ok left => if Fits download 0 (imageSize m) then .completes left else .trips left

/-- The fate of an update on a flash, with its first device call at the head of the faults. -/
def foresee (m : Mem) (faults : Faults) : Fate :=
  match attempt 1 faults with
  | .error left => .trips left
  | .ok left =>
    if (paramOf m).magic ≠ otaParaMagic then .trips left
    else if (paramOf m).upgradeReady = 0 then .idle
    else foreseeInstall m left

/-- With which record an update reaches its exit, by its fate. -/
inductive Reached (w : World) : Fate → OtaParamers → World → Prop
  | trips {w₁ : World} {p : OtaParamers} (on : w₁.power = none)
      (touched : Touches [otherApp (paramOf w.flash)] w w₁)
      (read : FailsAt w.faults 0 ∨ p = paramOf w.flash) : Reached w (.trips w₁.faults) p w₁
  | completes {w₁ : World} (on : w₁.power = none) (flash : w₁.flash = installed w.flash) :
      Reached w (.completes w₁.faults) (paramOf w.flash).switched w₁

/-- What an update leaves, by its fate. -/
inductive Fated (w : World) : Fate → Option Int → World → Prop
  | idle {w' : World} (flash : w'.flash = w.flash) : Fated w .idle (some otaErrUpdate) w'
  | exit {fate : Fate} {p : OtaParamers} {w₁ : World} (reached : Reached w fate p w₁) :
      Fated w fate (rewriteParam (closed p) w₁).1 (rewriteParam (closed p) w₁).2

private theorem Reached.tripped {w w₁ : World} {p : OtaParamers} {left : Faults}
    (on : w₁.power = none) (touched : Touches [otherApp (paramOf w.flash)] w w₁)
    (read : FailsAt w.faults 0 ∨ p = paramOf w.flash) (same : w₁.faults = left) :
    Reached w (.trips left) p w₁ := same ▸ .trips on touched read

theorem copyImage_fated {w w₁ : World} (on : w₁.power = none)
    (touched : Touches [otherApp (paramOf w.flash)] w w₁)
    (flash : w₁.flash = erase w.flash (otherApp (paramOf w.flash)).start.toNat
      (otherApp (paramOf w.flash)).size.toNat) :
    ∃ exit w₂, copyImage (paramOf w.flash) (headerOf download w.flash).size w₁ = (some exit, w₂) ∧
      Reached w (match attempt (copyCalls (imageSize w.flash)) w₁.faults with
        | .error left => .trips left
        | .ok left => if Fits download 0 (imageSize w.flash) then .completes left
          else .trips left) exit.2 w₂ := by
  have apart := other_download (paramOf w.flash)
  have size := other_size (paramOf w.flash)
  have copied := copyLoop_wp apart size (imageSize w.flash) w₁
  obtain ⟨result, w₂, run, counted⟩ := wp_returns (copyLoop_counts size (imageSize w.flash) on)
  rw [wp_of_some run] at copied
  rw [imageSize] at run
  rw [copyImage, otherPart_eq, bind_of_some run]
  rcases result with err | _
  · obtain ⟨touched', rfl, -⟩ := copied
    have all := touched.trans _ _ _ touched'
    refine ⟨_, _, rfl, ?_⟩
    rcases counted with failed | ⟨unfit, done⟩
    · rw [failed]
      exact .trips (touched'.supply on) all (.inr rfl)
    · rw [done]
      dsimp only
      rw [if_neg unfit]
      exact .trips (touched'.supply on) all (.inr rfl)
  · obtain ⟨fits, done, on'⟩ := counted
    obtain ⟨-, low, bytes⟩ := copied
    refine ⟨_, _, rfl, ?_⟩
    rw [done]
    dsimp only
    rw [if_pos fits]
    refine .completes on' ?_
    have same : slice w₁.flash download.start.toNat (imageSize w.flash).toNat =
        slice w.flash download.start.toNat (imageSize w.flash).toNat := by
      refine slice_congr (touched.flash.agree (t := download) apart.single (Nat.le_refl _) ?_)
      omega
    rw [bytes, same, flash]
    rfl

theorem installImage_fated {w w₁ : World} (on : w₁.power = none) (flash : w₁.flash = w.flash)
    (touched : Touches [otherApp (paramOf w.flash)] w w₁) :
    ∃ exit w₂, installImage (paramOf w.flash) w₁ = (some exit, w₂) ∧
      Reached w (foreseeInstall w.flash w₁.faults) exit.2 w₂ := by
  have answered := readAnswer_ok_iff w₁ download.start.toNat 32
  have behind : Touches [otherApp (paramOf w.flash)] w { w₁ with faults := w₁.faults.tail } :=
    touched.trans _ _ _ (touches_faults _ w₁ (List.tail_suffix _))
  rw [installImage, downPart_eq, bind_of_some (recordRead_run download w₁), foreseeInstall]
  generalize hw : ({ w₁ with faults := w₁.faults.tail } : World) = w₂ at behind ⊢
  have on₂ : w₂.power = none := by rw [← hw]; exact on
  have faults₂ : w₂.faults = w₁.faults.tail := by rw [← hw]
  have flash₂ : w₂.flash = w.flash := by rw [← hw]; exact flash
  by_cases first : w₁.faults.headD none = none
  · have ok := answered.mpr first
    rw [if_neg fun failed => failed ok, readAnswer_ok ok, load_headerOf, flash, otherPart_eq,
      attempt_head_ok first 0, attempt]
    dsimp only
    by_cases same : (paramOf w.flash).downloadCrc = (headerOf download w.flash).crc32
    · rw [if_neg fun bad => bad same, if_neg fun bad => bad same, Nat.add_comm 1]
      have erasing := partitionEraseAll_run (otherApp (paramOf w.flash)) w₂
      have touching := touches_eraseAll (otherApp (paramOf w.flash)) w₂
      have erased := changeAnswer_ok_iff w₂ (otherApp (paramOf w.flash)).start.toNat
        (otherApp (paramOf w.flash)).size.toNat (erase w₂.flash
          (otherApp (paramOf w.flash)).start.toNat (otherApp (paramOf w.flash)).size.toNat)
      rw [if_neg (by simp [on₂])] at erasing
      rw [erasing] at touching
      rw [faults₂] at erased
      rw [bind_of_some erasing]
      dsimp only at touching ⊢
      have whole := behind.trans _ _ _ touching
      by_cases second : w₁.faults.tail.headD none = none
      · have done := erased.mpr second
        rw [changeAnswer_ok done] at whole
        rw [if_neg fun failed => failed done, changeAnswer_ok done, attempt_head_ok second]
        generalize hw' : after w₂ _ _ = w₃ at whole ⊢
        have on₃ : w₃.power = none := by rw [← hw', after_power, on₂]; rfl
        have faults₃ : w₃.faults = w₁.faults.tail.tail := by rw [← hw', after_faults, faults₂]
        have flash₃ : w₃.flash = erase w.flash (otherApp (paramOf w.flash)).start.toNat
            (otherApp (paramOf w.flash)).size.toNat := by
          rw [← hw', after_flash, flash₂]
        rw [← faults₃]
        exact copyImage_fated on₃ whole flash₃
      · rw [if_pos fun ok => second (erased.mp ok), attempt_head_error second]
        refine ⟨_, _, rfl, .tripped ?_ whole (.inr rfl) ?_⟩
        · rw [after_power, on₂]
          rfl
        · rw [after_faults, faults₂]
    · rw [if_pos same, if_pos same]
      exact ⟨_, _, rfl, .tripped on₂ behind (.inr rfl) faults₂⟩
  · rw [if_pos fun ok => first (answered.mp ok), attempt_head_error first 0]
    exact ⟨_, _, rfl, .tripped on₂ behind (.inr rfl) faults₂⟩

theorem updateBody_fated {w : World} (on : w.power = none) :
    Fated w (foresee w.flash w.faults) (updateBody w).1 (updateBody w).2 := by
  have answered := readAnswer_ok_iff w param.start.toNat 32
  have behind : Touches [otherApp (paramOf w.flash)] w { w with faults := w.faults.tail } :=
    touches_faults _ w (List.tail_suffix _)
  rw [updateBody, paraPart_eq, bind_of_some (recordRead_run param w), foresee]
  by_cases first : w.faults.headD none = none
  · have ok := answered.mpr first
    rw [if_neg fun failed => failed ok, readAnswer_ok ok, load_paramOf, attempt_head_ok first 0,
      attempt]
    dsimp only
    by_cases magic : (paramOf w.flash).magic = otaParaMagic
    · have good : ¬ (paramOf w.flash).magic ≠ otaParaMagic := not_not_intro magic
      rw [if_neg good, if_neg good]
      by_cases ready : (paramOf w.flash).upgradeReady = 0
      · rw [if_pos ready, if_neg (not_not_intro ready)]
        exact .idle rfl
      · obtain ⟨exit, w₂, run, reached⟩ := @installImage_fated w
          { w with faults := w.faults.tail } on rfl behind
        rw [if_neg ready, if_pos ready, bind_of_some run]
        exact .exit reached
    · rw [if_pos magic, if_pos magic]
      exact .exit (.tripped on behind (.inr rfl) rfl)
  · have fails : FailsAt w.faults 0 := failsAt_zero_iff.mpr first
    rw [if_pos fun ok => first (answered.mp ok), attempt_head_error first 0]
    exact .exit (.tripped on behind (.inl fails) rfl)

/-- A check of the record, or a call for `Download` or the slot, fails: no upgrade is ready, or one
of the calls is to fail that lead to the end of the copy, or the image does not fit. -/
def Disturbed (m : Mem) (faults : Faults) : Prop :=
  FailsAt faults 0 ∨ (paramOf m).magic ≠ otaParaMagic ∨ (paramOf m).upgradeReady = 0 ∨
    FailsAt faults 1 ∨ (paramOf m).downloadCrc ≠ (headerOf download m).crc32 ∨
    ¬ Fits download 0 (imageSize m) ∨
    ∃ i < 1 + 2 * chunks (imageSize m).toNat, FailsAt faults (2 + i)

private theorem completes_iff_of_trips {m : Mem} {left : Faults} {fate : Fate}
    (trips : fate = .trips left) (disturbed : Disturbed m faults) :
    (∃ left, fate = .completes left) ↔ ¬ Disturbed m faults := by
  refine iff_of_false ?_ (not_not_intro disturbed)
  rintro ⟨left', completes⟩
  rw [trips] at completes
  cases completes

theorem completes_iff (m : Mem) (faults : Faults) :
    (∃ left, foresee m faults = .completes left) ↔ ¬ Disturbed m faults := by
  rw [foresee, attempt_one]
  by_cases lost : FailsAt faults 0
  · rw [if_pos lost]
    exact completes_iff_of_trips rfl (.inl lost)
  rw [if_neg lost]
  dsimp only
  by_cases magic : (paramOf m).magic ≠ otaParaMagic
  · rw [if_pos magic]
    exact completes_iff_of_trips rfl (.inr (.inl magic))
  rw [if_neg magic]
  by_cases ready : (paramOf m).upgradeReady = 0
  · rw [if_pos ready]
    refine iff_of_false ?_ (not_not_intro (.inr (.inr (.inl ready))))
    rintro ⟨left, completes⟩
    cases completes
  rw [if_neg ready, foreseeInstall, attempt_one]
  by_cases headless : FailsAt faults 1
  · rw [if_pos ((failsAt_drop faults 1 0).mpr headless)]
    exact completes_iff_of_trips rfl (.inr (.inr (.inr (.inl headless))))
  rw [if_neg fun fails => headless ((failsAt_drop faults 1 0).mp fails)]
  dsimp only
  by_cases crc : (paramOf m).downloadCrc ≠ (headerOf download m).crc32
  · rw [if_pos crc]
    exact completes_iff_of_trips rfl (.inr (.inr (.inr (.inr (.inl crc)))))
  rw [if_neg crc, List.drop_drop]
  by_cases fits : Fits download 0 (imageSize m)
  · have total : download.size.toNat = 1048576 := rfl
    have calls : copyCalls (imageSize m) = 2 * chunks (imageSize m).toNat := by
      rw [Fits, UInt32.toNat_zero] at fits
      unfold copyCalls chunks
      omega
    have clear : (∃ left, attempt (1 + copyCalls (imageSize m)) (faults.drop (1 + 1)) = .ok left) ↔
        ∀ i < 1 + 2 * chunks (imageSize m).toNat, ¬ FailsAt faults (2 + i) := by
      rw [attempt_ok_iff, calls]
      simp only [failsAt_drop]
    rcases tried : attempt (1 + copyCalls (imageSize m)) (faults.drop (1 + 1)) with left | left
    · rw [tried] at clear
      have fails : ∃ i < 1 + 2 * chunks (imageSize m).toNat, FailsAt faults (2 + i) := by
        by_contra none
        obtain ⟨left', done⟩ := clear.mpr fun i low fails => none ⟨i, low, fails⟩
        cases done
      exact completes_iff_of_trips rfl (.inr (.inr (.inr (.inr (.inr (.inr fails))))))
    · rw [tried] at clear
      dsimp only
      rw [if_pos fits]
      refine iff_of_true ⟨left, rfl⟩ ?_
      rintro (lost' | magic' | ready' | headless' | crc' | unfit | ⟨i, low, fails⟩)
      · exact lost lost'
      · exact magic magic'
      · exact ready ready'
      · exact headless headless'
      · exact crc crc'
      · exact unfit fits
      · exact clear.mp ⟨left, rfl⟩ i low fails
  · have disturbed : Disturbed m faults := .inr (.inr (.inr (.inr (.inr (.inl fits)))))
    rcases attempt (1 + copyCalls (imageSize m)) (faults.drop (1 + 1)) with left | left
    · exact completes_iff_of_trips rfl disturbed
    · dsimp only
      rw [if_neg fits]
      exact completes_iff_of_trips rfl disturbed

theorem attempt_healthy (n : Nat) : attempt n [] = .ok [] := by
  induction n with
  | zero => rfl
  | succ n ih => exact ih

theorem foresee_healthy (m : Mem) : foresee m [] =
    if (paramOf m).magic ≠ otaParaMagic then .trips []
    else if (paramOf m).upgradeReady = 0 then .idle
    else if (paramOf m).downloadCrc ≠ (headerOf download m).crc32 then .trips []
    else if Fits download 0 (imageSize m) then .completes [] else .trips [] := by
  simp only [foresee, foreseeInstall, attempt_healthy]

end T113Boot.Ota.Foresight
