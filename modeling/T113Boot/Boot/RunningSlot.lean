/- Module: T113Boot/Boot/RunningSlot
   layer: results
   digest: No operation erases or writes a byte of the slot that is running. -/

import T113Boot.Boot.Loader
import T113Boot.Ota.Reach

set_option autoImplicit false
set_option relaxedAutoImplicit false

namespace T113Boot.Boot.RunningSlot

open T113Boot.Lib.Cells
open T113Boot.Lib.Stoppable
open Prog
open T113Boot.Nand.Chip
open T113Boot.Storage.Table
open T113Boot.Ota.Board
open T113Boot.Ota.Firmware
open T113Boot.Ota.Access
open T113Boot.Ota.Layout
open T113Boot.Ota.Footprint
open T113Boot.Ota.Reach
open T113Boot.Boot.Loader

/-- Only calls inside the regions were made, and only bytes of the regions changed. -/
structure Confined (rs : List Region) (w w' : World) : Prop where
  made : ∃ made, w'.trace = w.trace ++ made ∧ ∀ c ∈ made, ∃ r ∈ rs, Inside c r
  flash : SameOutside rs w.flash w'.flash

theorem confined_of_touches {rs : List Region} {w w' : World} (h : Touches rs w w') :
    Confined rs w w' := ⟨h.made, h.flash⟩

theorem Confined.trans {rs : List Region} (w w' w'' : World) (h : Confined rs w w')
    (h' : Confined rs w' w'') : Confined rs w w'' := by
  obtain ⟨made, trace, inside⟩ := h.made
  obtain ⟨more, trace', inside'⟩ := h'.made
  refine ⟨⟨made ++ more, by rw [trace', trace, List.append_assoc], fun c member => ?_⟩,
    h.flash.trans h'.flash⟩
  rcases List.mem_append.mp member with member | member
  · exact inside c member
  · exact inside' c member

theorem Confined.of_same {rs : List Region} {w w' : World} (trace : w'.trace = w.trace)
    (flash : w'.flash = w.flash) : Confined rs w w' :=
  ⟨⟨[], by rw [trace, List.append_nil], fun _ h => by simp at h⟩, fun x _ => by rw [flash]⟩

theorem confined_recorded {rs : List Region} {w : World} (fn : OtaFn) {body : Prog World Int}
    (h : Touches rs w (body w).2) : Confined rs w (recorded fn body w).2 := by
  rw [recorded, bind_of_some (read_apply w)]
  rcases run : body w with ⟨_ | ret, w'⟩ <;> rw [run] at h
  · rw [bind_of_none run]
    exact confined_of_touches h
  · rw [bind_of_some run]
    exact (confined_of_touches h).trans _ _ _ (.of_same rfl rfl)

theorem activePart_name (para : OtaParamers) : (activePart para).1 = (activeApp para).name := by
  unfold activePart activeApp
  split <;> rfl

theorem activePart_crc (para : OtaParamers) : (activePart para).2 = activeCrc para := by
  unfold activePart activeCrc
  split <;> rfl

theorem keeps_bootLoop {R : World → World → Prop} (trans : ∀ w w' w'', R w w' → R w' w'' → R w w'')
    (moved : ∀ w ram faults, faults <:+ w.faults → R w { w with ram := ram, faults := faults })
    (backup : Keeps R otaBackupFirmware) (retry : Nat) (header : FirmwareHeader)
    (para : OtaParamers) : Keeps R (bootLoop retry header para) := by
  have refl (w : World) : R w w := moved w w.ram w.faults (List.suffix_refl _)
  have sequence {α β : Type} {x : Prog World α} {f : α → Prog World β} (hx : Keeps R x)
      (hf : ∀ a, Keeps R (f a)) : Keeps R (x >>= f) := keeps_bind trans hx hf
  have silent {α : Type} (a : α) : Keeps R (pure a : Prog World α) := keeps_pure refl a
  have record (r : Region) : Keeps R
      (partitionRead registry (some r.name) objectPtr 0 recordSize) := by
    intro w
    obtain ⟨answer, faults, run, tail, -⟩ := partitionRead_any r objectPtr 0 recordSize w
      (Nat.zero_le _)
    rw [run]
    exact moved w w.ram faults tail
  have fill (r : Region) (buf len : UInt32) : Keeps R (readIntoRam r.name buf recordSize len) := by
    intro w
    obtain ⟨answer, faults, run, tail, -⟩ := partitionRead_any r buf recordSize len w r.room
    rw [readIntoRam, bind_of_some run]
    exact moved w _ faults tail
  induction retry generalizing header para with
  | zero => exact silent _
  | succ retry ih =>
    have rollback : ∀ header para, Keeps R (rollback (bootLoop retry header para)) :=
      fun header para => sequence backup fun ret => keeps_ite (silent _) (ih header para)
    rw [bootLoop, paraPart_eq]
    refine sequence (record param) fun answer => keeps_ite (ih _ _) (keeps_ite (ih _ _) ?_)
    dsimp only
    rw [activePart_name]
    refine sequence (record _) fun answer => keeps_ite (ih _ _) (keeps_ite (rollback _ _) ?_)
    refine keeps_ite (rollback _ _) (sequence (fill _ _ _) fun ret => ?_)
    refine keeps_ite (ih _ _) (sequence (keeps_read refl) fun w => ?_)
    exact keeps_ite (rollback _ _) (silent _)

theorem confined_bootLoop (retry : Nat) (header : FirmwareHeader) (para : OtaParamers) :
    Keeps (Confined [param]) (bootLoop retry header para) :=
  keeps_bootLoop Confined.trans (fun _ _ _ _ => .of_same rfl rfl)
    (fun w => confined_recorded .backup (touches_backupBody w)) retry header para

/-- The bytes that a call erases or programs: an erase takes whole blocks, and puts back what it
was not asked for. -/
def Reaches (c : DevCall) (x : Nat) : Prop :=
  match c.kind with
  | .write => c.addr.toNat ≤ x ∧ x < c.addr.toNat + c.size.toNat
  | .erase => c.addr.toNat / blockSize * blockSize ≤ x ∧
      x < (c.addr.toNat + c.size.toNat + blockSize - 1) / blockSize * blockSize

/-- The region with its blocks in full. -/
def Blocks (r : Region) (x : Nat) : Prop := r.start.toNat / blockSize * blockSize ≤ x ∧
  x < (r.start.toNat + r.size.toNat + blockSize - 1) / blockSize * blockSize

theorem reaches_blocks {c : DevCall} {r : Region} {x : Nat} (inside : Inside c r)
    (reached : Reaches c x) : Blocks r x := by
  obtain ⟨lo, hi⟩ := inside
  have block := blockSize_eq
  have low : r.start.toNat / blockSize * blockSize ≤ c.addr.toNat / blockSize * blockSize :=
    Nat.mul_le_mul_right _ (Nat.div_le_div_right lo)
  have high : (c.addr.toNat + c.size.toNat + blockSize - 1) / blockSize * blockSize ≤
      (r.start.toNat + r.size.toNat + blockSize - 1) / blockSize * blockSize :=
    Nat.mul_le_mul_right _ (Nat.div_le_div_right (by omega))
  have floor := Nat.div_mul_le_self r.start.toNat blockSize
  have ceil : r.start.toNat + r.size.toNat ≤
      (r.start.toNat + r.size.toNat + blockSize - 1) / blockSize * blockSize := by
    have cut := Nat.div_add_mod' (r.start.toNat + r.size.toNat + blockSize - 1) blockSize
    have rest := Nat.mod_lt (r.start.toNat + r.size.toNat + blockSize - 1)
      (by decide : blockSize > 0)
    omega
  unfold Reaches at reached
  unfold Blocks
  split at reached
  · omega
  · omega

/-- No call reached a byte of the region, and its bytes are as they were. -/
def Spares (r : Region) (w w' : World) : Prop :=
  (∃ made, w'.trace = w.trace ++ made ∧ ∀ c ∈ made, ∀ x, Holds r x → ¬ Reaches c x) ∧
    ∀ x, Holds r x → w'.flash x = w.flash x

theorem Confined.spares {rs : List Region} {w w' : World} {t : Region} (h : Confined rs w w')
    (apart : ∀ r ∈ rs, ∀ x, Holds t x → ¬ Blocks r x) : Spares t w w' := by
  obtain ⟨made, trace, inside⟩ := h.made
  refine ⟨⟨made, trace, fun c member x held reached => ?_⟩, fun x held => ?_⟩
  · obtain ⟨r, listed, within⟩ := inside c member
    exact apart r listed x held (reaches_blocks within reached)
  · refine h.flash x fun r listed own => apart r listed x held ?_
    have reached : Reaches ⟨.write, r.start, r.size⟩ x := own
    exact reaches_blocks ⟨Nat.le_refl _, Nat.le_refl _⟩ reached

private theorem blocks_bounds :
    (download.start.toNat / blockSize * blockSize = 4194304 ∧
      (download.start.toNat + download.size.toNat + blockSize - 1) / blockSize * blockSize = 5242880) ∧
    (app1.start.toNat / blockSize * blockSize = 2097152 ∧
      (app1.start.toNat + app1.size.toNat + blockSize - 1) / blockSize * blockSize = 3145728) ∧
    (app2.start.toNat / blockSize * blockSize = 3145728 ∧
      (app2.start.toNat + app2.size.toNat + blockSize - 1) / blockSize * blockSize = 4194304) ∧
    (param.start.toNat / blockSize * blockSize = 5242880 ∧
      (param.start.toNat + param.size.toNat + blockSize - 1) / blockSize * blockSize = 5373952) := by
  decide

/-- The blocks of the running slot are not those of the other regions that are written. -/
theorem active_blocks (p : OtaParamers) {r : Region} (h : r ∈ [download, otherApp p, param]) (x : Nat)
    (held : Holds (activeApp p) x) : ¬ Blocks r x := by
  obtain ⟨dl, one, two, par⟩ := blocks_bounds
  have a := (by decide : app1.start.toNat = 2097152 ∧ app1.size.toNat = 1048576)
  have b := (by decide : app2.start.toNat = 3145728 ∧ app2.size.toNat = 1048576)
  unfold Holds activeApp at held
  unfold Blocks
  simp only [List.mem_cons, List.not_mem_nil, or_false] at h
  rcases h with rfl | rfl | rfl
  · split at held <;> omega
  · unfold otherApp
    split at held
    · rename_i slot1
      rw [if_pos slot1]
      omega
    · rename_i slot2
      rw [if_neg slot2]
      omega
  · split at held <;> omega

/-- From any board, with any faults, any supply and any input: no call of the four functions
reaches a byte of the slot that the loader selects for the record they started from, and each
function changes only the partitions that it is there to change. -/
theorem running_slot_spared (w : World) :
    ((activeApp (paramOf w.flash)).name = (activePart (paramOf w.flash)).1 ∧
      (otherApp (paramOf w.flash)).name ≠ (activePart (paramOf w.flash)).1) ∧
    (Spares (activeApp (paramOf w.flash)) w (otaDownloadFirmware w).2 ∧
      Confined [download, param] w (otaDownloadFirmware w).2) ∧
    (Spares (activeApp (paramOf w.flash)) w (otaUpdateFirmware w).2 ∧
      Confined [otherApp (paramOf w.flash), param] w (otaUpdateFirmware w).2) ∧
    (Spares (activeApp (paramOf w.flash)) w (otaBackupFirmware w).2 ∧
      Confined [param] w (otaBackupFirmware w).2) ∧
    (Spares (activeApp (paramOf w.flash)) w (bootFirmware w).2 ∧
      Confined [param] w (bootFirmware w).2) := by
  have spared {rs : List Region} {w' : World} (h : Confined rs w w')
      (sub : rs ⊆ [download, otherApp (paramOf w.flash), param]) :
      Spares (activeApp (paramOf w.flash)) w w' :=
    h.spares fun r listed => active_blocks _ (sub listed)
  have downloads := confined_of_touches (touches_download w)
  have updates := confined_recorded .update (touches_updateBody w)
  have backs := confined_recorded .backup (touches_backupBody w)
  have boots := confined_bootLoop bootMaxRetry .zero .zero w
  refine ⟨⟨(activePart_name _).symm, ?_⟩, ⟨spared downloads (by simp), downloads⟩,
    ⟨spared updates (by simp), updates⟩, ⟨spared backs (by simp), backs⟩,
    ⟨spared boots (by simp), boots⟩⟩
  rw [activePart_name, activeApp, otherApp]
  split
  · decide
  · decide

end T113Boot.Boot.RunningSlot
