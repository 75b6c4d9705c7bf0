/- Module: T113Boot/Ota/Access
   layer: specification
   digest: What each partition call does to the board, with its faults and its supply. -/

import T113Boot.Ota.Firmware

set_option autoImplicit false
set_option relaxedAutoImplicit false

namespace T113Boot.Ota.Access

open T113Boot.Lib.Cells
open T113Boot.Lib.Stoppable
open Prog
open T113Boot.Nand.Chip
open T113Boot.Nand.Port
open T113Boot.Storage.Table
open T113Boot.Ota.Board
open T113Boot.Ota.Firmware

/-! The calls of a region reach the device. -/

theorem downPart_eq : downPart = download.name := rfl
theorem paraPart_eq : paraPart = param.name := rfl

private theorem registry_ops :
    (registry.devices ++ registry.freedDevices)[0]?.map (·.ops) = some partitionNandOps := rfl

theorem opsOf_entry (r : Region) : registry.opsOf r.entry = some partitionNandOps := by
  rw [Registry.opsOf, r.onNand, registry_ops]

theorem partitionRead_eq (r : Region) {buf : UInt32} (notNull : buf ≠ 0) (off len : UInt32) :
    partitionRead registry (some r.name) buf off len =
      if off + len > r.size then pure (partitionErrSize, [])
      else deviceRead (r.start + off) buf len := by
  simp only [partitionRead, notNull, if_false, r.found, opsOf_entry, r.start_eq, r.size_eq]
  rfl

theorem partitionWrite_eq (r : Region) {buf : UInt32} (notNull : buf ≠ 0) (bs : List UInt8)
    (off len : UInt32) :
    partitionWrite registry (some r.name) buf bs off len =
      if off + len > r.size then pure partitionErrSize
      else deviceWrite (r.start + off) buf bs len := by
  simp only [partitionWrite, notNull, if_false, r.found, opsOf_entry, r.start_eq, r.size_eq]
  rfl

theorem partitionErase_eq (r : Region) (off len : UInt32) :
    partitionErase registry (some r.name) off len =
      if off + len > r.size then pure partitionErrSize else deviceErase (r.start + off) len := by
  simp only [partitionErase, r.found, opsOf_entry, r.start_eq, r.size_eq]
  rfl

theorem partitionEraseAll_eq (r : Region) :
    partitionEraseAll registry (some r.name) = deviceErase r.start r.size := by
  simp only [partitionEraseAll, r.found, opsOf_entry, r.start_eq, r.size_eq]
  rfl

theorem objectPtr_ne : objectPtr ≠ 0 := by decide

theorem objectPtr_window {len : UInt32} (h : len.toNat ≤ totalSize) :
    objectPtr.toNat + len.toNat ≤ 4294967296 := by
  have ptr : objectPtr.toNat = 1074266112 := by decide
  have total := totalSize_eq
  omega

/-! What a device call answers, and the board it leaves. -/

/-- The board after a call that may change the flash. -/
def after (w : World) (call : DevCall) (flash : Mem) : World :=
  { w with
    flash := flash
    faults := w.faults.tail
    power := w.power.map (· - 1)
    trace := w.trace ++ [call] }

@[simp] theorem after_flash (w : World) (call : DevCall) (flash : Mem) :
    (after w call flash).flash = flash := rfl
@[simp] theorem after_faults (w : World) (call : DevCall) (flash : Mem) :
    (after w call flash).faults = w.faults.tail := rfl
@[simp] theorem after_power (w : World) (call : DevCall) (flash : Mem) :
    (after w call flash).power = w.power.map (· - 1) := rfl
@[simp] theorem after_trace (w : World) (call : DevCall) (flash : Mem) :
    (after w call flash).trace = w.trace ++ [call] := rfl

/-- The answer of a read of `size` bytes at `addr`. -/
def readAnswer (w : World) (addr size : Nat) : Answer :=
  match w.faults.headD none with
  | some f => (f.code, f.left.take size)
  | none => (0, slice w.flash addr size)

/-- The answer of a call on `size` bytes at `addr`, which makes `done` of the flash. -/
def changeAnswer (w : World) (addr size : Nat) (done : Mem) : Int × Mem :=
  match w.faults.headD none with
  | some f => (f.code, store w.flash addr (f.left.take size))
  | none => (0, done)

theorem draw_run (call : DevCall) {w : World} (on : w.power ≠ some 0) :
    draw call w = (some (), { w with
      power := w.power.map (· - 1)
      trace := w.trace ++ [call] }) := by
  rcases w with ⟨flash, ram, port, input, frame, faults, _ | _ | n, trace, calls⟩
  · rfl
  · exact absurd rfl on
  · rfl

theorem draw_stop (call : DevCall) {w : World} (off : w.power = some 0) :
    draw call w = (none, w) := by
  simp only [draw, off]

theorem deviceRead_inside (addr buf size : UInt32) (w : World)
    (inside : addr.toNat + size.toNat ≤ totalSize)
    (clear : Clear (addr.toNat % pageSize) buf.toNat size.toNat) :
    deviceRead addr buf size w =
      (some (readAnswer w addr.toNat size.toNat), { w with faults := w.faults.tail }) := by
  have read := partitionNandRead_inside w.flash addr buf size inside clear
  simp only [deviceRead, bind_apply, nextFault, readAnswer]
  rcases w.faults.headD none with _ | f
  · simp only [read]
  · rfl

theorem deviceWrite_inside (addr buf size : UInt32) (bs : List UInt8) (w : World)
    (full : bs.length = size.toNat) (inside : addr.toNat + size.toNat ≤ totalSize)
    (notNull : buf ≠ 0) (window : buf.toNat + size.toNat ≤ 4294967296) :
    deviceWrite addr buf bs size w =
      if w.power = some 0 then (none, w)
      else (some (changeAnswer w addr.toNat size.toNat (program w.flash addr.toNat bs)).1,
        after w ⟨.write, addr, size⟩
          (changeAnswer w addr.toNat size.toNat (program w.flash addr.toNat bs)).2) := by
  have write := partitionNandWrite_inside w.flash addr buf size bs full inside notNull window
  by_cases off : w.power = some 0
  · rw [if_pos off, deviceWrite, bind_of_none (draw_stop _ off)]
  · rw [if_neg off, deviceWrite, bind_of_some (draw_run _ off)]
    simp only [bind_apply, nextFault, changeAnswer]
    rcases w.faults.headD none with _ | f
    · simp only [write, after]
    · simp only [failWrite, after]

theorem deviceErase_inside (addr size : UInt32) (w : World) (nonempty : size ≠ 0)
    (inside : addr.toNat + size.toNat ≤ totalSize) :
    deviceErase addr size w =
      if w.power = some 0 then (none, w)
      else (some (changeAnswer w addr.toNat size.toNat (erase w.flash addr.toNat size.toNat)).1,
        after w ⟨.erase, addr, size⟩
          (changeAnswer w addr.toNat size.toNat (erase w.flash addr.toNat size.toNat)).2) := by
  have erased := partitionNandErase_inside w.flash addr size nonempty inside
  by_cases off : w.power = some 0
  · rw [if_pos off, deviceErase, bind_of_none (draw_stop _ off)]
  · rw [if_neg off, deviceErase, bind_of_some (draw_run _ off)]
    simp only [bind_apply, nextFault, changeAnswer]
    rcases w.faults.headD none with _ | f
    · simp only [erased, after]
    · simp only [failWrite, after]

/-- The range lies inside the region. -/
def Fits (r : Region) (off len : UInt32) : Prop := off.toNat + len.toNat ≤ r.size.toNat

instance (r : Region) (off len : UInt32) : Decidable (Fits r off len) := Nat.decLe _ _

theorem fits_record (r : Region) : Fits r 0 recordSize := by
  have room := r.room
  have size : recordSize.toNat = 32 := rfl
  rw [Fits, UInt32.toNat_zero, size]
  omega

private theorem accepted {r : Region} {off len : UInt32} (fits : Fits r off len) :
    ¬ off + len > r.size := by
  have inside := r.inside
  have total := totalSize_eq
  unfold Fits at fits
  rw [gt_iff_lt, UInt32.lt_iff_toNat_lt, UInt32.toNat_add]
  omega

theorem start_add {r : Region} {off len : UInt32} (fits : Fits r off len) :
    (r.start + off).toNat = r.start.toNat + off.toNat := by
  have inside := r.inside
  have total := totalSize_eq
  unfold Fits at fits
  rw [UInt32.toNat_add]
  omega

private theorem onDevice {r : Region} {off len : UInt32} (fits : Fits r off len) :
    (r.start + off).toNat + len.toNat ≤ totalSize := by
  have inside := r.inside
  rw [start_add fits]
  unfold Fits at fits
  omega

private theorem lengthOk {r : Region} {off len : UInt32} (fits : Fits r off len) :
    len.toNat ≤ totalSize := by
  have inside := onDevice fits
  omega

theorem partitionRead_clear (r : Region) {buf off len : UInt32} (fits : Fits r off len)
    (clear : Clear ((r.start.toNat + off.toNat) % pageSize) buf.toNat len.toNat) (w : World) :
    partitionRead registry (some r.name) buf off len w =
      (some (readAnswer w (r.start.toNat + off.toNat) len.toNat),
        { w with faults := w.faults.tail }) := by
  have notNull : buf ≠ 0 := fun null => clear.1 (by rw [null]; rfl)
  rw [← start_add fits] at clear
  rw [partitionRead_eq r notNull, if_neg (accepted fits),
    deviceRead_inside _ _ _ w (onDevice fits) clear, start_add fits]

theorem partitionRead_fits (r : Region) {buf off len : UInt32} (fits : Fits r off len)
    (notNull : buf ≠ 0) (window : buf.toNat + len.toNat ≤ 4294967296) (w : World) :
    partitionRead registry (some r.name) buf off len w =
      (some (readAnswer w (r.start.toNat + off.toNat) len.toNat),
        { w with faults := w.faults.tail }) :=
  partitionRead_clear r fits (clear_window notNull window) w

theorem partitionWrite_fits (r : Region) {off len : UInt32} {bs : List UInt8}
    (fits : Fits r off len) (full : bs.length = len.toNat) (w : World) :
    partitionWrite registry (some r.name) objectPtr bs off len w =
      if w.power = some 0 then (none, w)
      else
        let answer := changeAnswer w (r.start.toNat + off.toNat) len.toNat
          (program w.flash (r.start.toNat + off.toNat) bs)
        (some answer.1, after w ⟨.write, r.start + off, len⟩ answer.2) := by
  rw [partitionWrite_eq r objectPtr_ne, if_neg (accepted fits),
    deviceWrite_inside _ _ _ _ w full (onDevice fits) objectPtr_ne
      (objectPtr_window (lengthOk fits)), start_add fits]

theorem partitionErase_fits (r : Region) {off len : UInt32} (fits : Fits r off len)
    (nonempty : len ≠ 0) (w : World) :
    partitionErase registry (some r.name) off len w =
      if w.power = some 0 then (none, w)
      else
        let answer := changeAnswer w (r.start.toNat + off.toNat) len.toNat
          (erase w.flash (r.start.toNat + off.toNat) len.toNat)
        (some answer.1, after w ⟨.erase, r.start + off, len⟩ answer.2) := by
  rw [partitionErase_eq r, if_neg (accepted fits),
    deviceErase_inside _ _ w nonempty (onDevice fits), start_add fits]

theorem partitionEraseAll_run (r : Region) (w : World) :
    partitionEraseAll registry (some r.name) w =
      if w.power = some 0 then (none, w)
      else
        let answer := changeAnswer w r.start.toNat r.size.toNat
          (erase w.flash r.start.toNat r.size.toNat)
        (some answer.1, after w ⟨.erase, r.start, r.size⟩ answer.2) := by
  have nonempty : r.size ≠ 0 := by
    have room := r.room
    intro none
    rw [none, UInt32.toNat_zero] at room
    omega
  rw [partitionEraseAll_eq, deviceErase_inside _ _ w nonempty r.inside]

/-- Past the end of the region a call is refused, as long as its sum does not wrap. -/
theorem refused {r : Region} {off len : UInt32} (unfit : ¬ Fits r off len)
    (sum : off.toNat + len.toNat < 4294967296) : off + len > r.size := by
  unfold Fits at unfit
  rw [gt_iff_lt, UInt32.lt_iff_toNat_lt, UInt32.toNat_add]
  omega

/-- Any read leaves all but the faults as it was, and one that succeeds had a buffer and a
range inside the region. -/
theorem partitionRead_any (r : Region) (buf off len : UInt32) (w : World)
    (low : off.toNat ≤ r.size.toNat) : ∃ answer faults,
      partitionRead registry (some r.name) buf off len w =
        (some answer, { w with faults := faults }) ∧ faults <:+ w.faults ∧
      (answer.1 = 0 → buf ≠ 0 ∧ Fits r off len) := by
  by_cases null : buf = 0
  · refine ⟨(partitionErrParam, []), w.faults, ?_, List.suffix_refl _, fun ok => ?_⟩
    · rw [partitionRead, if_pos null]
      rfl
    · simp [partitionErrParam] at ok
  · rw [partitionRead_eq r null]
    by_cases large : off + len > r.size
    · refine ⟨(partitionErrSize, []), w.faults, ?_, List.suffix_refl _, fun ok => ?_⟩
      · rw [if_pos large]
        rfl
      · simp [partitionErrSize] at ok
    · rw [if_neg large, deviceRead, bind_apply, nextFault]
      dsimp only
      rcases w.faults.headD none with _ | f
      · refine ⟨_, _, rfl, List.tail_suffix _, fun ok => ⟨null, ?_⟩⟩
        by_contra unfit
        have wraps : 4294967296 ≤ off.toNat + len.toNat := by
          by_contra sum
          exact large (refused unfit (by omega))
        have inside := r.inside
        have total := totalSize_eq
        have page := pageSize_eq
        exact partitionNandRead_oversize _ _ _ _ (by omega) ok
      · exact ⟨_, _, rfl, List.tail_suffix _, fun ok => absurd ok f.code_ne⟩

theorem partitionRead_unclear (r : Region) {buf off len : UInt32} (fits : Fits r off len)
    (unclear : ¬ Clear ((r.start.toNat + off.toNat) % pageSize) buf.toNat len.toNat) {w w' : World}
    {answer : Answer} (healthy : w.faults = [])
    (run : partitionRead registry (some r.name) buf off len w = (some answer, w')) :
    answer.1 ≠ 0 := by
  by_cases null : buf = 0
  · rw [partitionRead, if_pos null] at run
    cases run
    simp [partitionErrParam]
  · rw [partitionRead_eq r null, if_neg (accepted fits), deviceRead, bind_apply, nextFault] at run
    dsimp only at run
    rw [healthy] at run
    cases run
    have more : len ≠ 0 := by
      rintro rfl
      exact unclear (clear_window null (Nat.le_of_lt buf.toNat_lt))
    rw [← start_add fits] at unclear
    have inside := onDevice fits
    exact partitionNandRead_null _ _ _ _
      (Nat.le_trans (Nat.add_le_add_right (Nat.mod_le _ _) _) inside) more unclear

/-- A record is read whole or not at all. -/
theorem recordRead_run (r : Region) (w : World) :
    partitionRead registry (some r.name) objectPtr 0 recordSize w =
      (some (readAnswer w r.start.toNat 32), { w with faults := w.faults.tail }) :=
  partitionRead_fits r (fits_record r) objectPtr_ne (by decide) w

theorem readAnswer_ok {w : World} {addr size : Nat} (ok : (readAnswer w addr size).1 = 0) :
    (readAnswer w addr size).2 = slice w.flash addr size := by
  unfold readAnswer at ok ⊢
  generalize w.faults.headD none = fault at ok ⊢
  rcases fault with _ | f
  · rfl
  · exact absurd ok f.code_ne

theorem length_readAnswer {w : World} {addr size : Nat} (ok : (readAnswer w addr size).1 = 0) :
    (readAnswer w addr size).2.length = size := by
  rw [readAnswer_ok ok, length_slice]

theorem changeAnswer_ok {w : World} {addr size : Nat} {done : Mem}
    (ok : (changeAnswer w addr size done).1 = 0) : (changeAnswer w addr size done).2 = done := by
  unfold changeAnswer at ok ⊢
  generalize w.faults.headD none = fault at ok ⊢
  rcases fault with _ | f
  · rfl
  · exact absurd ok f.code_ne

theorem readAnswer_healthy {w : World} (healthy : w.faults = []) (addr size : Nat) :
    readAnswer w addr size = (0, slice w.flash addr size) := by
  rw [readAnswer, healthy]
  rfl

theorem changeAnswer_healthy {w : World} (healthy : w.faults = []) (addr size : Nat) (done : Mem) :
    changeAnswer w addr size done = (0, done) := by
  rw [changeAnswer, healthy]
  rfl

end T113Boot.Ota.Access
