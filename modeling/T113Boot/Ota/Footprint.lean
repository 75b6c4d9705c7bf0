/- Module: T113Boot/Ota/Footprint
   layer: specification
   digest: Which regions a program may change, call by call. -/

import T113Boot.Ota.Layout

set_option autoImplicit false
set_option relaxedAutoImplicit false

namespace T113Boot.Ota.Footprint

open T113Boot.Lib.Cells
open T113Boot.Lib.Stoppable
open Prog
open T113Boot.Nand.Chip
open T113Boot.Storage.Table
open T113Boot.Ota.Board
open T113Boot.Ota.Firmware
open T113Boot.Ota.Access
open T113Boot.Ota.Layout

/-- The call asks for bytes of the region only. -/
def Inside (c : DevCall) (r : Region) : Prop :=
  r.start.toNat ≤ c.addr.toNat ∧ c.addr.toNat + c.size.toNat ≤ r.start.toNat + r.size.toNat

/-- From `w` to `w'` only calls inside the regions were made, and only their bytes changed. -/
structure Touches (rs : List Region) (w w' : World) : Prop where
  made : ∃ made, w'.trace = w.trace ++ made ∧ ∀ c ∈ made, ∃ r ∈ rs, Inside c r
  flash : SameOutside rs w.flash w'.flash
  faults : w'.faults <:+ w.faults
  supply : w.power = none → w'.power = none
  ram : w'.ram = w.ram
  calls : w'.calls = w.calls

theorem Touches.refl (rs : List Region) (w : World) : Touches rs w w :=
  ⟨⟨[], (List.append_nil _).symm, fun _ h => by simp at h⟩, .refl _ _, List.suffix_refl _, id, rfl,
    rfl⟩

theorem Touches.trans {rs : List Region} (w w' w'' : World) (h : Touches rs w w')
    (h' : Touches rs w' w'') : Touches rs w w'' := by
  obtain ⟨made, trace, inside⟩ := h.made
  obtain ⟨more, trace', inside'⟩ := h'.made
  refine ⟨⟨made ++ more, by rw [trace', trace, List.append_assoc], fun c member => ?_⟩,
    h.flash.trans h'.flash, h'.faults.trans h.faults, fun on => h'.supply (h.supply on),
    h'.ram.trans h.ram, h'.calls.trans h.calls⟩
  rcases List.mem_append.mp member with member | member
  · exact inside c member
  · exact inside' c member

theorem Touches.mono {rs ts : List Region} {w w' : World} (h : Touches rs w w') (sub : rs ⊆ ts) :
    Touches ts w w' := by
  obtain ⟨made, trace, inside⟩ := h.made
  refine ⟨⟨made, trace, fun c member => ?_⟩, h.flash.mono sub, h.faults, h.supply, h.ram, h.calls⟩
  obtain ⟨r, listed, within⟩ := inside c member
  exact ⟨r, sub listed, within⟩

theorem Touches.healthy {rs : List Region} {w w' : World} (h : Touches rs w w')
    (healthy : w.faults = []) : w'.faults = [] := by
  have tail := h.faults
  rw [healthy] at tail
  exact List.suffix_nil.mp tail

/-- A change of `Download` leaves the record alone. -/
theorem Touches.param_eq {w w' : World} (h : Touches [download] w w') :
    paramOf w'.flash = paramOf w.flash := h.flash.param_eq download_param.single

theorem touches_faults (rs : List Region) (w : World) {faults : List (Option Fault)}
    (h : faults <:+ w.faults) : Touches rs w { w with faults := faults } :=
  ⟨⟨[], (List.append_nil _).symm, fun _ h => by simp at h⟩, .refl _ _, h, id, rfl, rfl⟩

/-- Only the faults moved on, as after reads. -/
def Moved (w w' : World) : Prop := ∃ faults, w' = { w with faults := faults } ∧ faults <:+ w.faults

theorem Moved.refl (w : World) : Moved w w := ⟨w.faults, rfl, List.suffix_refl _⟩

theorem Moved.trans {w w' w'' : World} (h : Moved w w') (h' : Moved w' w'') : Moved w w'' := by
  obtain ⟨faults, rfl, suffix⟩ := h
  obtain ⟨left, rfl, tail⟩ := h'
  exact ⟨left, rfl, tail.trans suffix⟩

theorem Moved.tail {w w' : World} (h : Moved w w') : Moved w { w' with faults := w'.faults.tail } := by
  obtain ⟨faults, rfl, suffix⟩ := h
  exact ⟨faults.tail, rfl, (List.tail_suffix _).trans suffix⟩

theorem Moved.touches {w w' : World} (h : Moved w w') (rs : List Region) : Touches rs w w' := by
  obtain ⟨faults, rfl, suffix⟩ := h
  exact touches_faults rs w suffix

theorem Moved.flash {w w' : World} (h : Moved w w') : w'.flash = w.flash := by
  obtain ⟨faults, rfl, -⟩ := h
  rfl

theorem Moved.faults {w w' : World} (h : Moved w w') : w'.faults <:+ w.faults := by
  obtain ⟨faults, rfl, suffix⟩ := h
  exact suffix

theorem touches_after {r : Region} {w : World} {call : DevCall} {flash : Mem} (inside : Inside call r)
    (outside : SameOutside [r] w.flash flash) : Touches [r] w (after w call flash) := by
  refine ⟨⟨[call], rfl, fun c member => ?_⟩, outside, List.tail_suffix _, fun on => ?_, rfl, rfl⟩
  · rw [List.mem_singleton.mp member]
    exact ⟨r, List.mem_singleton.mpr rfl, inside⟩
  · rw [after_power, on]
    rfl

theorem keeps_mono {rs ts : List Region} {α : Type} {x : Prog World α} (h : Keeps (Touches rs) x)
    (sub : rs ⊆ ts) : Keeps (Touches ts) x :=
  fun w => (h w).mono sub

theorem touches_pure {α : Type} (rs : List Region) (a : α) :
    Keeps (Touches rs) (pure a : Prog World α) := keeps_pure (Touches.refl rs) a

theorem touches_bind {α β : Type} {rs : List Region} {x : Prog World α} {f : α → Prog World β}
    (hx : Keeps (Touches rs) x) (hf : ∀ a, Keeps (Touches rs) (f a)) :
    Keeps (Touches rs) (x >>= f) := keeps_bind Touches.trans hx hf

theorem touches_read (rs : List Region) (r : Region) (buf : UInt32) {off : UInt32} (len : UInt32)
    (low : off.toNat ≤ r.size.toNat) :
    Keeps (Touches rs) (partitionRead registry (some r.name) buf off len) := by
  intro w
  obtain ⟨answer, faults, run, tail, -⟩ := partitionRead_any r buf off len w low
  rw [run]
  exact touches_faults rs w tail

theorem touches_record (rs : List Region) (r : Region) :
    Keeps (Touches rs) (partitionRead registry (some r.name) objectPtr 0 recordSize) :=
  touches_read rs r _ _ (by rw [UInt32.toNat_zero]; omega)

private theorem inside_call {r : Region} {off len : UInt32} (kind : DevKind) (fits : Fits r off len) :
    Inside ⟨kind, r.start + off, len⟩ r := by
  have start := start_add fits
  unfold Fits at fits
  exact ⟨by simp only [start]; omega, by simp only [start]; omega⟩

theorem touches_write (r : Region) {off len : UInt32} {bs : List UInt8} (full : bs.length = len.toNat)
    (sum : off.toNat + len.toNat < 4294967296) :
    Keeps (Touches [r]) (partitionWrite registry (some r.name) objectPtr bs off len) := by
  intro w
  by_cases fits : Fits r off len
  · rw [partitionWrite_fits r fits full w]
    split
    · exact .refl _ w
    · refine touches_after (inside_call _ fits) (sameOutside_change fits ?_)
      exact sameOutside_program _ _ (by rw [full]; exact fits)
  · rw [partitionWrite_eq r objectPtr_ne, if_pos (refused fits sum)]
    exact .refl _ w

theorem touches_erase (r : Region) {off len : UInt32} (nonempty : len ≠ 0) (fits : Fits r off len) :
    Keeps (Touches [r]) (partitionErase registry (some r.name) off len) := by
  intro w
  rw [partitionErase_fits r fits nonempty w]
  split
  · exact .refl _ w
  · exact touches_after (inside_call _ fits) (sameOutside_change fits (sameOutside_erase _ fits))

theorem touches_eraseAll (r : Region) :
    Keeps (Touches [r]) (partitionEraseAll registry (some r.name)) := by
  intro w
  rw [partitionEraseAll_run]
  split
  · exact .refl _ w
  · have whole : 0 + r.size.toNat ≤ r.size.toNat := by omega
    have change := sameOutside_change (w := w) whole (sameOutside_erase w.flash whole)
    rw [Nat.add_zero] at change
    exact touches_after ⟨Nat.le_refl _, Nat.le_refl _⟩ change

theorem touches_rewriteParam (p : OtaParamers) : Keeps (Touches [param]) (rewriteParam p) := by
  refine touches_bind (touches_erase param (by decide) (fits_record _)) fun ret => ?_
  refine keeps_ite (touches_pure _ _) (touches_bind ?_ fun ret => ?_)
  · exact touches_write param (by rw [p.length_encode]; rfl) (by decide)
  · exact keeps_ite (touches_pure _ _) (touches_pure _ _)

end T113Boot.Ota.Footprint
