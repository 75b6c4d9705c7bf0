/- Module: T113Boot/Lib/ShiftCrc
   layer: library
   digest: Cyclic redundancy checks that shift upwards, and messages that differ in one byte. -/

import Mathlib.Data.List.Basic
import Mathlib.Logic.Function.Iterate

set_option autoImplicit false
set_option relaxedAutoImplicit false

namespace T113Boot.Lib.ShiftCrc

section Folds

variable {σ β : Type} {step : σ → β → σ}

theorem foldl_injective (keeps : ∀ b, Function.Injective fun s => step s b) (bs : List β) :
    Function.Injective fun s => bs.foldl step s := by
  induction bs with
  | nil => exact fun s s' same => same
  | cons b bs ih => exact fun s s' same => keeps b (ih same)

theorem foldl_set_ne (keeps : ∀ b, Function.Injective fun s => step s b)
    (tells : ∀ s, Function.Injective (step s)) (bs : List β) (i : Nat) (b : β) (s : σ)
    (wrong : ∀ b' ∈ bs[i]?, b ≠ b') (inside : i < bs.length) :
    (bs.set i b).foldl step s ≠ bs.foldl step s := by
  induction bs generalizing i s with
  | nil => exact absurd inside (Nat.not_lt_zero i)
  | cons c bs ih =>
    rcases i with _ | i
    · intro same
      exact wrong c rfl (tells s (foldl_injective keeps bs same))
    · exact ih i (step s c) wrong (Nat.lt_of_succ_lt_succ inside)

end Folds

variable {w : Nat}

/-- One bit of the register: shift up, and add the polynomial when a one falls out. -/
def bitStep (poly c : BitVec w) : BitVec w :=
  if c.msb then (c <<< 1) ^^^ poly else c <<< 1

private theorem shiftLeft_low (c : BitVec w) : (c <<< 1).getLsbD 0 = false := by
  rw [BitVec.getLsbD_shiftLeft]
  simp

theorem bitStep_low {poly : BitVec w} (odd : poly.getLsbD 0 = true) (c : BitVec w) :
    (bitStep poly c).getLsbD 0 = c.msb := by
  unfold bitStep
  cases c.msb
  · exact shiftLeft_low c
  · rw [if_pos rfl, BitVec.getLsbD_xor, shiftLeft_low, odd]
    rfl

private theorem shiftLeft_cancel {c d : BitVec w} (top : c.msb = d.msb)
    (same : c <<< 1 = d <<< 1) : c = d := by
  apply BitVec.eq_of_getLsbD_eq
  intro i inside
  by_cases last : i + 1 < w
  · have bit := congrArg (BitVec.getLsbD · (i + 1)) same
    rw [BitVec.getLsbD_eq_getElem inside, BitVec.getLsbD_eq_getElem inside]
    simpa [BitVec.getLsbD_shiftLeft, last] using bit
  · rw [BitVec.msb_eq_getLsbD_last, BitVec.msb_eq_getLsbD_last] at top
    rwa [show w - 1 = i by omega] at top

theorem bitStep_injective {poly : BitVec w} (odd : poly.getLsbD 0 = true) :
    Function.Injective (bitStep poly) := by
  intro c d same
  have top : c.msb = d.msb := by rw [← bitStep_low odd c, ← bitStep_low odd d, same]
  refine shiftLeft_cancel top ?_
  unfold bitStep at same
  rw [← top] at same
  cases high : c.msb <;> rw [high] at same
  · exact same
  · have cancelled := congrArg (· ^^^ poly) same
    simpa [BitVec.xor_assoc] using cancelled

end T113Boot.Lib.ShiftCrc
