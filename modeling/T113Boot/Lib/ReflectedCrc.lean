/- Module: T113Boot/Lib/ReflectedCrc
   layer: library
   digest: Reflected cyclic redundancy checks, bit by bit and by table, over any polynomial. -/

import Mathlib.Data.List.Basic

set_option autoImplicit false
set_option relaxedAutoImplicit false

namespace T113Boot.Lib.ReflectedCrc

variable {w : Nat}

/-- One bit of the register: shift down, and add the polynomial when a one falls out. -/
def bitStep (poly c : BitVec w) : BitVec w :=
  if c.getLsbD 0 then (c >>> 1) ^^^ poly else c >>> 1

/-- Several bits of the register. -/
def bitSteps (poly : BitVec w) : Nat → BitVec w → BitVec w
  | 0, c => c
  | n + 1, c => bitStep poly (bitSteps poly n c)

/-- One byte of the message, its least significant bit first. -/
def byteStep (poly c : BitVec w) (b : BitVec 8) : BitVec w := bitSteps poly 8 (c ^^^ b.setWidth w)

/-- The register after a whole message. -/
def register (poly : BitVec w) (c : BitVec w) (bs : List (BitVec 8)) : BitVec w :=
  bs.foldl (byteStep poly) c

private theorem xor_swap (a b p : BitVec w) : a ^^^ p ^^^ (b ^^^ p) = a ^^^ b := by
  rw [BitVec.xor_assoc a p, ← BitVec.xor_assoc p b, BitVec.xor_comm p b, BitVec.xor_assoc b,
    BitVec.xor_self, BitVec.xor_zero]

theorem bitStep_xor (poly a b : BitVec w) :
    bitStep poly (a ^^^ b) = bitStep poly a ^^^ bitStep poly b := by
  unfold bitStep
  rw [BitVec.getLsbD_xor, BitVec.ushiftRight_xor_distrib]
  cases a.getLsbD 0 <;> cases b.getLsbD 0
  · rfl
  · exact BitVec.xor_assoc _ _ _
  · show a >>> 1 ^^^ b >>> 1 ^^^ poly = a >>> 1 ^^^ poly ^^^ b >>> 1
    rw [BitVec.xor_assoc, BitVec.xor_comm (b >>> 1), ← BitVec.xor_assoc]
  · exact (xor_swap _ _ _).symm

theorem bitSteps_xor (poly a b : BitVec w) (n : Nat) :
    bitSteps poly n (a ^^^ b) = bitSteps poly n a ^^^ bitSteps poly n b := by
  induction n with
  | zero => rfl
  | succ n ih => simp only [bitSteps, ih, bitStep_xor]

theorem bitSteps_of_low_zero (poly c : BitVec w) (n : Nat)
    (low : ∀ i < n, c.getLsbD i = false) : bitSteps poly n c = c >>> n := by
  induction n with
  | zero => simp [bitSteps]
  | succ n ih =>
    have bit : (c >>> n).getLsbD 0 = false := by
      rw [BitVec.getLsbD_ushiftRight]
      exact low n (Nat.lt_succ_self n)
    rw [bitSteps, ih fun i hi => low i (by omega), bitStep, bit, BitVec.shiftRight_add]
    rfl

private theorem getLsbD_low_byte (i : Nat) : (255#w).getLsbD i = (decide (i < w) && decide (i < 8)) := by
  rw [BitVec.getLsbD_ofNat, show (255 : Nat) = 2 ^ 8 - 1 by rfl, Nat.testBit_two_pow_sub_one]

private theorem split_low_byte (c : BitVec w) : c = (c &&& 255#w) ^^^ (c &&& ~~~255#w) := by
  apply BitVec.eq_of_getLsbD_eq
  intro i _
  simp only [BitVec.getLsbD_xor, BitVec.getLsbD_and, BitVec.getLsbD_not]
  cases hc : c.getLsbD i <;> cases hm : (255#w).getLsbD i <;> simp_all

private theorem high_part_shift (c : BitVec w) : (c &&& ~~~255#w) >>> 8 = c >>> 8 := by
  apply BitVec.eq_of_getLsbD_eq
  intro i _
  simp only [BitVec.getLsbD_ushiftRight, BitVec.getLsbD_and, BitVec.getLsbD_not, getLsbD_low_byte]
  by_cases inside : 8 + i < w
  · simp [inside]
  · simp [BitVec.getLsbD_of_ge c (8 + i) (by omega)]

theorem bitSteps_eight (poly c : BitVec w) :
    bitSteps poly 8 c = (c >>> 8) ^^^ bitSteps poly 8 (c &&& 255#w) := by
  conv => lhs; rw [split_low_byte c]
  rw [bitSteps_xor, bitSteps_of_low_zero poly (c &&& ~~~255#w), high_part_shift, BitVec.xor_comm]
  intro i hi
  simp only [BitVec.getLsbD_and, BitVec.getLsbD_not, getLsbD_low_byte]
  cases h : decide (i < w) <;> simp [hi]

private theorem byte_shift_out (b : BitVec 8) : (b.setWidth w) >>> 8 = 0#w := by
  apply BitVec.eq_of_getLsbD_eq
  intro i _
  rw [BitVec.getLsbD_ushiftRight, BitVec.getLsbD_setWidth, BitVec.getLsbD_of_ge b (8 + i) (by omega),
    Bool.and_false, BitVec.getLsbD_zero]

theorem byteStep_eq_table (poly c : BitVec w) (b : BitVec 8) :
    byteStep poly c b = (c >>> 8) ^^^ bitSteps poly 8 ((c ^^^ b.setWidth w) &&& 255#w) := by
  unfold byteStep
  rw [bitSteps_eight, BitVec.ushiftRight_xor_distrib, byte_shift_out, BitVec.xor_zero]

end T113Boot.Lib.ReflectedCrc
