/- Module: T113Boot/Lib/Flags
   layer: library
   digest: Flags of a status word: raised by OR, cleared by writing ones to them. -/

import Mathlib.Data.Nat.Bitwise

set_option autoImplicit false
set_option relaxedAutoImplicit false

namespace T113Boot.Lib.Flags

variable {w v m k : UInt32}

/-- One of the flags `m` is set in the word. -/
def Has (w m : UInt32) : Prop := w &&& m ≠ 0

instance (w m : UInt32) : Decidable (Has w m) := inferInstanceAs (Decidable (_ ≠ _))

theorem or_and (w v m : UInt32) : (w ||| v) &&& m = (w &&& m) ||| (v &&& m) := by
  apply UInt32.toBitVec_inj.mp
  ext i inside
  simp [Bool.and_or_distrib_right]

private theorem not_and_of_apart (apart : v &&& m = 0) : ~~~v &&& m = m := by
  apply UInt32.toBitVec_inj.mp
  ext i inside
  have bit := congrArg (fun x => x.toBitVec.getLsbD i) apart
  simp only [UInt32.toBitVec_and, BitVec.getLsbD_and, UInt32.toBitVec_zero, BitVec.getLsbD_zero]
    at bit
  simp only [UInt32.toBitVec_and, UInt32.toBitVec_not, BitVec.getElem_and, BitVec.getElem_not]
  rw [BitVec.getLsbD_eq_getElem inside, BitVec.getLsbD_eq_getElem inside] at bit
  cases set : m.toBitVec[i] with
  | false => exact Bool.and_false _
  | true =>
    rw [set, Bool.and_true] at bit
    rw [bit]
    rfl

private theorem not_and_of_within (within : m &&& v = m) : ~~~v &&& m = 0 := by
  rw [← within, UInt32.and_comm m v, ← UInt32.and_assoc]
  have none : ~~~v &&& v = 0 := by
    apply UInt32.toBitVec_inj.mp
    ext i inside
    simp
  rw [none, UInt32.zero_and]

theorem has_or : Has (w ||| v) m ↔ Has w m ∨ Has v m := by
  unfold Has
  rw [or_and, Ne, UInt32.or_eq_zero_iff]
  exact not_and_or

theorem Has.or_left (set : Has w m) : Has (w ||| v) m := has_or.mpr (.inl set)

theorem has_or_apart (apart : v &&& m = 0) : Has (w ||| v) m ↔ Has w m := by
  have none : ¬ Has v m := not_not_intro apart
  rw [has_or, or_iff_left none]

theorem has_clear_apart (apart : v &&& m = 0) : Has (w &&& ~~~v) m ↔ Has w m := by
  unfold Has
  rw [UInt32.and_assoc, not_and_of_apart apart]

theorem Has.of_clear (set : Has (w &&& ~~~v) m) : Has w m := by
  intro none
  apply set
  rw [UInt32.and_assoc, UInt32.and_comm (~~~v) m, ← UInt32.and_assoc, none, UInt32.zero_and]

theorem not_has_clear (within : m &&& v = m) : ¬ Has (w &&& ~~~v) m := by
  unfold Has
  rw [UInt32.and_assoc, not_and_of_within within, UInt32.and_zero]
  exact not_not_intro rfl

theorem Has.of_within (within : m &&& k = k) (set : Has w k) : Has w m := by
  intro none
  apply set
  rw [← within, ← UInt32.and_assoc, none, UInt32.zero_and]

theorem masked_and (within : m &&& k = k) : (w &&& m) &&& k = w &&& k := by
  rw [UInt32.and_assoc, within]

theorem has_masked (within : m &&& k = k) : Has (w &&& m) k ↔ Has w k := by
  unfold Has
  rw [masked_and within]

theorem has_congr (same : w &&& m = v &&& m) (within : m &&& k = k) : Has w k ↔ Has v k := by
  rw [← has_masked within, same, has_masked within]

theorem has_iff_testBit {i : Nat} (bit : m.toNat = 2 ^ i) :
    Has w m ↔ w.toNat.testBit i = true := by
  have value : (w &&& m).toNat = (w.toNat.testBit i).toNat * 2 ^ i := by
    rw [UInt32.toNat_and, bit, Nat.and_two_pow]
  unfold Has
  rw [Ne, ← UInt32.toNat_inj, value, UInt32.toNat_zero]
  cases w.toNat.testBit i with
  | false => exact iff_of_false (not_not_intro (Nat.zero_mul _)) Bool.false_ne_true
  | true =>
    refine iff_of_true ?_ rfl
    rw [Bool.toNat_true, Nat.one_mul]
    exact Nat.ne_of_gt (Nat.two_pow_pos i)

theorem and_ne_zero_of_has {i : Nat} (bit : m.toNat = 2 ^ i) (left : Has w m) (right : Has v m) :
    w &&& v ≠ 0 := by
  intro none
  have both : Has (w &&& v) m := by
    rw [has_iff_testBit bit, UInt32.toNat_and, Nat.testBit_and,
      (has_iff_testBit bit).mp left, (has_iff_testBit bit).mp right]
    rfl
  rw [none] at both
  exact both (UInt32.zero_and)

end T113Boot.Lib.Flags
