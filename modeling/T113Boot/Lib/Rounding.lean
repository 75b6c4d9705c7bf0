/- Module: T113Boot/Lib/Rounding
   layer: library
   digest: Words masked with a power of two less one, and words rounded with such masks. -/

import Mathlib.Data.Nat.Bitwise
import Mathlib.Logic.Basic

set_option autoImplicit false
set_option relaxedAutoImplicit false

namespace T113Boot.Lib.Rounding

variable {w k : Nat} {a : BitVec w}

theorem toNat_pred (power : a.toNat = 2 ^ k) : (a - 1).toNat = 2 ^ k - 1 := by
  have wide : 0 < w := by
    rcases w with _ | w
    · have small := a.isLt
      have positive := Nat.two_pow_pos k
      omega
    · exact Nat.succ_pos w
  have one : (1 : BitVec w).toNat = 1 := by
    change 1 % 2 ^ w = 1
    exact Nat.mod_eq_of_lt (Nat.one_lt_two_pow (Nat.ne_of_gt wide))
  have least : 1 ≤ a.toNat := by
    rw [power]
    exact Nat.two_pow_pos k
  rw [BitVec.toNat_sub_of_le (by rwa [BitVec.le_def, one]), one, power]

theorem getLsbD_pred (power : a.toNat = 2 ^ k) (i : Nat) :
    (a - 1).getLsbD i = decide (i < k) := by
  rw [BitVec.getLsbD, toNat_pred power, Nat.testBit_two_pow_sub_one]

theorem toNat_and_pred (power : a.toNat = 2 ^ k) (x : BitVec w) :
    (x &&& (a - 1)).toNat = x.toNat % 2 ^ k := by
  rw [BitVec.toNat_and, toNat_pred power, Nat.and_two_pow_sub_one_eq_mod]

/-- Its complement rounds down. -/
theorem toNat_and_not_pred (power : a.toNat = 2 ^ k) (x : BitVec w) :
    (x &&& ~~~(a - 1)).toNat = x.toNat / 2 ^ k * 2 ^ k := by
  have bits : x &&& ~~~(a - 1) = (x >>> k) <<< k := by
    apply BitVec.eq_of_getLsbD_eq
    intro i inside
    rw [BitVec.getLsbD_and, BitVec.getLsbD_not, getLsbD_pred power, BitVec.getLsbD_shiftLeft,
      BitVec.getLsbD_ushiftRight]
    by_cases low : i < k
    · simp [low]
    · simp [low, inside, Nat.add_sub_cancel' (Nat.not_lt.mp low)]
  have below : x.toNat / 2 ^ k * 2 ^ k < 2 ^ w :=
    Nat.lt_of_le_of_lt (Nat.div_mul_le_self _ _) x.isLt
  rw [bits, BitVec.toNat_shiftLeft, BitVec.toNat_ushiftRight, Nat.shiftRight_eq_div_pow,
    Nat.shiftLeft_eq, Nat.mod_eq_of_lt below]

theorem roundUp_eq {n d : Nat} (positive : 0 < d) (between : n % d ≠ 0) :
    (n + (d - 1)) / d * d = (n / d + 1) * d := by
  have split := Nat.div_add_mod n d
  have small := Nat.mod_lt n positive
  have more : n + (d - 1) = (n % d - 1) + d * (n / d + 1) := by
    rw [Nat.mul_add, Nat.mul_one]
    omega
  rw [more, Nat.add_mul_div_left _ _ positive, Nat.div_eq_of_lt (by omega), Nat.zero_add]

end T113Boot.Lib.Rounding
