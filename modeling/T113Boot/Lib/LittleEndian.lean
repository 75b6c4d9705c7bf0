/- Module: T113Boot/Lib/LittleEndian
   layer: library
   digest: 32-bit words laid out in bytes, least significant byte first. -/

import Mathlib.Data.List.GetD

set_option autoImplicit false
set_option relaxedAutoImplicit false

namespace T113Boot.Lib.LittleEndian

/-- The four bytes of a word in memory order. -/
def le32 (w : UInt32) : List UInt8 :=
  [.ofNat w.toNat, .ofNat (w.toNat / 256), .ofNat (w.toNat / 65536), .ofNat (w.toNat / 16777216)]

/-- The word whose four bytes start at position `i`; bytes past the end count as zero. -/
def wordAt (bs : List UInt8) (i : Nat) : UInt32 :=
  .ofNat ((bs.getD i 0).toNat + 256 * (bs.getD (i + 1) 0).toNat +
    65536 * (bs.getD (i + 2) 0).toNat + 16777216 * (bs.getD (i + 3) 0).toNat)

@[simp] theorem length_le32 (w : UInt32) : (le32 w).length = 4 := rfl

theorem wordAt_le32 (w : UInt32) (bs : List UInt8) : wordAt (le32 w ++ bs) 0 = w := by
  apply UInt32.toNat_inj.mp
  have bound := w.toNat_lt
  simp only [le32, wordAt, List.cons_append, List.nil_append, List.getD_cons_zero,
    List.getD_cons_succ, UInt8.toNat_ofNat', UInt32.toNat_ofNat']
  omega

theorem wordAt_append (pre bs : List UInt8) (i : Nat) :
    wordAt (pre ++ bs) (pre.length + i) = wordAt bs i := by
  unfold wordAt
  have shift (k : Nat) : (pre ++ bs).getD (pre.length + k) 0 = bs.getD k 0 := by
    rw [List.getD_append_right _ _ _ _ (Nat.le_add_right _ _), Nat.add_sub_cancel_left]
  simp only [Nat.add_assoc, shift]

/-- The layout of a record is the concatenation of its words. -/
theorem wordAt_flatMap_le32 (ws : List UInt32) (rest : List UInt8) (k : Nat) (h : k < ws.length) :
    wordAt (ws.flatMap le32 ++ rest) (4 * k) = ws[k] := by
  induction ws generalizing k with
  | nil => simp at h
  | cons w ws ih =>
    cases k with
    | zero => simpa [List.append_assoc] using wordAt_le32 w (ws.flatMap le32 ++ rest)
    | succ k =>
      have tail := wordAt_append (le32 w) (ws.flatMap le32 ++ rest) (4 * k)
      rw [length_le32] at tail
      rw [List.flatMap_cons, List.append_assoc, show 4 * (k + 1) = 4 + 4 * k by omega, tail]
      exact ih k (by simpa using h)

theorem length_flatMap_le32 (ws : List UInt32) : (ws.flatMap le32).length = 4 * ws.length := by
  induction ws with
  | nil => rfl
  | cons w ws ih => simp only [List.flatMap_cons, List.length_append, length_le32, ih,
      List.length_cons]; omega

theorem wordAt_take (bs : List UInt8) (n i : Nat) (h : i + 4 ≤ n) :
    wordAt (bs.take n) i = wordAt bs i := by
  unfold wordAt
  have same (k : Nat) (hk : k < n) : (bs.take n).getD k 0 = bs.getD k 0 := by
    simp only [List.getD_eq_getElem?_getD, List.getElem?_take_of_lt hk]
  rw [same i (by omega), same (i + 1) (by omega), same (i + 2) (by omega), same (i + 3) (by omega)]

end T113Boot.Lib.LittleEndian
