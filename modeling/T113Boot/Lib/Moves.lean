/- Module: T113Boot/Lib/Moves
   layer: library
   digest: Copies inside one memory, byte by byte, between ranges that may overlap. -/

import T113Boot.Lib.Cells

set_option autoImplicit false
set_option relaxedAutoImplicit false

namespace T113Boot.Lib.Moves

open T113Boot.Lib.Cells

/-- Copy `n` bytes from the lowest address up. -/
def copyUp (m : Mem) (dst src : Nat) : Nat → Mem
  | 0 => m
  | n + 1 => copyUp (store m dst [m src]) (dst + 1) (src + 1) n

/-- Copy `n` bytes from the highest address down. -/
def copyDown (m : Mem) (dst src : Nat) : Nat → Mem
  | 0 => m
  | n + 1 => copyDown (store m (dst + n) [m (src + n)]) dst src n

theorem store_comm (m : Mem) {a b : Nat} {bs cs : List UInt8}
    (apart : a + bs.length ≤ b ∨ b + cs.length ≤ a) :
    store (store m a bs) b cs = store (store m b cs) a bs := by
  funext x
  by_cases first : a ≤ x ∧ x < a + bs.length
  · rw [store_outside (by omega), store_inside first.1 first.2, store_inside first.1 first.2]
  · rw [store_outside (m := store m b cs) (a := a) (by omega)]
    by_cases second : b ≤ x ∧ x < b + cs.length
    · rw [store_inside second.1 second.2, store_inside second.1 second.2]
    · rw [store_outside (by omega), store_outside (by omega), store_outside (by omega)]

/-- A slice that no store reaches. -/
theorem slice_store_apart (m : Mem) {a b n : Nat} {bs : List UInt8}
    (apart : b + n ≤ a ∨ a + bs.length ≤ b) : slice (store m a bs) b n = slice m b n :=
  slice_congr (agreeOn_store apart)

theorem slice_store_end (m : Mem) {a b n : Nat} (bs : List UInt8) (start : a ≤ b)
    (stop : a + n = b + bs.length) : slice (store m b bs) a n = slice m a (b - a) ++ bs := by
  rw [show n = (b - a) + bs.length by omega, slice_add, show a + (b - a) = b by omega, slice_store,
    slice_store_apart m (by omega)]

theorem copyUp_eq_apart (m : Mem) {dst src n : Nat} (apart : dst ≤ src ∨ src + n ≤ dst) :
    copyUp m dst src n = store m dst (slice m src n) := by
  induction n generalizing m dst src with
  | zero => simp [copyUp]
  | succ n ih =>
    have rest : slice (store m dst [m src]) (src + 1) n = slice m (src + 1) n :=
      slice_store_apart m (by simp only [List.length_singleton]; omega)
    have whole : slice m src (n + 1) = [m src] ++ slice m (src + 1) n := by
      rw [Nat.add_comm n 1, slice_add]
      rfl
    rw [copyUp, ih _ (by omega), rest, whole]
    exact store_append m dst [m src] _

theorem copyUp_eq (m : Mem) {dst src : Nat} (below : dst ≤ src) (n : Nat) :
    copyUp m dst src n = store m dst (slice m src n) :=
  copyUp_eq_apart m (Or.inl below)

theorem copyDown_eq (m : Mem) {dst src : Nat} (above : src ≤ dst) (n : Nat) :
    copyDown m dst src n = store m dst (slice m src n) := by
  induction n generalizing m with
  | zero => simp [copyDown]
  | succ n ih =>
    have rest : slice (store m (dst + n) [m (src + n)]) src n = slice m src n :=
      slice_store_apart m (by omega)
    have whole : slice m src (n + 1) = slice m src n ++ [m (src + n)] := by
      rw [slice_add]
      rfl
    have join := store_append m dst (slice m src n) [m (src + n)]
    rw [length_slice] at join
    rw [copyDown, ih, rest, store_comm m (.inr (by simp)), whole, ← join]

theorem slice_insert (m : Mem) {p n : Nat} (inside : p ≤ n) (b : UInt8) :
    slice (store m p (b :: slice m p (n - p))) 0 (n + 1) =
      (slice m 0 n).take p ++ b :: (slice m 0 n).drop p := by
  rw [slice_store_end m _ (Nat.zero_le p) (by rw [List.length_cons, length_slice]; omega),
    take_slice m 0 n p inside, drop_slice m 0 n p inside, Nat.zero_add, Nat.sub_zero]

theorem slice_delete (m : Mem) {p n : Nat} (positive : 0 < p) (inside : p ≤ n) :
    slice (store m (p - 1) (slice m p (n - p + 1))) 0 (n - 1) =
      (slice m 0 n).take (p - 1) ++ (slice m 0 n).drop p := by
  have whole := slice_store_end m (a := 0) (n := n) (slice m p (n - p + 1)) (Nat.zero_le (p - 1))
    (by rw [length_slice]; omega)
  rw [← take_slice _ 0 n (n - 1) (by omega), whole, take_slice m 0 n (p - 1) (by omega),
    drop_slice m 0 n p inside, Nat.zero_add, Nat.sub_zero, List.take_append, length_slice,
    List.take_of_length_le (by rw [length_slice]; omega), take_slice m p (n - p + 1) _ (by omega),
    show n - 1 - (p - 1) = n - p by omega]

end T113Boot.Lib.Moves
