/- Module: T113Boot/Lib/Cells
   layer: library
   digest: Byte cells that erase to all ones and program by conjunction. -/

import Mathlib.Data.List.GetD

set_option autoImplicit false
set_option relaxedAutoImplicit false

namespace T113Boot.Lib.Cells

/-- The bytes of a memory, by address. -/
abbrev Mem := Nat → UInt8

/-- The `n` bytes from address `a`. -/
def slice (m : Mem) (a n : Nat) : List UInt8 := (List.range n).map fun i => m (a + i)

/-- Plain stores, as into random access memory. -/
def store (m : Mem) (a : Nat) (bs : List UInt8) : Mem := fun x =>
  if a ≤ x ∧ x < a + bs.length then bs.getD (x - a) 0 else m x

/-- Bytes put into a range, each in its own way combined with the one that is there. -/
def overlay (f : UInt8 → UInt8 → UInt8) (m : Mem) (a : Nat) (bs : List UInt8) : Mem := fun x =>
  if a ≤ x ∧ x < a + bs.length then f (m x) (bs.getD (x - a) 0) else m x

/-- Erasing sets every bit of the range. -/
def erase (m : Mem) (a n : Nat) : Mem := fun x => if a ≤ x ∧ x < a + n then 0xFF else m x

/-- Programming can clear bits and never sets one. -/
def program (m : Mem) (a : Nat) (bs : List UInt8) : Mem := fun x =>
  if a ≤ x ∧ x < a + bs.length then m x &&& bs.getD (x - a) 0 else m x

/-- The two memories agree on the `n` bytes from `a`. -/
def AgreeOn (m m' : Mem) (a n : Nat) : Prop := ∀ x, a ≤ x → x < a + n → m x = m' x

@[simp] theorem length_slice (m : Mem) (a n : Nat) : (slice m a n).length = n := by
  simp [slice]

@[simp] theorem slice_zero (m : Mem) (a : Nat) : slice m a 0 = [] := rfl

theorem getElem_slice (m : Mem) (a n i : Nat) (h : i < (slice m a n).length) :
    (slice m a n)[i] = m (a + i) := by
  simp [slice]

theorem getD_slice (m : Mem) (a n i : Nat) (h : i < n) : (slice m a n).getD i 0 = m (a + i) := by
  rw [List.getD_eq_getElem _ _ (by simpa using h), getElem_slice]

theorem slice_congr {m m' : Mem} {a n : Nat} (h : AgreeOn m m' a n) :
    slice m a n = slice m' a n := by
  apply List.map_congr_left
  intro i hi
  exact h _ (by omega) (by have := List.mem_range.mp hi; omega)

theorem slice_add (m : Mem) (a n k : Nat) :
    slice m a (n + k) = slice m a n ++ slice m (a + n) k := by
  apply List.ext_getElem (by simp)
  intro i h _
  rw [getElem_slice, List.getElem_append]
  split
  · rw [getElem_slice]
  · rename_i past
    rw [getElem_slice]
    simp only [length_slice] at past ⊢
    congr 1
    omega

theorem take_slice (m : Mem) (a n k : Nat) (h : k ≤ n) :
    (slice m a n).take k = slice m a k := by
  obtain ⟨d, rfl⟩ := Nat.exists_eq_add_of_le h
  rw [slice_add, List.take_left' (by simp)]

theorem drop_slice (m : Mem) (a n k : Nat) (h : k ≤ n) :
    (slice m a n).drop k = slice m (a + k) (n - k) := by
  obtain ⟨d, rfl⟩ := Nat.exists_eq_add_of_le h
  rw [slice_add, List.drop_left' (by simp), Nat.add_sub_cancel_left]

theorem AgreeOn.refl (m : Mem) (a n : Nat) : AgreeOn m m a n := fun _ _ _ => rfl

theorem AgreeOn.trans {m m' m'' : Mem} {a n : Nat} (h : AgreeOn m m' a n)
    (h' : AgreeOn m' m'' a n) : AgreeOn m m'' a n :=
  fun x lo hi => (h x lo hi).trans (h' x lo hi)

theorem AgreeOn.mono {m m' : Mem} {a n b k : Nat} (h : AgreeOn m m' a n) (lo : a ≤ b)
    (hi : b + k ≤ a + n) : AgreeOn m m' b k :=
  fun x hx hx' => h x (by omega) (by omega)

section Overlay

variable {f : UInt8 → UInt8 → UInt8} {m : Mem} {a : Nat} {bs : List UInt8} {x : Nat}

theorem overlay_outside (h : x < a ∨ a + bs.length ≤ x) : overlay f m a bs x = m x :=
  if_neg (by omega)

theorem overlay_inside (lo : a ≤ x) (hi : x < a + bs.length) :
    overlay f m a bs x = f (m x) (bs.getD (x - a) 0) := if_pos ⟨lo, hi⟩

theorem overlay_nil : overlay f m a [] = m := by
  funext x
  exact overlay_outside (by rw [List.length_nil]; omega)

theorem overlay_append (bs cs : List UInt8) :
    overlay f (overlay f m a bs) (a + bs.length) cs = overlay f m a (bs ++ cs) := by
  funext x
  simp only [overlay, List.length_append]
  by_cases low : x < a + bs.length
  · rw [if_neg (by omega)]
    by_cases h : a ≤ x
    · rw [if_pos ⟨h, low⟩, if_pos ⟨h, by omega⟩, List.getD_append _ _ _ _ (by omega)]
    · rw [if_neg (by omega), if_neg (by omega)]
  · by_cases h : x < a + bs.length + cs.length
    · rw [if_pos (by omega), if_neg (by omega), if_pos (by omega),
        List.getD_append_right _ _ _ _ (by omega)]
      congr 2
      omega
    · rw [if_neg (by omega), if_neg (by omega), if_neg (by omega)]

end Overlay

theorem store_outside {m : Mem} {a : Nat} {bs : List UInt8} {x : Nat}
    (h : x < a ∨ a + bs.length ≤ x) : store m a bs x = m x :=
  overlay_outside (f := fun _ b => b) h

theorem store_inside {m : Mem} {a : Nat} {bs : List UInt8} {x : Nat} (lo : a ≤ x)
    (hi : x < a + bs.length) : store m a bs x = bs.getD (x - a) 0 :=
  overlay_inside (f := fun _ b => b) lo hi

theorem erase_outside {m : Mem} {a n x : Nat} (h : x < a ∨ a + n ≤ x) : erase m a n x = m x := by
  unfold erase
  rw [if_neg (by omega)]

theorem erase_inside {m : Mem} {a n x : Nat} (lo : a ≤ x) (hi : x < a + n) :
    erase m a n x = 0xFF := by
  unfold erase
  rw [if_pos ⟨lo, hi⟩]

theorem program_outside {m : Mem} {a : Nat} {bs : List UInt8} {x : Nat}
    (h : x < a ∨ a + bs.length ≤ x) : program m a bs x = m x :=
  overlay_outside (f := (· &&& ·)) h

theorem program_inside {m : Mem} {a : Nat} {bs : List UInt8} {x : Nat} (lo : a ≤ x)
    (hi : x < a + bs.length) : program m a bs x = m x &&& bs.getD (x - a) 0 :=
  overlay_inside (f := (· &&& ·)) lo hi

theorem agreeOn_store {m : Mem} {a : Nat} {bs : List UInt8} {b n : Nat}
    (h : b + n ≤ a ∨ a + bs.length ≤ b) : AgreeOn (store m a bs) m b n :=
  fun _ lo hi => store_outside (by omega)

@[simp] theorem store_nil (m : Mem) (a : Nat) : store m a [] = m :=
  overlay_nil (f := fun _ b => b)

@[simp] theorem erase_zero (m : Mem) (a : Nat) : erase m a 0 = m := by
  funext x
  exact erase_outside (by omega)

@[simp] theorem program_nil (m : Mem) (a : Nat) : program m a [] = m :=
  overlay_nil (f := (· &&& ·))

theorem erase_congr (m : Mem) {a a' n n' : Nat} (ha : a = a') (hn : n = n') :
    erase m a n = erase m a' n' := by
  rw [ha, hn]

/-! Adjacent pieces join. -/

theorem erase_add (m : Mem) (a n k : Nat) : erase (erase m a n) (a + n) k = erase m a (n + k) := by
  funext x
  simp only [erase]
  by_cases h : a ≤ x ∧ x < a + (n + k)
  · rw [if_pos h]
    by_cases high : a + n ≤ x
    · rw [if_pos (by omega)]
    · rw [if_neg (by omega), if_pos (by omega)]
  · rw [if_neg h, if_neg (by omega), if_neg (by omega)]

theorem store_append (m : Mem) (a : Nat) (bs cs : List UInt8) :
    store (store m a bs) (a + bs.length) cs = store m a (bs ++ cs) :=
  overlay_append (f := fun _ b => b) bs cs

theorem program_append (m : Mem) (a : Nat) (bs cs : List UInt8) :
    program (program m a bs) (a + bs.length) cs = program m a (bs ++ cs) :=
  overlay_append (f := (· &&& ·)) bs cs

theorem slice_store (m : Mem) (a : Nat) (bs : List UInt8) :
    slice (store m a bs) a bs.length = bs := by
  apply List.ext_getElem (by simp)
  intro i _ h
  rw [getElem_slice, store_inside (by omega) (by omega), Nat.add_sub_cancel_left,
    List.getD_eq_getElem _ _ h]

theorem ones_and (b : UInt8) : 0xFF &&& b = b := by
  apply UInt8.toBitVec_inj.mp
  exact BitVec.allOnes_and

/-- What is programmed onto erased cells is read back as it was. -/
theorem slice_program (m : Mem) (a : Nat) (bs : List UInt8)
    (erased : ∀ x, a ≤ x → x < a + bs.length → m x = 0xFF) :
    slice (program m a bs) a bs.length = bs := by
  apply List.ext_getElem (by simp)
  intro i _ h
  rw [getElem_slice, program_inside (by omega) (by omega), erased _ (by omega) (by omega),
    ones_and, Nat.add_sub_cancel_left, List.getD_eq_getElem _ _ h]

theorem slice_erase (m : Mem) (a n : Nat) : slice (erase m a n) a n = List.replicate n 0xFF := by
  apply List.ext_getElem (by simp)
  intro i h _
  simp only [length_slice] at h
  rw [getElem_slice, erase_inside (by omega) (by omega), List.getElem_replicate]

end T113Boot.Lib.Cells
