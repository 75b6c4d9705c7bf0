/- Module: T113Boot/Lib/BitFields
   layer: library
   digest: Bit fields of a word, and words that are read, changed and written back. -/

import Mathlib.Algebra.Group.Nat.Defs
import Mathlib.Data.List.Basic

set_option autoImplicit false
set_option relaxedAutoImplicit false

namespace T113Boot.Lib.BitFields

variable {n : Nat}

/-- The field of `len` bits that begins at bit `i`. -/
def field (w : BitVec n) (i len : Nat) : BitVec len := w.extractLsb' i len

/-- Every bit of `x` is one of `y`. -/
def Within (x y : BitVec n) : Prop := x &&& ~~~y = 0

instance (x y : BitVec n) : Decidable (Within x y) := inferInstanceAs (Decidable (_ = _))

/-- A word read, its masked bits cleared, a value put in by OR. -/
def merge (old mask v : BitVec n) : BitVec n := (old &&& ~~~mask) ||| v

theorem within_iff_bits {x y : BitVec n} :
    Within x y ↔ ∀ k, x.getLsbD k = true → y.getLsbD k = true := by
  constructor
  · intro within k set
    have none := congrArg (fun w => w.getLsbD k) within
    have bound := BitVec.lt_of_getLsbD set
    simp only [BitVec.getLsbD_and, BitVec.getLsbD_not, set, bound, decide_true, Bool.true_and,
      BitVec.ofNat_eq_ofNat, BitVec.getLsbD_zero, Bool.not_eq_false'] at none
    exact none
  · intro bits
    apply BitVec.eq_of_getLsbD_eq
    intro k bound
    rcases set : x.getLsbD k with _ | _
    · simp [set]
    · simp [set, bits k set]

theorem or_eq_iff {x y : BitVec n} : x ||| y = y ↔ Within x y := by
  rw [within_iff_bits]
  constructor
  · intro same k set
    rw [← same, BitVec.getLsbD_or, set, Bool.true_or]
  · intro bits
    apply BitVec.eq_of_getLsbD_eq
    intro k _
    rw [BitVec.getLsbD_or]
    rcases set : x.getLsbD k with _ | _
    · exact Bool.false_or _
    · rw [bits k set, Bool.true_or]

theorem within_or {x y z : BitVec n} : Within (x ||| y) z ↔ Within x z ∧ Within y z := by
  simp only [within_iff_bits, BitVec.getLsbD_or, Bool.or_eq_true]
  constructor
  · exact fun all => ⟨fun k set => all k (.inl set), fun k set => all k (.inr set)⟩
  · rintro ⟨left, right⟩ k (set | set)
    · exact left k set
    · exact right k set

theorem within_self (x : BitVec n) : Within x x := within_iff_bits.mpr fun _ set => set

theorem within_antisymm {x y : BitVec n} (h : Within x y) (h' : Within y x) : x = y := by
  rw [← or_eq_iff.mpr h', BitVec.or_comm, or_eq_iff.mpr h]

theorem foldl_or_within {x y : BitVec n} {xs : List (BitVec n)} :
    Within (xs.foldl (· ||| ·) x) y ↔ Within x y ∧ ∀ z ∈ xs, Within z y := by
  induction xs generalizing x with
  | nil => simp
  | cons z xs ih => rw [List.foldl_cons, ih, within_or, List.forall_mem_cons, and_assoc]

theorem foldl_or_eq_iff {x y : BitVec n} {xs : List (BitVec n)} (among : y ∈ xs) :
    xs.foldl (· ||| ·) x = y ↔ Within x y ∧ ∀ z ∈ xs, Within z y := by
  rw [← foldl_or_within]
  constructor
  · intro same
    rw [same]
    exact within_self y
  · intro within
    exact within_antisymm within ((foldl_or_within.mp (within_self _)).2 y among)

theorem getLsbD_field (w : BitVec n) (i len k : Nat) :
    (field w i len).getLsbD k = (decide (k < len) && w.getLsbD (i + k)) :=
  BitVec.getLsbD_extractLsb' i len w k

theorem field_eq_split {x y : BitVec n} {i len len' : Nat} :
    field x i (len + len') = field y i (len + len') ↔
      field x i len = field y i len ∧ field x (i + len) len' = field y (i + len) len' := by
  have bits (a b : Nat) : field x a b = field y a b ↔
      ∀ k < b, x.getLsbD (a + k) = y.getLsbD (a + k) := by
    constructor
    · intro same k bound
      have bit := congrArg (fun w => w.getLsbD k) same
      simpa only [getLsbD_field, bound, decide_true, Bool.true_and] using bit
    · intro all
      apply BitVec.eq_of_getLsbD_eq
      intro k bound
      rw [getLsbD_field, getLsbD_field, all k bound]
  rw [bits, bits, bits]
  constructor
  · intro all
    refine ⟨fun k bound => all k (by omega), fun k bound => ?_⟩
    rw [Nat.add_assoc]
    exact all (len + k) (by omega)
  · rintro ⟨low, high⟩ k bound
    by_cases below : k < len
    · exact low k below
    · have upper := high (k - len) (by omega)
      rwa [show i + len + (k - len) = i + k by omega] at upper

theorem toNat_read (w : BitVec n) (i len : Nat) {mask : BitVec n}
    (ones : mask.toNat = 2 ^ len - 1) : ((w >>> i) &&& mask).toNat = (field w i len).toNat := by
  rw [BitVec.toNat_and, ones, Nat.and_two_pow_sub_one_eq_mod, BitVec.toNat_ushiftRight, field,
    BitVec.extractLsb'_toNat]

theorem field_or (x y : BitVec n) (i len : Nat) :
    field (x ||| y) i len = field x i len ||| field y i len := BitVec.extractLsb'_or

theorem field_and (x y : BitVec n) (i len : Nat) :
    field (x &&& y) i len = field x i len &&& field y i len := BitVec.extractLsb'_and

theorem field_not (x : BitVec n) {i len : Nat} (inside : i + len ≤ n) :
    field (~~~x) i len = ~~~field x i len := by
  apply BitVec.eq_of_getLsbD_eq
  intro k bound
  have within : i + k < n := by omega
  simp only [getLsbD_field, BitVec.getLsbD_not, bound, within, decide_true, Bool.true_and]

theorem field_merge (old mask v : BitVec n) {i len : Nat} (inside : i + len ≤ n) :
    field (merge old mask v) i len =
      (field old i len &&& ~~~field mask i len) ||| field v i len := by
  rw [merge, field_or, field_and, field_not mask inside]

theorem field_merge_eq_iff (old mask v : BitVec n) {i len : Nat} (inside : i + len ≤ n) :
    field (merge old mask v) i len = field v i len ↔
      Within (field old i len &&& ~~~field mask i len) (field v i len) := by
  rw [field_merge old mask v inside]
  exact or_eq_iff

/-- A field that the mask covers is replaced. -/
theorem field_merge_covered (old v : BitVec n) {mask : BitVec n} {i len : Nat}
    (inside : i + len ≤ n) (covers : field mask i len = BitVec.allOnes len) :
    field (merge old mask v) i len = field v i len := by
  rw [field_merge old mask v inside, covers, BitVec.not_allOnes, BitVec.and_zero, BitVec.zero_or]

theorem field_merge_kept (old : BitVec n) {mask v : BitVec n} {i len : Nat} (inside : i + len ≤ n)
    (clear : field mask i len = 0) (zero : field v i len = 0) :
    field (merge old mask v) i len = field old i len := by
  rw [field_merge old mask v inside, clear, zero]
  simp

theorem clear_or_self (x y : BitVec n) : (x &&& ~~~y) ||| y = x ||| y := by
  apply BitVec.eq_of_getLsbD_eq
  intro k bound
  rw [BitVec.getLsbD_or, BitVec.getLsbD_and, BitVec.getLsbD_not, BitVec.getLsbD_or]
  rcases y.getLsbD k with _ | _
  · simp [bound]
  · rw [Bool.or_true, Bool.or_true]

theorem getLsbD_merge_kept (old : BitVec n) {mask v : BitVec n} {k : Nat}
    (clear : mask.getLsbD k = false) (zero : v.getLsbD k = false) :
    (merge old mask v).getLsbD k = old.getLsbD k := by
  rw [merge, BitVec.getLsbD_or, BitVec.getLsbD_and, BitVec.getLsbD_not, clear, zero]
  rcases set : old.getLsbD k with _ | _
  · rfl
  · simp [BitVec.lt_of_getLsbD set]

theorem getLsbD_small {x : BitVec n} {len k : Nat} (small : x.toNat < 2 ^ len) (behind : len ≤ k) :
    x.getLsbD k = false :=
  Nat.testBit_lt_two_pow (Nat.lt_of_lt_of_le small (Nat.pow_le_pow_right (by decide) behind))

theorem field_small {x : BitVec n} {len i len' : Nat} (small : x.toNat < 2 ^ len)
    (behind : len ≤ i) : field x i len' = 0 := by
  apply BitVec.eq_of_getLsbD_eq
  intro k _
  rw [getLsbD_field, getLsbD_small small (Nat.le_add_right_of_le behind), Bool.and_false]
  exact BitVec.getLsbD_zero.symm

theorem toNat_field_small {x : BitVec n} {len : Nat} (small : x.toNat < 2 ^ len) :
    (field x 0 len).toNat = x.toNat := by
  rw [field, BitVec.extractLsb'_toNat, Nat.shiftRight_zero, Nat.mod_eq_of_lt small]

/-- What is shifted to a field is found there. -/
theorem field_shift (x : BitVec n) {i len : Nat} (inside : i + len ≤ n) :
    field (x <<< i) i len = field x 0 len := by
  apply BitVec.eq_of_getLsbD_eq
  intro k bound
  have within : i + k < n := by omega
  have above : ¬ i + k < i := by omega
  simp only [getLsbD_field, BitVec.getLsbD_shiftLeft, bound, within, above, decide_true,
    decide_false, Bool.not_false, Bool.true_and, Nat.add_sub_cancel_left, Nat.zero_add]

theorem field_shift_other {x : BitVec n} {i len j len' : Nat} (small : x.toNat < 2 ^ len)
    (apart : j + len' ≤ i ∨ i + len ≤ j) : field (x <<< i) j len' = 0 := by
  apply BitVec.eq_of_getLsbD_eq
  intro k bound
  rw [getLsbD_field, BitVec.getLsbD_shiftLeft, BitVec.ofNat_eq_ofNat, BitVec.getLsbD_zero]
  rcases apart with below | above
  · have under : j + k < i := by omega
    simp [under]
  · rw [getLsbD_small small (by omega : len ≤ j + k - i), Bool.and_false, Bool.and_false]

end T113Boot.Lib.BitFields
