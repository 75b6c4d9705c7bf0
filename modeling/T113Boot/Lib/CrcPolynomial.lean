/- Module: T113Boot/Lib/CrcPolynomial
   layer: library
   digest: Shift registers as remainders of polynomials over two elements, and short bursts. -/

import Mathlib.Algebra.CharP.Two
import Mathlib.Algebra.Field.ZMod
import Mathlib.Data.List.GetD
import Mathlib.RingTheory.AdjoinRoot
import T113Boot.Lib.ShiftCrc

set_option autoImplicit false
set_option relaxedAutoImplicit false

namespace T113Boot.Lib.CrcPolynomial

open Polynomial
open T113Boot.Lib.ShiftCrc

variable {w : Nat}

/-- A word as a polynomial over two elements: its bits are the coefficients. -/
noncomputable def ofWord (c : BitVec w) : (ZMod 2)[X] :=
  ∑ i ∈ Finset.range w, if c.getLsbD i then X ^ i else 0

theorem coeff_ofWord (c : BitVec w) (i : Nat) :
    (ofWord c).coeff i = if c.getLsbD i then 1 else 0 := by
  have each (j : Nat) : (if c.getLsbD j then (X : (ZMod 2)[X]) ^ j else 0).coeff i =
      if i = j then (if c.getLsbD j then 1 else 0) else 0 := by
    cases c.getLsbD j with
    | false => simp
    | true => simp [coeff_X_pow]
  rw [ofWord, finsetSum_coeff, Finset.sum_congr rfl fun j _ => each j, Finset.sum_ite_eq]
  by_cases inside : i < w
  · rw [if_pos (Finset.mem_range.mpr inside)]
  · rw [if_neg (by simpa using inside), BitVec.getLsbD_of_ge c i (Nat.not_lt.mp inside)]
    rfl

theorem ofWord_xor (c d : BitVec w) : ofWord (c ^^^ d) = ofWord c + ofWord d := by
  ext i
  rw [coeff_add, coeff_ofWord, coeff_ofWord, coeff_ofWord, BitVec.getLsbD_xor]
  cases c.getLsbD i <;> cases d.getLsbD i <;> decide

theorem ofWord_zero : ofWord (0 : BitVec w) = 0 := by
  ext i
  simp [coeff_ofWord]

theorem ofWord_injective : Function.Injective (ofWord : BitVec w → (ZMod 2)[X]) := by
  intro c d same
  apply BitVec.eq_of_getLsbD_eq
  intro i _
  have bit := congrArg (fun p => p.coeff i) same
  simp only [coeff_ofWord] at bit
  cases left : c.getLsbD i <;> cases right : d.getLsbD i <;> simp [left, right] at bit ⊢

theorem degree_ofWord_lt (c : BitVec w) : (ofWord c).degree < w := by
  rw [degree_lt_iff_coeff_zero]
  intro i outside
  rw [coeff_ofWord, BitVec.getLsbD_of_ge c i outside]
  rfl

theorem ofWord_append {v : Nat} (c : BitVec w) (d : BitVec v) :
    ofWord (c ++ d) = ofWord c * X ^ v + ofWord d := by
  ext i
  rw [coeff_add, coeff_mul_X_pow', coeff_ofWord, coeff_ofWord, coeff_ofWord, BitVec.getLsbD_append]
  by_cases low : i < v
  · rw [if_neg (Nat.not_le.mpr low), zero_add, if_pos low]
  · rw [if_pos (Nat.not_lt.mp low), BitVec.getLsbD_of_ge d i (Nat.not_lt.mp low), if_neg low]
    exact (add_zero _).symm

theorem X_mul_ofWord (positive : 0 < w) (c : BitVec w) :
    X * ofWord c = ofWord (c <<< 1) + if c.msb then X ^ w else 0 := by
  ext i
  have top : (if c.msb then (X : (ZMod 2)[X]) ^ w else 0).coeff i =
      if c.msb ∧ i = w then 1 else 0 := by
    cases c.msb with
    | false => simp
    | true => simp [coeff_X_pow]
  rw [coeff_add, top, coeff_ofWord, BitVec.getLsbD_shiftLeft]
  rcases i with _ | i
  · have inner : ¬ (c.msb = true ∧ 0 = w) := fun h => by omega
    rw [coeff_X_mul_zero, if_neg inner]
    simp
  · rw [coeff_X_mul, coeff_ofWord]
    by_cases last : i + 1 = w
    · subst last
      have high : c.msb = c.getLsbD i := by
        rw [BitVec.msb_eq_getLsbD_last, Nat.add_sub_cancel]
      rw [high]
      simp
    · have inner : ¬ (c.msb = true ∧ i + 1 = w) := fun h => last h.2
      rw [if_neg inner, add_zero]
      by_cases inside : i + 1 < w
      · simp [inside]
      · rw [BitVec.getLsbD_of_ge c i (by omega)]
        simp [inside]

/-- The polynomial of which a register keeps all but the highest coefficient. -/
noncomputable def generator (poly : BitVec w) : (ZMod 2)[X] := X ^ w + ofWord poly

theorem generator_monic (poly : BitVec w) : (generator poly).Monic :=
  monic_X_pow_add (degree_ofWord_lt poly)

theorem degree_generator (poly : BitVec w) : (generator poly).degree = w := by
  have lower : (ofWord poly).degree < (X ^ w : (ZMod 2)[X]).degree := by
    rw [degree_X_pow]
    exact degree_ofWord_lt poly
  rw [generator, degree_add_eq_left_of_degree_lt lower, degree_X_pow]

theorem X_mul_eq_bitStep (positive : 0 < w) (poly c : BitVec w) :
    X * ofWord c = ofWord (bitStep poly c) + if c.msb then generator poly else 0 := by
  rw [X_mul_ofWord positive]
  unfold bitStep generator
  cases c.msb with
  | false => rfl
  | true =>
    rw [if_pos rfl, if_pos rfl, if_pos rfl, ofWord_xor]
    have twice : ofWord poly + ofWord poly = 0 := CharTwo.add_self_eq_zero _
    calc ofWord (c <<< 1) + X ^ w
        = ofWord (c <<< 1) + X ^ w + (ofWord poly + ofWord poly) := by rw [twice, add_zero]
      _ = ofWord (c <<< 1) + ofWord poly + (X ^ w + ofWord poly) := by ring

/-- The class of a polynomial modulo the generator. -/
noncomputable abbrev residue (poly : BitVec w) : (ZMod 2)[X] →+* AdjoinRoot (generator poly) :=
  AdjoinRoot.mk (generator poly)

theorem residue_bitStep (positive : 0 < w) (poly c : BitVec w) :
    residue poly (ofWord (bitStep poly c)) = residue poly (X * ofWord c) := by
  rw [X_mul_eq_bitStep positive poly c, map_add]
  cases c.msb with
  | false => rw [if_neg Bool.false_ne_true, map_zero, add_zero]
  | true => rw [if_pos rfl, AdjoinRoot.mk_self, add_zero]

theorem residue_bitSteps (positive : 0 < w) (poly : BitVec w) (n : Nat) (c : BitVec w) :
    residue poly (ofWord ((bitStep poly)^[n] c)) = residue poly (X ^ n * ofWord c) := by
  induction n generalizing c with
  | zero => rw [pow_zero, one_mul, Function.iterate_zero_apply]
  | succ n ih =>
    rw [Function.iterate_succ_apply, ih, map_mul, residue_bitStep positive, ← map_mul]
    congr 1
    ring

theorem eq_of_residue_eq (poly : BitVec w) {c d : BitVec w}
    (same : residue poly (ofWord c) = residue poly (ofWord d)) : c = d := by
  apply ofWord_injective
  apply sub_eq_zero.mp
  apply eq_zero_of_dvd_of_degree_lt (AdjoinRoot.mk_eq_mk.mp same)
  rw [degree_generator]
  exact (degree_sub_le _ _).trans_lt (max_lt (degree_ofWord_lt c) (degree_ofWord_lt d))

/-- The bytes of a message as a polynomial, the first byte and in it the highest bit first. -/
noncomputable def message (bs : List (BitVec 8)) : (ZMod 2)[X] :=
  bs.foldl (fun p b => p * X ^ 8 + ofWord b) 0

theorem message_concat (bs : List (BitVec 8)) (b : BitVec 8) :
    message (bs ++ [b]) = message bs * X ^ 8 + ofWord b := by
  rw [message, List.foldl_append]
  rfl

/-- The bit at a position of a message. -/
def bitAt (bs : List (BitVec 8)) (i : Nat) : Bool := (bs.getD (i / 8) 0).getMsbD (i % 8)

/-- One byte of a register that is fed from the top. -/
def byteStep (poly c : BitVec w) (b : BitVec 8) : BitVec w :=
  (bitStep poly)^[8] (c ^^^ (b.setWidth w <<< (w - 8)))

def register (poly : BitVec w) (bs : List (BitVec 8)) : BitVec w := bs.foldl (byteStep poly) 0

theorem ofWord_top (wide : 8 ≤ w) (b : BitVec 8) :
    ofWord (b.setWidth w <<< (w - 8)) = ofWord b * X ^ (w - 8) := by
  ext i
  rw [coeff_mul_X_pow', coeff_ofWord, coeff_ofWord, BitVec.getLsbD_shiftLeft,
    BitVec.getLsbD_setWidth]
  by_cases low : w - 8 ≤ i
  · rw [if_pos low]
    by_cases inside : i < w
    · simp [inside, Nat.not_lt.mpr low, show i - (w - 8) < w by omega]
    · rw [BitVec.getLsbD_of_ge b _ (by omega)]
      simp [inside]
  · simp [low, Nat.not_le.mp low]

theorem residue_byteStep (wide : 8 ≤ w) (poly c : BitVec w) (b : BitVec 8) :
    residue poly (ofWord (byteStep poly c b)) =
      residue poly (ofWord c * X ^ 8 + ofWord b * X ^ w) := by
  have high : (X : (ZMod 2)[X]) ^ w = X ^ 8 * X ^ (w - 8) := by
    rw [← pow_add, Nat.add_sub_cancel' wide]
  rw [byteStep, residue_bitSteps (by omega), ofWord_xor, ofWord_top wide, high]
  congr 1
  ring

theorem residue_register (wide : 8 ≤ w) (poly : BitVec w) (bs : List (BitVec 8)) :
    residue poly (ofWord (register poly bs)) = residue poly (message bs * X ^ w) := by
  induction bs using List.reverseRecOn with
  | nil =>
    change residue poly (ofWord 0) = residue poly (0 * X ^ w)
    rw [ofWord_zero, zero_mul]
  | append_singleton bs b ih =>
    have step : register poly (bs ++ [b]) = byteStep poly (register poly bs) b := by
      rw [register, List.foldl_append]
      rfl
    rw [step, residue_byteStep wide, map_add, map_mul, ih, ← map_mul, ← map_add, message_concat]
    congr 1
    ring

theorem register_eq_modByMonic (wide : 8 ≤ w) (poly : BitVec w) (bs : List (BitVec 8)) :
    ofWord (register poly bs) = (message bs * X ^ w) %ₘ generator poly := by
  obtain ⟨q, whole⟩ := AdjoinRoot.mk_eq_mk.mp (residue_register wide poly bs).symm
  refine ((div_modByMonic_unique q _ (generator_monic poly) ⟨?_, ?_⟩).2).symm
  · rw [← whole]
    ring
  · rw [degree_generator]
    exact degree_ofWord_lt _

theorem register_eq_iff (wide : 8 ≤ w) (poly c : BitVec w) (bs : List (BitVec 8)) :
    register poly bs = c ↔ generator poly ∣ message bs * X ^ w + ofWord c := by
  have twice : ofWord c + ofWord c = 0 := CharTwo.add_self_eq_zero _
  have whole : residue poly (message bs * X ^ w + ofWord c) =
      residue poly (ofWord (register poly bs)) + residue poly (ofWord c) := by
    rw [map_add, residue_register wide]
  rw [← AdjoinRoot.mk_eq_zero, whole]
  constructor
  · rintro rfl
    rw [← map_add, twice, map_zero]
  · intro zero
    apply eq_of_residue_eq poly
    calc residue poly (ofWord (register poly bs))
        = residue poly (ofWord (register poly bs)) + residue poly (ofWord c + ofWord c) := by
          rw [twice, map_zero, add_zero]
      _ = residue poly (ofWord c) := by rw [map_add, ← add_assoc, zero, zero_add]

theorem message_append (as bs : List (BitVec 8)) :
    message (as ++ bs) = message as * X ^ (8 * bs.length) + message bs := by
  induction bs using List.reverseRecOn with
  | nil =>
    rw [List.append_nil, List.length_nil, Nat.mul_zero, pow_zero, mul_one]
    exact (add_zero _).symm
  | append_singleton bs b ih =>
    rw [← List.append_assoc, message_concat, ih, message_concat, List.length_append,
      List.length_singleton, Nat.mul_add, Nat.mul_one, pow_add]
    ring

theorem message_xor {as bs : List (BitVec 8)} (same : as.length = bs.length) :
    message (List.zipWith (· ^^^ ·) as bs) = message as + message bs := by
  have folded (as bs : List (BitVec 8)) (same : as.length = bs.length) (p q : (ZMod 2)[X]) :
      (List.zipWith (· ^^^ ·) as bs).foldl (fun p b => p * X ^ 8 + ofWord b) (p + q) =
        as.foldl (fun p b => p * X ^ 8 + ofWord b) p +
          bs.foldl (fun p b => p * X ^ 8 + ofWord b) q := by
    induction as generalizing bs p q with
    | nil =>
      rw [List.length_eq_zero_iff.mp same.symm]
      rfl
    | cons a as ih =>
      rcases bs with _ | ⟨b, bs⟩
      · cases same
      · have sum : (p + q) * X ^ 8 + (ofWord a + ofWord b) =
            p * X ^ 8 + ofWord a + (q * X ^ 8 + ofWord b) := by ring
        rw [List.zipWith_cons_cons, List.foldl_cons, List.foldl_cons, List.foldl_cons, ofWord_xor,
          sum, ih bs (Nat.succ.inj same)]
  have start := folded as bs same 0 0
  rw [zero_add] at start
  exact start

theorem bitAt_concat_low {bs : List (BitVec 8)} {b : BitVec 8} {i : Nat}
    (inside : i < 8 * bs.length) : bitAt (bs ++ [b]) i = bitAt bs i := by
  rw [bitAt, bitAt, List.getD_append _ _ _ _ (by omega)]

theorem bitAt_concat_high {bs : List (BitVec 8)} {b : BitVec 8} {i : Nat} (inside : i < 8) :
    bitAt (bs ++ [b]) (8 * bs.length + i) = b.getMsbD i := by
  have byte : (8 * bs.length + i) / 8 = bs.length := by omega
  have bit : (8 * bs.length + i) % 8 = i := by omega
  rw [bitAt, byte, bit, List.getD_append_right _ _ _ _ (Nat.le_refl _), Nat.sub_self]
  rfl

theorem bitAt_outside {bs : List (BitVec 8)} {i : Nat} (outside : 8 * bs.length ≤ i) :
    bitAt bs i = false := by
  rw [bitAt, List.getD_eq_default _ _ (by omega)]
  simp

theorem coeff_message {bs : List (BitVec 8)} {k : Nat} (inside : k < 8 * bs.length) :
    (message bs).coeff k = if bitAt bs (8 * bs.length - 1 - k) then 1 else 0 := by
  induction bs using List.reverseRecOn generalizing k with
  | nil => cases inside
  | append_singleton bs b ih =>
    rw [List.length_append, List.length_singleton] at inside ⊢
    rw [message_concat, coeff_add, coeff_mul_X_pow', coeff_ofWord]
    by_cases low : k < 8
    · have place : 8 * (bs.length + 1) - 1 - k = 8 * bs.length + (7 - k) := by omega
      rw [if_neg (Nat.not_le.mpr low), zero_add, place, bitAt_concat_high (by omega),
        BitVec.getMsbD_eq_getLsbD, show 8 - 1 - (7 - k) = k by omega,
        decide_eq_true (show 7 - k < 8 by omega), Bool.true_and]
    · have place : 8 * (bs.length + 1) - 1 - k = 8 * bs.length - 1 - (k - 8) := by omega
      rw [if_pos (Nat.not_lt.mp low), ih (by omega), BitVec.getLsbD_of_ge b k (Nat.not_lt.mp low),
        place, bitAt_concat_low (by omega)]
      simp

theorem coeff_message_outside {bs : List (BitVec 8)} {k : Nat} (outside : 8 * bs.length ≤ k) :
    (message bs).coeff k = 0 := by
  induction bs using List.reverseRecOn generalizing k with
  | nil => exact coeff_zero k
  | append_singleton bs b ih =>
    rw [List.length_append, List.length_singleton] at outside
    rw [message_concat, coeff_add, coeff_mul_X_pow', coeff_ofWord, if_pos (by omega),
      ih (by omega), BitVec.getLsbD_of_ge b k (by omega)]
    simp

theorem generator_coprime {poly : BitVec w} (positive : 0 < w) (odd : poly.getLsbD 0 = true) :
    IsCoprime (generator poly) X := by
  have low : (generator poly).coeff 0 = 1 := by
    rw [generator, coeff_add, coeff_X_pow, if_neg (by omega), coeff_ofWord, if_pos odd, zero_add]
  have split := divX_mul_X_add (generator poly)
  rw [low, C_1] at split
  refine ⟨1, -divX (generator poly), ?_⟩
  rw [one_mul]
  nth_rewrite 1 [← split]
  ring

theorem not_dvd_of_burst {poly : BitVec w} (positive : 0 < w) (odd : poly.getLsbD 0 = true)
    {e : List (BitVec 8)} {first : Nat}
    (within : ∀ i, bitAt e i = true → first ≤ i ∧ i < first + w)
    (occurs : ∃ i, bitAt e i = true) : ¬ generator poly ∣ message e := by
  intro divides
  -- The lowest place that the burst can reach, counted from the end.
  have below : X ^ (8 * e.length - (first + w)) ∣ message e := by
    rw [X_pow_dvd_iff]
    intro d small
    rw [coeff_message (by omega), if_neg]
    intro set
    have bounds := within _ set
    omega
  obtain ⟨b, whole⟩ := below
  have coprime : IsCoprime (generator poly) (X ^ (8 * e.length - (first + w))) :=
    (generator_coprime positive odd).pow_right
  rw [whole] at divides
  have small : b.degree < w := by
    rw [degree_lt_iff_coeff_zero]
    intro d high
    have moved := coeff_X_pow_mul b (8 * e.length - (first + w)) d
    rw [← whole] at moved
    rw [← moved]
    by_cases inside : d + (8 * e.length - (first + w)) < 8 * e.length
    · rw [coeff_message inside, if_neg]
      intro set
      have bounds := within _ set
      omega
    · exact coeff_message_outside (Nat.not_lt.mp inside)
  have zero := eq_zero_of_dvd_of_degree_lt (coprime.dvd_of_dvd_mul_left divides)
    (by rw [degree_generator]; exact small)
  obtain ⟨i, set⟩ := occurs
  have inside : i < 8 * e.length := by
    by_contra outside
    rw [bitAt_outside (Nat.not_lt.mp outside)] at set
    cases set
  have place : 8 * e.length - 1 - i < 8 * e.length := by omega
  have coefficient := coeff_message place
  rw [show 8 * e.length - 1 - (8 * e.length - 1 - i) = i by omega, if_pos set, whole, zero,
    mul_zero, coeff_zero] at coefficient
  exact zero_ne_one coefficient

end T113Boot.Lib.CrcPolynomial
