/- Module: T113Boot/Drivers/ClockFields
   layer: specification
   digest: Which earlier values of a clock register the setters leave a trace of. -/

import Mathlib.Algebra.Order.Field.Rat
import Mathlib.Algebra.Order.Field.Basic
import T113Boot.Drivers.Clocks

set_option autoImplicit false
set_option relaxedAutoImplicit false

namespace T113Boot.Drivers.ClockFields

open T113Boot.Lib.BitFields
open T113Boot.Drivers.Clocks

/-- A bit of the source, of N or of M. -/
def BusClkBit (k : Nat) : Prop := k < 5 ∨ 8 ≤ k ∧ k < 10 ∨ 24 ≤ k ∧ k < 26

instance (k : Nat) : Decidable (BusClkBit k) := inferInstanceAs (Decidable (_ ∨ _))

/-- The divider of the PLL that the three setters compute. -/
def apbDivider (ccu : Ccu) (freq : BitVec 32) : BitVec 32 := drvClkGetPllPeri1x ccu / freq

/-- What is read after a setter, and what has become of the other bits. -/
def RoundTrip (ccu : Ccu) (freq read old new : BitVec 32) : Prop :=
  read = drvClkGetPllPeri1x ccu / apbDivider ccu freq ∧
    ∀ k, ¬ BusClkBit k → new.getLsbD k = old.getLsbD k

private theorem div_lt_div_large {p a b : Nat} (large : 1024 < p) (positive : 1 ≤ a) (less : a < b)
    (small : b ≤ 32) : p / b < p / a := by
  have many : 32 ≤ p / b := (Nat.le_div_iff_mul_le (by omega)).mpr (by omega)
  apply (Nat.le_div_iff_mul_le positive).mpr
  calc
    (p / b + 1) * a = p / b * a + a := Nat.succ_mul _ _
    _ ≤ p / b * a + p / b := Nat.add_le_add_left (by omega) _
    _ = p / b * (a + 1) := (Nat.mul_succ _ _).symm
    _ ≤ p / b * b := Nat.mul_le_mul_left _ less
    _ ≤ p := Nat.div_mul_le_self p b

private theorem div_eq_iff_large {p a b : Nat} (large : 1024 < p) (ha : 1 ≤ a) (hb : 1 ≤ b)
    (smallA : a ≤ 32) (smallB : b ≤ 32) : p / a = p / b ↔ a = b := by
  constructor
  · intro same
    rcases Nat.lt_trichotomy a b with less | equal | more
    · exact absurd same (Nat.ne_of_gt (div_lt_div_large large ha less smallB))
    · exact equal
    · exact absurd same (Nat.ne_of_lt (div_lt_div_large large hb more smallA))
  · rintro rfl
    rfl

private theorem toNat_divider_pred {d : BitVec 32} (least : 1 ≤ d.toNat) :
    (d - 1).toNat = d.toNat - 1 := by
  have width := d.isLt
  rw [BitVec.toNat_sub]
  change (2 ^ 32 - 1 + d.toNat) % 2 ^ 32 = _
  omega

private theorem busClkVal_merge {ccu : Ccu} {freq : BitVec 32} (limit val : BitVec 32)
    (least : 1 ≤ (apbDivider ccu freq).toNat)
    (most : (apbDivider ccu freq).toNat ≤ limit.toNat + 1) :
    busClkVal ccu freq limit val =
      merge val 0x03000303 (0x03000000 ||| (apbDivider ccu freq - 1)) := by
  have inside : ¬ apbDivider ccu freq - 1 > limit := by
    rw [gt_iff_lt, BitVec.not_lt, BitVec.le_def, toNat_divider_pred least]
    exact Nat.sub_le_of_le_add most
  have selected : 0x3#32 <<< 24 = 0x03000000#32 := by decide
  unfold busClkVal
  rw [show drvClkGetPllPeri1x ccu / freq = apbDivider ccu freq from rfl]
  simp only [if_neg inside, selected, BitVec.shiftLeft_zero, BitVec.zero_shiftLeft, BitVec.or_zero]
  exact BitVec.or_assoc _ _ _

private theorem busClk_fields {ccu : Ccu} {val : BitVec 32} {len : Nat} (source2 mask : BitVec 32)
    (ones : mask.toNat = 2 ^ len - 1) (short : len ≤ 5) (source : field val 24 2 = 3)
    (whole : field val 8 2 = 0) :
    (busClk ccu val source2 mask).toNat =
      (drvClkGetPllPeri1x ccu).toNat / ((field val 0 len).toNat + 1) := by
  have src : (val >>> 24) &&& 0x3#32 = 3 := by
    apply BitVec.eq_of_toNat_eq
    rw [toNat_read val 24 2 rfl, source]
    rfl
  have n : (val >>> 8) &&& 0x3#32 = 0 := by
    apply BitVec.eq_of_toNat_eq
    rw [toNat_read val 8 2 rfl, whole]
    rfl
  have m : (((val >>> 0) &&& mask) + 1).toNat = (field val 0 len).toNat + 1 := by
    have bound := (field val 0 len).isLt
    have few : 2 ^ len ≤ 2 ^ 5 := Nat.pow_le_pow_right (by decide) short
    rw [BitVec.toNat_add, toNat_read val 0 len ones]
    change ((field val 0 len).toNat + 1) % 2 ^ 32 = _
    omega
  unfold busClk
  simp only [src, n]
  rw [if_neg (by decide), if_neg (by decide), if_neg (by decide), BitVec.toNat_udiv,
    BitVec.toNat_udiv, m]
  exact Nat.div_one _

private theorem busClk_kept {m : BitVec 32} (val : BitVec 32) (small : m.toNat < 2 ^ 5) {k : Nat}
    (outside : ¬ BusClkBit k) :
    (merge val 0x03000303 (0x03000000 ||| m)).getLsbD k = val.getLsbD k := by
  have literals : (0x03000303#32).getLsbD k = false ∧ (0x03000000#32).getLsbD k = false := by
    by_cases bound : k < 32
    · exact (by decide : ∀ k < 32, ¬ BusClkBit k →
        (0x03000303#32).getLsbD k = false ∧ (0x03000000#32).getLsbD k = false) k bound outside
    · exact ⟨BitVec.getLsbD_of_ge _ _ (by omega), BitVec.getLsbD_of_ge _ _ (by omega)⟩
  apply getLsbD_merge_kept val literals.1
  rw [BitVec.getLsbD_or, getLsbD_small small (by unfold BusClkBit at outside; omega)]
  exact (Bool.or_false _).trans literals.2

/-- The two lower bits of M are cleared, the three upper ones are not. -/
private theorem busClk_divider (val m : BitVec 32) :
    field (merge val 0x03000303 (0x03000000 ||| m)) 0 2 = field m 0 2 ∧
    (field (merge val 0x03000303 (0x03000000 ||| m)) 0 5 = field m 0 5 ↔
      Within (field val 2 3) (field m 2 3)) := by
  have value (i len : Nat) (zero : field (0x03000000 : BitVec 32) i len = 0) :
      field (0x03000000 ||| m) i len = field m i len := by
    rw [field_or, zero]
    exact BitVec.zero_or
  have low : field (merge val 0x03000303 (0x03000000 ||| m)) 0 2 = field m 0 2 := by
    rw [field_merge_covered val _ (by decide) (by decide), value 0 2 (by decide)]
  have kept : field val 2 3 &&& ~~~field (0x03000303 : BitVec 32) 2 3 = field val 2 3 := by
    rw [show field (0x03000303 : BitVec 32) 2 3 = 0#3 by decide, BitVec.not_zero,
      BitVec.and_allOnes]
  refine ⟨low, ?_⟩
  rw [show (5 : Nat) = 2 + 3 from rfl, field_eq_split]
  change _ ∧ field _ 2 3 = field _ 2 3 ↔ _
  rw [← value 2 3 (by decide), field_merge_eq_iff val _ _ (by decide), kept]
  exact and_iff_right low

private theorem bus_fields {ccu : Ccu} {freq : BitVec 32} (limit val : BitVec 32)
    (least : 1 ≤ (apbDivider ccu freq).toNat) (most : (apbDivider ccu freq).toNat ≤ 32)
    (inside : (apbDivider ccu freq).toNat ≤ limit.toNat + 1) :
    field (busClkVal ccu freq limit val) 24 2 = 3 ∧ field (busClkVal ccu freq limit val) 8 2 = 0 ∧
    (∀ k, ¬ BusClkBit k → (busClkVal ccu freq limit val).getLsbD k = val.getLsbD k) ∧
    field (busClkVal ccu freq limit val) 0 2 = field (apbDivider ccu freq - 1) 0 2 ∧
    (field (busClkVal ccu freq limit val) 0 5 = field (apbDivider ccu freq - 1) 0 5 ↔
      Within (field val 2 3) (field (apbDivider ccu freq - 1) 2 3)) := by
  have small : (apbDivider ccu freq - 1).toNat < 2 ^ 5 := by
    rw [toNat_divider_pred least]
    omega
  rw [busClkVal_merge limit val least inside]
  refine ⟨?_, ?_, fun k outside => busClk_kept val small outside, busClk_divider val _⟩
  · rw [field_merge_covered val _ (by decide) (by decide), field_or, field_small small (by decide)]
    decide
  · rw [field_merge_covered val _ (by decide) (by decide), field_or, field_small small (by decide)]
    decide

private theorem apbDivider_code {ccu : Ccu} {freq : BitVec 32} {len : Nat} (short : len ≤ 5)
    (least : 1 ≤ (apbDivider ccu freq).toNat) (most : (apbDivider ccu freq).toNat ≤ 2 ^ len) :
    (field (apbDivider ccu freq - 1) 0 len).toNat + 1 = (apbDivider ccu freq).toNat := by
  have few : 2 ^ len ≤ 2 ^ 5 := Nat.pow_le_pow_right (by decide) short
  have value := toNat_divider_pred least
  rw [toNat_field_small (by omega), value]
  omega

/-- The AHB clock has two bits of M and clears them both: it is always read back as it was set. -/
theorem ahbClk_roundTrip (ccu : Ccu) (freq : BitVec 32) (least : 1 ≤ (apbDivider ccu freq).toNat)
    (most : (apbDivider ccu freq).toNat ≤ 4) :
    RoundTrip ccu freq (drvClkGetAhbsClk (initAhbClk freq ccu)) ccu.psiClk
      (initAhbClk freq ccu).psiClk := by
  obtain ⟨source, whole, others, low, -⟩ :=
    bus_fields 0x3 ccu.psiClk least (by omega) most
  refine ⟨?_, others⟩
  have read : (drvClkGetAhbsClk (initAhbClk freq ccu)).toNat = (drvClkGetPllPeri1x ccu).toNat /
      ((field (busClkVal ccu freq 0x3 ccu.psiClk) 0 2).toNat + 1) :=
    busClk_fields _ 0x3 (rfl : _ = 2 ^ 2 - 1) (by decide) source whole
  rw [low, apbDivider_code (by decide) least most] at read
  apply BitVec.eq_of_toNat_eq
  rw [BitVec.toNat_udiv]
  exact read

private theorem roundTrip_iff {ccu : Ccu} {freq : BitVec 32} (val source2 : BitVec 32)
    (least : 1 ≤ (apbDivider ccu freq).toNat) (most : (apbDivider ccu freq).toNat ≤ 32) :
    RoundTrip ccu freq (busClk ccu (busClkVal ccu freq 0xfe val) source2 0x1f) val
        (busClkVal ccu freq 0xfe val) ↔
      Within (field val 2 3) (field (apbDivider ccu freq - 1) 2 3) := by
  obtain ⟨source, whole, others, -, exact_⟩ :=
    bus_fields 0xfe val least most (Nat.le_trans most (by decide))
  have code := apbDivider_code (by decide : 5 ≤ 5) least most
  have bound := (field (busClkVal ccu freq 0xfe val) 0 5).isLt
  rw [← exact_, RoundTrip, and_iff_left others, ← BitVec.toNat_inj, busClk_fields _ 0x1f (rfl : _ = 2 ^ 5 - 1) (by decide)
    source whole,    BitVec.toNat_udiv, div_eq_iff_large (pllPeri1x_large ccu) (by omega) least (by omega) most,
    ← code, Nat.add_right_cancel_iff, BitVec.toNat_inj]

/-- What is set is read back, and nothing else changes, exactly where the three upper bits of M that
the register held, which the setter leaves in place, are bits of the new divider's code. -/
theorem apbClk_roundTrip_iff (ccu : Ccu) (freq : BitVec 32)
    (least : 1 ≤ (apbDivider ccu freq).toNat) (most : (apbDivider ccu freq).toNat ≤ 32) :
    (RoundTrip ccu freq (drvClkGetApb0Clk (initApb0Clk freq ccu)) ccu.apb0Clk
        (initApb0Clk freq ccu).apb0Clk ↔
      Within (field ccu.apb0Clk 2 3) (field (apbDivider ccu freq - 1) 2 3)) ∧
    (RoundTrip ccu freq (drvClkGetApb1Clk (initApb1Clk freq ccu)) ccu.apb1Clk
        (initApb1Clk freq ccu).apb1Clk ↔
      Within (field ccu.apb1Clk 2 3) (field (apbDivider ccu freq - 1) 2 3)) :=
  ⟨roundTrip_iff ccu.apb0Clk _ least most, roundTrip_iff ccu.apb1Clk _ least most⟩

/-- The PLL at 600 MHz, and APB1 as `init_apb1_clk(24000000)` leaves it on a register of zeros. -/
def bootClocks : Ccu := initApb1Clk 24000000 ⟨0x16300, 0, 0, 0, 0, 0⟩

/-- The divider 25 of 24 MHz is left in the divider 3 of 200 MHz. -/
theorem apbClk_residue : ¬ ∀ (ccu : Ccu) (freq : BitVec 32), 1 ≤ (apbDivider ccu freq).toNat →
    (apbDivider ccu freq).toNat ≤ 32 →
      RoundTrip ccu freq (drvClkGetApb0Clk (initApb0Clk freq ccu)) ccu.apb0Clk
        (initApb0Clk freq ccu).apb0Clk ∧
      RoundTrip ccu freq (drvClkGetApb1Clk (initApb1Clk freq ccu)) ccu.apb1Clk
        (initApb1Clk freq ccu).apb1Clk := by
  intro claimed
  exact absurd (claimed bootClocks 200000000 (by decide) (by decide)).2.1 (by decide)

/-- 24 MHz is set again. -/
theorem apbClk_again : RoundTrip bootClocks 24000000
    (drvClkGetApb1Clk (initApb1Clk 24000000 bootClocks)) bootClocks.apb1Clk
    (initApb1Clk 24000000 bootClocks).apb1Clk :=
  (apbClk_roundTrip_iff bootClocks 24000000 (by decide) (by decide)).2.mpr (by decide)

/-- The source's frequency, of the two that `init_smhc0_clk` selects. -/
def smhc0SourceClk (ccu : Ccu) : BitVec 32 :=
  if field ccu.smhc0Clk 24 3 = 0 then hosc else drvClkGetPllPeri1x ccu

/-- Source/M/N, as the register has them. -/
def smhc0ModuleClk (ccu : Ccu) : ℚ :=
  (smhc0SourceClk ccu).toNat / ((field ccu.smhc0Clk 0 4).toNat + 1 : ℕ) /
    2 ^ (field ccu.smhc0Clk 8 2).toNat

/-- A frequency whose double fits 32 bits, and whose dividers fit the field of N. -/
structure Divides (ccu : Ccu) (freq : BitVec 32) : Prop where
  positive : 0 < freq.toNat
  doubles : freq.toNat < 2 ^ 31
  fits : (smhc0Dividers ccu freq).1.toNat ≤ 3

/-- The register holds the dividers of a request, and the clock is at most twice what it asks. -/
structure Programmed (ccu : Ccu) (freq : BitVec 32) : Prop where
  n : (field ccu.smhc0Clk 8 2).toNat = (smhc0Dividers ccu freq).1.toNat
  m : (field ccu.smhc0Clk 0 4).toNat + 1 = (smhc0Dividers ccu freq).2.toNat
  least : 1 ≤ (smhc0Dividers ccu freq).2.toNat
  most : (smhc0Dividers ccu freq).2.toNat ≤ 16
  clock : smhc0ModuleClk ccu ≤ 2 * freq.toNat

/-- Nothing is set in the fields of N and M that the dividers of the request have not set. -/
def Covered (ccu : Ccu) (freq : BitVec 32) : Prop :=
  Within (field ccu.smhc0Clk 8 2) (field (smhc0Dividers ccu freq).1 0 2) ∧
    Within (field ccu.smhc0Clk 0 4) (field ((smhc0Dividers ccu freq).2 - 1) 0 4)

private theorem smhc0Dividers_spec {ccu : Ccu} {freq : BitVec 32} (request : Divides ccu freq) :
    1 ≤ (smhc0Dividers ccu freq).2.toNat ∧ (smhc0Dividers ccu freq).2.toNat ≤ 16 ∧
    (smhc0Source ccu (freq * 2)).2.toNat ≤ 2 * freq.toNat *
      ((smhc0Dividers ccu freq).2.toNat * 2 ^ (smhc0Dividers ccu freq).1.toNat) := by
  have positive := request.positive
  have doubled : (freq * 2).toNat = 2 * freq.toNat := by
    have doubles := request.doubles
    rw [BitVec.toNat_mul]
    change freq.toNat * 2 % 2 ^ 32 = _
    omega
  have large : 0 < (smhc0Source ccu (freq * 2)).2.toNat := by
    unfold smhc0Source
    split
    · decide
    · exact Nat.lt_trans (by decide) (pllPeri1x_large ccu)
  have dividers : ∃ div : BitVec 32, smhc0Dividers ccu freq = halve 0 div ∧ 1 ≤ div.toNat ∧
      div.toNat ≤ 16 * 2 ^ 27 ∧
      (smhc0Source ccu (freq * 2)).2.toNat ≤ 2 * freq.toNat * div.toNat := by
    refine ⟨_, rfl, ?_⟩
    have quotient := BitVec.toNat_udiv (x := (smhc0Source ccu (freq * 2)).2) (y := freq * 2)
    have remainder := BitVec.toNat_umod (x := (smhc0Source ccu (freq * 2)).2) (y := freq * 2)
    have width := (smhc0Source ccu (freq * 2)).2.isLt
    generalize (smhc0Source ccu (freq * 2)).2 = pll at *
    rw [doubled] at quotient remainder
    have division := Nat.div_add_mod pll.toNat (2 * freq.toNat)
    have rest := Nat.mod_lt pll.toNat (by omega : 0 < 2 * freq.toNat)
    have half : pll.toNat / (2 * freq.toNat) ≤ pll.toNat / 2 :=
      Nat.div_le_div_left (by omega) (by decide)
    by_cases left : pll % (freq * 2) ≠ 0
    · rw [if_pos left]
      have next : (pll / (freq * 2) + 1).toNat = pll.toNat / (2 * freq.toNat) + 1 := by
        rw [BitVec.toNat_add, quotient]
        change (_ + 1) % 2 ^ 32 = _
        omega
      rw [next, Nat.mul_succ]
      omega
    · have exact_ : pll.toNat % (2 * freq.toNat) = 0 := by
        rw [← remainder, not_ne_iff.mp left]
        rfl
      rw [if_neg left, quotient]
      have nonzero : pll.toNat / (2 * freq.toNat) ≠ 0 := by
        intro none
        rw [none] at division
        omega
      omega
  obtain ⟨div, same, nonzero, few, enough⟩ := dividers
  obtain ⟨k, count, n, least, most, covers⟩ := halve_spec (Nat.le_refl 27) 0 div nonzero few
  rw [same, n]
  refine ⟨least, most, Nat.le_trans enough (Nat.mul_le_mul_left _ ?_)⟩
  have counted : (0 + BitVec.ofNat 32 k).toNat = k := by
    rw [BitVec.toNat_add, BitVec.toNat_ofNat]
    change (0 + k % 2 ^ 32) % 2 ^ 32 = k
    omega
  rw [counted]
  exact covers

private theorem initSmhc0Clk_fields {ccu : Ccu} {freq : BitVec 32} (request : Divides ccu freq) :
    field (initSmhc0Clk freq ccu).smhc0Clk 8 2 =
      field ccu.smhc0Clk 8 2 ||| field (smhc0Dividers ccu freq).1 0 2 ∧
    field (initSmhc0Clk freq ccu).smhc0Clk 0 4 =
      field ccu.smhc0Clk 0 4 ||| field ((smhc0Dividers ccu freq).2 - 1) 0 4 ∧
    smhc0SourceClk (initSmhc0Clk freq ccu) = (smhc0Source ccu (freq * 2)).2 := by
  obtain ⟨least, most, -⟩ := smhc0Dividers_spec request
  have nonzero : ¬ freq = 0 := by
    rintro rfl
    exact absurd request.positive (by decide)
  have fits : ¬ (smhc0Dividers ccu freq).1 > 3 := by
    rw [gt_iff_lt, BitVec.not_lt, BitVec.le_def]
    exact request.fits
  have written : (initSmhc0Clk freq ccu).smhc0Clk =
      ccu.smhc0Clk &&& ~~~(0x01#32 <<< 31) &&& ~~~(0x7#32 <<< 24) |||
        (smhc0Source ccu (freq * 2)).1 <<< 24 ||| 0x01#32 <<< 31 |||
        ((smhc0Dividers ccu freq).1 <<< 8 ||| ((smhc0Dividers ccu freq).2 - 1)) := by
    unfold initSmhc0Clk
    simp only [if_neg nonzero]
    exact congrArg Ccu.smhc0Clk (if_neg fits)
  have smallN : (smhc0Dividers ccu freq).1.toNat < 2 ^ 2 := Nat.lt_succ_of_le request.fits
  have smallM : ((smhc0Dividers ccu freq).2 - 1).toNat < 2 ^ 4 := by
    rw [BitVec.toNat_sub]
    change (2 ^ 32 - 1 + (smhc0Dividers ccu freq).2.toNat) % 2 ^ 32 < 2 ^ 4
    omega
  have smallSource : (smhc0Source ccu (freq * 2)).1.toNat < 2 ^ 3 := by
    unfold smhc0Source
    split
    · exact (by decide : (0#32).toNat < 2 ^ 3)
    · exact (by decide : (0x01#32).toNat < 2 ^ 3)
  have gate : (0x01#32).toNat < 2 ^ 1 := by decide
  have select : (0x7#32).toNat < 2 ^ 3 := by decide
  have parts (i len : Nat) (inside : i + len ≤ 32) :
      field (initSmhc0Clk freq ccu).smhc0Clk i len =
        field ccu.smhc0Clk i len &&& ~~~field (0x01#32 <<< 31) i len &&&
          ~~~field (0x7#32 <<< 24) i len ||| field ((smhc0Source ccu (freq * 2)).1 <<< 24) i len |||
          field (0x01#32 <<< 31) i len ||| (field ((smhc0Dividers ccu freq).1 <<< 8) i len |||
            field ((smhc0Dividers ccu freq).2 - 1) i len) := by
    rw [written]
    simp only [field_or, field_and, field_not _ inside]
  have source : field (initSmhc0Clk freq ccu).smhc0Clk 24 3 =
      field (smhc0Source ccu (freq * 2)).1 0 3 := by
    rw [parts 24 3 (by decide), show field (0x7#32 <<< 24) 24 3 = BitVec.allOnes 3 by decide,
      field_shift _ (by decide), field_shift_other gate (by decide),
      field_shift_other smallN (by decide), field_small smallM (by decide), BitVec.not_allOnes]
    simp only [BitVec.ofNat_eq_ofNat, BitVec.and_zero, BitVec.or_zero, BitVec.zero_or]
  refine ⟨?_, ?_, ?_⟩
  · rw [parts 8 2 (by decide), field_shift _ (by decide), field_shift_other smallSource (by decide),
      field_shift_other gate (by decide), field_shift_other select (by decide),
      field_small smallM (by decide)]
    simp only [BitVec.ofNat_eq_ofNat, BitVec.not_zero, BitVec.and_allOnes, BitVec.or_zero]
  · rw [parts 0 4 (by decide), field_shift_other smallN (by decide),
      field_shift_other smallSource (by decide), field_shift_other gate (by decide),
      field_shift_other select (by decide)]
    simp only [BitVec.ofNat_eq_ofNat, BitVec.not_zero, BitVec.and_allOnes, BitVec.or_zero,
      BitVec.zero_or]
  · unfold smhc0SourceClk
    rw [source, initSmhc0Clk_pllPeri1x]
    unfold smhc0Source
    by_cases slow : freq * 2 ≤ 24000000
    · rw [if_pos slow]
      rfl
    · rw [if_neg slow]
      exact if_neg (by decide : ¬ field (0x01#32) 0 3 = 0)

/-- One call programs its dividers exactly where the fields held nothing else. -/
theorem initSmhc0Clk_programs_iff {ccu : Ccu} {freq : BitVec 32} (request : Divides ccu freq) :
    Programmed (initSmhc0Clk freq ccu) freq ↔ Covered ccu freq := by
  obtain ⟨least, most, enough⟩ := smhc0Dividers_spec request
  obtain ⟨fieldN, fieldM, source⟩ := initSmhc0Clk_fields request
  have codeN : (field (smhc0Dividers ccu freq).1 0 2).toNat = (smhc0Dividers ccu freq).1.toNat :=
    toNat_field_small (Nat.lt_succ_of_le request.fits)
  have codeM : (field ((smhc0Dividers ccu freq).2 - 1) 0 4).toNat + 1 =
      (smhc0Dividers ccu freq).2.toNat := by
    have value : ((smhc0Dividers ccu freq).2 - 1).toNat = (smhc0Dividers ccu freq).2.toNat - 1 := by
      rw [BitVec.toNat_sub]
      change (2 ^ 32 - 1 + (smhc0Dividers ccu freq).2.toNat) % 2 ^ 32 = _
      omega
    rw [toNat_field_small (by rw [value]; omega), value]
    omega
  constructor
  · rintro ⟨n, m, -, -, -⟩
    rw [smhc0Dividers_init] at n m
    refine ⟨or_eq_iff.mp (BitVec.eq_of_toNat_eq ?_), or_eq_iff.mp (BitVec.eq_of_toNat_eq ?_)⟩
    · rw [← fieldN, n, codeN]
    · rw [← fieldM]
      omega
  · rintro ⟨coveredN, coveredM⟩
    rw [or_eq_iff.mpr coveredN] at fieldN
    rw [or_eq_iff.mpr coveredM] at fieldM
    refine ⟨?_, ?_, ?_, ?_, ?_⟩
    · rw [smhc0Dividers_init, fieldN, codeN]
    · rw [smhc0Dividers_init, fieldM, codeM]
    · rw [smhc0Dividers_init]
      exact least
    · rw [smhc0Dividers_init]
      exact most
    · unfold smhc0ModuleClk
      rw [fieldN, fieldM, source, codeN, codeM, div_div]
      have positive : (0 : ℚ) < (smhc0Dividers ccu freq).2.toNat *
          2 ^ (smhc0Dividers ccu freq).1.toNat :=
        mul_pos (by exact_mod_cast least) (pow_pos zero_lt_two _)
      rw [div_le_iff₀ positive]
      exact_mod_cast enough

/-- The clock unit after some calls. -/
def afterCalls (ccu : Ccu) (freqs : List (BitVec 32)) : Ccu :=
  freqs.foldl (fun ccu freq => initSmhc0Clk freq ccu) ccu

theorem smhc0Dividers_afterCalls (ccu : Ccu) (freqs : List (BitVec 32)) (freq : BitVec 32) :
    smhc0Dividers (afterCalls ccu freqs) freq = smhc0Dividers ccu freq := by
  induction freqs generalizing ccu with
  | nil => rfl
  | cons first rest ih => exact (ih _).trans (smhc0Dividers_init first freq ccu)

/-- Every call of a sequence leaves the register with its own dividers exactly if no call finds a
bit in the fields of N and M that its dividers do not have: the setter never clears these fields. -/
theorem smhc0Clk_programmed_iff (ccu : Ccu) (freqs : List (BitVec 32))
    (requests : ∀ freq ∈ freqs, Divides ccu freq) :
    (∀ k freq, freqs[k]? = some freq → Programmed (afterCalls ccu (freqs.take (k + 1))) freq) ↔
      ∀ k freq, freqs[k]? = some freq → Covered (afterCalls ccu (freqs.take k)) freq := by
  have turn : ∀ k freq, freqs[k]? = some freq →
      (Programmed (afterCalls ccu (freqs.take (k + 1))) freq ↔
        Covered (afterCalls ccu (freqs.take k)) freq) := by
    intro k freq here
    have request : Divides (afterCalls ccu (freqs.take k)) freq := by
      obtain ⟨positive, doubles, fits⟩ := requests freq (List.mem_of_getElem? here)
      exact ⟨positive, doubles, by rwa [smhc0Dividers_afterCalls]⟩
    rw [← initSmhc0Clk_programs_iff request, List.take_add_one, here, afterCalls, List.foldl_append]
    rfl
  exact forall_congr' fun k => forall_congr' fun freq =>
    forall_congr' fun here => turn k freq here

/-- The PLL at 600 MHz, and what the register of the SD clock holds. -/
def cardClocks (old : BitVec 32) : Ccu := ⟨0x16300, 0, 0, 0, old, 0x10001⟩

private theorem cardClocks_dividers (old : BitVec 32) :
    smhc0Dividers (cardClocks old) 400000 = (1, 15) := by
  have source : (smhc0Source (cardClocks old) (400000 * 2)).2 = 24000000 := rfl
  have remainder : ¬ (24000000 % (400000 * 2) : BitVec 32) ≠ 0 := by decide
  have quotient : smhc0Dividers (cardClocks old) 400000 = halve 0 30 := by
    unfold smhc0Dividers
    dsimp only
    rw [source, if_neg remainder]
    rfl
  rw [quotient, halve, if_pos (by decide), halve, if_neg (by decide)]
  rfl

private theorem cardClocks_request (old : BitVec 32) : Divides (cardClocks old) 400000 := by
  refine ⟨by decide, by decide, ?_⟩
  rw [cardClocks_dividers]
  decide

/-- The 400 kHz of the card identification behind the 200 MHz of `drv_clk_init`: M is 16, not 15. -/
theorem smhc0Clk_residue : ¬ ∀ (ccu : Ccu) (freqs : List (BitVec 32)),
    (∀ freq ∈ freqs, Divides ccu freq) →
      ∀ k freq, freqs[k]? = some freq → Programmed (afterCalls ccu (freqs.take (k + 1))) freq := by
  intro claimed
  have request := cardClocks_request 0x81000001
  have programmed := claimed _ [400000] (List.forall_mem_singleton.mpr request) 0 400000 rfl
  have covered := ((initSmhc0Clk_programs_iff request).mp programmed).2
  rw [cardClocks_dividers] at covered
  exact absurd covered (by decide)

private theorem cardClocks_fast (old : BitVec 32) :
    smhc0Dividers (cardClocks old) 200000000 = (0, 2) ∧
      smhc0Dividers (cardClocks old) 50000000 = (0, 6) := by
  have source (freq : BitVec 32) (fast : ¬ freq ≤ 24000000) :
      (smhc0Source (cardClocks old) freq).2 = 600000000 := by
    unfold smhc0Source
    rw [if_neg fast]
    exact (by decide : drvClkGetPllPeri1x (cardClocks 0) = 600000000)
  unfold smhc0Dividers
  dsimp only
  rw [source _ (by decide), source _ (by decide), if_pos (by decide), if_neg (by decide), halve,
    if_neg (by decide), halve, if_neg (by decide)]
  exact ⟨rfl, rfl⟩

private theorem cardClocks_fastRequests (old : BitVec 32) :
    ∀ freq ∈ [200000000, 50000000], Divides (cardClocks old) freq := by
  obtain ⟨first, second⟩ := cardClocks_fast old
  refine List.forall_mem_cons.mpr ⟨⟨by decide, by decide, ?_⟩,
    List.forall_mem_singleton.mpr ⟨by decide, by decide, ?_⟩⟩
  · rw [first]
    decide
  · rw [second]
    decide

/-- 200 MHz and then 50 MHz on the register of a running card: the 1 left in M is one of 5. -/
theorem smhc0Clk_programmed :
    Programmed (afterCalls (cardClocks 0x81000001) [200000000]) 200000000 ∧
      Programmed (afterCalls (cardClocks 0x81000001) [200000000, 50000000]) 50000000 := by
  obtain ⟨first, second⟩ := cardClocks_fast 0x81000001
  have requests := cardClocks_fastRequests 0x81000001
  have each := (smhc0Clk_programmed_iff (cardClocks 0x81000001) [200000000, 50000000] requests).mpr
  suffices covered : ∀ k freq, [200000000, 50000000][k]? = some freq →
      Covered (afterCalls (cardClocks 0x81000001) ([200000000, 50000000].take k)) freq from
    ⟨each covered 0 200000000 rfl, each covered 1 50000000 rfl⟩
  intro k freq here
  rcases k with _ | _ | k
  · cases here
    unfold Covered
    rw [smhc0Dividers_afterCalls, first]
    decide
  · cases here
    obtain ⟨fieldN, fieldM, -⟩ := initSmhc0Clk_fields (requests 200000000 List.mem_cons_self)
    change Covered (initSmhc0Clk 200000000 (cardClocks 0x81000001)) 50000000
    unfold Covered
    rw [smhc0Dividers_init, fieldN, fieldM, first, second]
    decide
  · cases here

end T113Boot.Drivers.ClockFields
