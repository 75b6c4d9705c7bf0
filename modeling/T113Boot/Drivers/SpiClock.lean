/- Module: T113Boot/Drivers/SpiClock
   layer: specification
   digest: The serial clock of the SPI controller, and for which rates it is programmed right. -/

import Mathlib.Algebra.Order.Field.Rat
import Mathlib.Algebra.Order.Field.Basic
import T113Boot.Drivers.Clocks

set_option autoImplicit false
set_option relaxedAutoImplicit false

namespace T113Boot.Drivers.SpiClock

open T113Boot.Lib.BitFields
open T113Boot.Drivers.Clocks

def spi0 : BitVec 32 := 0
def spi1 : BitVec 32 := 1
def spiSorceClk : BitVec 32 := 200000000

/-- The clock unit with what belongs to the SPI, and the controller's `REG_SPI_CLK`. -/
structure SpiClocks extends Ccu where
  spiBgr : BitVec 32
  spi0Clk : BitVec 32
  spi1Clk : BitVec 32
  clk : BitVec 32

/-- The dividers `n` and `m` of `spi_clk_init`, or its error. -/
def spiDividers (sclk modClk : BitVec 32) : Option (BitVec 32 × BitVec 32) :=
  let div := (sclk + modClk - 1) / modClk
  let div := if div = 0 then 1 else div
  if div > 128 then none
  else if div > 64 then some (3, div >>> 3)
  else if div > 32 then some (2, div >>> 2)
  else if div > 16 then some (1, div >>> 1)
  else some (0, div)

def spiClkInit (id modClk : BitVec 32) (s : SpiClocks) : Int × SpiClocks :=
  let s := { s with spiBgr := s.spiBgr ||| (1#32 <<< (16 + id)) }
  let s := { s with spiBgr := s.spiBgr ||| (1#32 <<< id) }
  if id ≠ spi0 ∧ id ≠ spi1 then (-1, s)
  else
    match spiDividers (drvClkGetPllPeri1x s.toCcu) modClk with
    | none => (-1, s)
    | some (n, m) =>
      let factorM := m - 1
      let val := (1#32 <<< 31) ||| (0x1#32 <<< 24) ||| (n <<< 8) ||| factorM
      (0, if id = spi0 then { s with spi0Clk := val } else { s with spi1Clk := val })

/-- `while (sclk_clk > spi_clk) { div++; sclk_clk >>= 1; }` -/
def shiftDown (spiClk div sclkClk : BitVec 32) : BitVec 32 :=
  if sclkClk > spiClk then shiftDown spiClk (div + 1) (sclkClk >>> 1) else div
termination_by sclkClk.toNat
decreasing_by
  have more : spiClk.toNat < sclkClk.toNat := BitVec.lt_def.mp ‹sclkClk > spiClk›
  rw [BitVec.toNat_ushiftRight, Nat.shiftRight_eq_div_pow]
  omega

/-- The divider that `spi_set_clk` computes. -/
def spiDiv (spiClk sclkClk cdr : BitVec 32) : BitVec 32 :=
  if cdr ≠ 0 then sclkClk / (spiClk * 2) - 1 else shiftDown spiClk 0 sclkClk

def spiSetClk (spiClk sclkClk cdr val : BitVec 32) : BitVec 32 :=
  let div := spiDiv spiClk sclkClk cdr
  if cdr ≠ 0 then
    let val := val &&& ~~~(0xff#32 <<< 0)
    val ||| (div ||| (0x1#32 <<< 12))
  else
    let val := val &&& ~~~((0xf#32 <<< 8) ||| (0x1#32 <<< 12))
    val ||| (div <<< 8)

/-- What `spi_init` does about the clock; it passes 1 for `cdr`. -/
def spiInitClk (id rate cdr : BitVec 32) (s : SpiClocks) : Int × SpiClocks :=
  let (ret, s) := spiClkInit id spiSorceClk s
  if ret ≠ 0 then (-1, s)
  else (0, { s with clk := spiSetClk rate spiSorceClk cdr s.clk })

/-- The register of the module clock. -/
def SpiClocks.modReg (s : SpiClocks) (id : BitVec 32) : BitVec 32 :=
  if id = spi0 then s.spi0Clk else s.spi1Clk

/-- `SCLK = src/M/N`, of the PLL. -/
def SpiClocks.moduleClk (s : SpiClocks) (id : BitVec 32) : ℚ :=
  (drvClkGetPllPeri1x s.toCcu).toNat / ((field (s.modReg id) 0 4).toNat + 1 : ℕ) /
    2 ^ (field (s.modReg id) 8 2).toNat

/-- The module clock divided as bit 12 says: by 2 (n + 1), or by 2^n. -/
def SpiClocks.serialClk (s : SpiClocks) (id : BitVec 32) : ℚ :=
  if s.clk.getLsbD 12 then s.moduleClk id / (2 * ((field s.clk 0 8).toNat + 1) : ℕ)
  else s.moduleClk id / 2 ^ (field s.clk 8 4).toNat

/-- The dividers are within their fields, the rest of the controller's register is kept, nothing
has underflowed, and the serial clock is at most the rate. -/
structure Fits (id rate cdr : BitVec 32) (s s' : SpiClocks) : Prop where
  module : ∃ n m, spiDividers (drvClkGetPllPeri1x s.toCcu) spiSorceClk = some (n, m) ∧
    (field (s'.modReg id) 8 2).toNat = n.toNat ∧ (field (s'.modReg id) 0 4).toNat + 1 = m.toNat
  divider : (if cdr ≠ 0 then (field s'.clk 0 8).toNat else (field s'.clk 8 4).toNat) =
    (spiDiv rate spiSorceClk cdr).toNat
  select : s'.clk.getLsbD 12 = decide (cdr ≠ 0)
  others : ∀ k, 13 ≤ k → s'.clk.getLsbD k = s.clk.getLsbD k
  noUnderflow : cdr ≠ 0 → 1 ≤ (spiSorceClk / (rate * 2)).toNat
  clock : s'.serialClk id ≤ rate.toNat

/-- The PLL's frequency divided by 200 MHz, rounded up. -/
def modDivider (pll : Nat) : Nat := (pll + 199999999) / 200000000

private theorem spiDividers_spec (ccu : Ccu) : ∃ m : BitVec 32,
    spiDividers (drvClkGetPllPeri1x ccu) spiSorceClk = some (0, m) ∧
    m.toNat = modDivider (drvClkGetPllPeri1x ccu).toNat ∧ 1 ≤ m.toNat ∧ m.toNat ≤ 11 := by
  have large := pllPeri1x_large ccu
  have half := pllPeri1x_half ccu
  generalize drvClkGetPllPeri1x ccu = pll at *
  have value : ((pll + spiSorceClk - 1) / spiSorceClk).toNat = modDivider pll.toNat := by
    rw [BitVec.toNat_udiv, BitVec.toNat_sub, BitVec.toNat_add]
    change (2 ^ 32 - 1 + (pll.toNat + 200000000) % 2 ^ 32) % 2 ^ 32 / 200000000 = _
    unfold modDivider
    omega
  have range : 1 ≤ modDivider pll.toNat ∧ modDivider pll.toNat ≤ 11 := by
    unfold modDivider
    omega
  have least : ¬ (pll + spiSorceClk - 1) / spiSorceClk = 0 := by
    intro zero
    rw [zero] at value
    change 0 = _ at value
    omega
  have most (limit : BitVec 32) (above : 11 ≤ limit.toNat) :
      ¬ (pll + spiSorceClk - 1) / spiSorceClk > limit := by
    rw [gt_iff_lt, BitVec.not_lt, BitVec.le_def, value]
    omega
  refine ⟨_, ?_, value, by rw [value]; exact range.1, by rw [value]; exact range.2⟩
  unfold spiDividers
  simp only [if_neg least]
  rw [if_neg (most _ (by decide)), if_neg (most _ (by decide)), if_neg (most _ (by decide)),
    if_neg (most _ (by decide))]

private theorem spiClkInit_spec {id : BitVec 32} (known : id = spi0 ∨ id = spi1) (s : SpiClocks) :
    ∃ m : BitVec 32, spiDividers (drvClkGetPllPeri1x s.toCcu) spiSorceClk = some (0, m) ∧
      m.toNat = modDivider (drvClkGetPllPeri1x s.toCcu).toNat ∧ 1 ≤ m.toNat ∧
      (spiClkInit id spiSorceClk s).1 = 0 ∧ (spiClkInit id spiSorceClk s).2.clk = s.clk ∧
      (spiClkInit id spiSorceClk s).2.toCcu = s.toCcu ∧
      (field ((spiClkInit id spiSorceClk s).2.modReg id) 8 2).toNat = 0 ∧
      (field ((spiClkInit id spiSorceClk s).2.modReg id) 0 4).toNat + 1 = m.toNat := by
  obtain ⟨m, dividers, value, least, most⟩ := spiDividers_spec s.toCcu
  have small : (m - 1).toNat = m.toNat - 1 := by
    rw [BitVec.toNat_sub]
    change (2 ^ 32 - 1 + m.toNat) % 2 ^ 32 = _
    omega
  have checked : ¬ (id ≠ spi0 ∧ id ≠ spi1) := by
    rintro ⟨other, other'⟩
    exact known.elim other other'
  have below : (m - 1).toNat < 2 ^ 4 := by omega
  let val : BitVec 32 := (1#32 <<< 31) ||| (0x1#32 <<< 24) ||| (0#32 <<< 8) ||| (m - 1)
  have n : (field val 8 2).toNat = 0 := by
    rw [field_or, field_small below (by decide)]
    decide
  have codeM : (field val 0 4).toNat + 1 = m.toNat := by
    have gates : field ((1#32 <<< 31) ||| (0x1#32 <<< 24) ||| (0#32 <<< 8)) 0 4 = 0#4 := by decide
    rw [field_or, gates, BitVec.zero_or, toNat_field_small below, small]
    omega
  refine ⟨m, dividers, value, least, ?_⟩
  unfold spiClkInit
  simp only [if_neg checked, dividers]
  rcases known with rfl | rfl
  · exact ⟨trivial, rfl, rfl, n, codeM⟩
  · exact ⟨trivial, rfl, rfl, n, codeM⟩

/-- How often a number is halved, rounding down, until it is at most another. -/
def LeastShift (a b k : Nat) : Prop := a / 2 ^ k ≤ b ∧ ∀ j < k, b < a / 2 ^ j

private theorem leastShift_unique {a b k k' : Nat} (h : LeastShift a b k) (h' : LeastShift a b k') :
    k = k' := by
  rcases Nat.lt_trichotomy k k' with less | same | more
  · exact absurd h.1 (Nat.not_le.mpr (h'.2 k less))
  · exact same
  · exact absurd h'.1 (Nat.not_le.mpr (h.2 k' more))

private theorem shiftDown_spec (spiClk div sclkClk : BitVec 32) : ∃ k,
    shiftDown spiClk div sclkClk = div + BitVec.ofNat 32 k ∧
      LeastShift sclkClk.toNat spiClk.toNat k := by
  induction div, sclkClk using shiftDown.induct spiClk with
  | case1 div sclkClk more ih =>
    obtain ⟨k, count, low, high⟩ := ih
    have first : spiClk.toNat < sclkClk.toNat := BitVec.lt_def.mp more
    rw [BitVec.toNat_ushiftRight, Nat.shiftRight_eq_div_pow, Nat.pow_one] at low high
    have halved (j : Nat) : sclkClk.toNat / 2 / 2 ^ j = sclkClk.toNat / 2 ^ (j + 1) := by
      rw [Nat.div_div_eq_div_mul, ← Nat.pow_succ']
    refine ⟨k + 1, ?_, by rw [← halved]; exact low, ?_⟩
    · rw [shiftDown, if_pos more, count, BitVec.add_assoc, BitVec.ofNat_add, BitVec.add_comm 1]
      rfl
    · intro j below
      cases j with
      | zero => rwa [Nat.pow_zero, Nat.div_one]
      | succ j =>
        rw [← halved]
        exact high j (by omega)
  | case2 div sclkClk less =>
    refine ⟨0, ?_, ?_, fun j below => absurd below (Nat.not_lt_zero j)⟩
    · rw [shiftDown, if_neg less]
      exact (BitVec.add_zero div).symm
    · rw [Nat.pow_zero, Nat.div_one]
      exact BitVec.le_def.mp (BitVec.not_lt.mp less)

private theorem spiSetClk_cdr2 (rate : BitVec 32) {cdr : BitVec 32} (mode : cdr ≠ 0)
    (val : BitVec 32) :
    field (spiSetClk rate spiSorceClk cdr val) 0 8 = field (spiDiv rate spiSorceClk cdr) 0 8 ∧
    (spiSetClk rate spiSorceClk cdr val).getLsbD 12 = true ∧
    ((spiDiv rate spiSorceClk cdr).toNat < 2 ^ 8 → ∀ k, 13 ≤ k →
      (spiSetClk rate spiSorceClk cdr val).getLsbD k = val.getLsbD k) := by
  have written : spiSetClk rate spiSorceClk cdr val =
      merge val (0xff#32 <<< 0) (spiDiv rate spiSorceClk cdr ||| (0x1#32 <<< 12)) := if_pos mode
  rw [written]
  generalize spiDiv rate spiSorceClk cdr = div
  refine ⟨?_, ?_, ?_⟩
  · rw [field_merge_covered _ _ (by decide) (by decide), field_or,
      show field (0x1#32 <<< 12) 0 8 = 0#8 by decide, BitVec.or_zero]
  · have set : (0x1#32 <<< 12).getLsbD 12 = true := by decide
    rw [merge, BitVec.getLsbD_or, BitVec.getLsbD_or, set, Bool.or_true, Bool.or_true]
  · intro small k behind
    apply getLsbD_merge_kept
    · exact getLsbD_small (by decide : (0xff#32 <<< 0).toNat < 2 ^ 8) (by omega)
    · rw [BitVec.getLsbD_or, getLsbD_small small (by omega),
        getLsbD_small (by decide : (0x1#32 <<< 12).toNat < 2 ^ 13) behind, Bool.or_false]

private theorem spiSetClk_cdr1 (rate val : BitVec 32) :
    field (spiSetClk rate spiSorceClk 0 val) 8 4 = field (spiDiv rate spiSorceClk 0) 0 4 ∧
    ((spiDiv rate spiSorceClk 0).toNat < 2 ^ 4 →
      (spiSetClk rate spiSorceClk 0 val).getLsbD 12 = false ∧
      ∀ k, 13 ≤ k → (spiSetClk rate spiSorceClk 0 val).getLsbD k = val.getLsbD k) := by
  have written : spiSetClk rate spiSorceClk 0 val =
      merge val ((0xf#32 <<< 8) ||| (0x1#32 <<< 12)) (spiDiv rate spiSorceClk 0 <<< 8) := by
    unfold spiSetClk
    exact if_neg (not_not_intro rfl)
  rw [written]
  generalize spiDiv rate spiSorceClk 0 = div
  refine ⟨?_, fun small => ⟨?_, fun k behind => ?_⟩⟩
  · rw [field_merge_covered _ _ (by decide) (by decide), field_shift _ (by decide)]
  · have clear : (div <<< 8).getLsbD 12 = false := by
      rw [BitVec.getLsbD_shiftLeft, getLsbD_small small (by decide), Bool.and_false]
    rw [merge, BitVec.getLsbD_or, BitVec.getLsbD_and, BitVec.getLsbD_not, clear,
      show ((0xf#32 <<< 8) ||| (0x1#32 <<< 12)).getLsbD 12 = true by decide]
    simp
  · apply getLsbD_merge_kept
    · exact getLsbD_small (by decide : ((0xf#32 <<< 8) ||| (0x1#32 <<< 12)).toNat < 2 ^ 13) behind
    · rw [BitVec.getLsbD_shiftLeft, getLsbD_small small (by omega : 4 ≤ k - 8), Bool.and_false]

/-- For a divider of the form 2 (n + 1): the rate, doubled in 32 bits, goes 1 to 256 times into
200 MHz, and the PLL divided by what is programmed is at most the rate. For one of the form 2^n:
at most 15 halvings bring 200 MHz down to the rate, and the same. -/
def Suits (pll rate : Nat) (cdr : BitVec 32) : Prop :=
  if cdr ≠ 0 then
    1 ≤ 200000000 / (rate * 2 % 2 ^ 32) ∧ 200000000 / (rate * 2 % 2 ^ 32) ≤ 256 ∧
      pll ≤ rate * (2 * (200000000 / (rate * 2 % 2 ^ 32)) * modDivider pll)
  else ∃ k ≤ 15, LeastShift 200000000 rate k ∧ pll ≤ rate * (2 ^ k * modDivider pll)

private theorem quotient_le_iff (a r : Nat) {b c : Nat} (hb : 0 < b) (hc : 0 < c) :
    (a : ℚ) / b / c ≤ r ↔ a ≤ r * (c * b) := by
  have positive : (0 : ℚ) < b * c := mul_pos (by exact_mod_cast hb) (by exact_mod_cast hc)
  rw [div_div, div_le_iff₀ positive, Nat.mul_comm c b]
  exact_mod_cast Iff.rfl

private theorem spiInitClk_spec {id : BitVec 32} (known : id = spi0 ∨ id = spi1)
    (rate cdr : BitVec 32) (s : SpiClocks) :
    (spiInitClk id rate cdr s).1 = 0 ∧
    (spiInitClk id rate cdr s).2.clk = spiSetClk rate spiSorceClk cdr s.clk ∧
    (∃ n m, spiDividers (drvClkGetPllPeri1x s.toCcu) spiSorceClk = some (n, m) ∧
      (field ((spiInitClk id rate cdr s).2.modReg id) 8 2).toNat = n.toNat ∧
      (field ((spiInitClk id rate cdr s).2.modReg id) 0 4).toNat + 1 = m.toNat) ∧
    (spiInitClk id rate cdr s).2.moduleClk id = (drvClkGetPllPeri1x s.toCcu).toNat /
      modDivider (drvClkGetPllPeri1x s.toCcu).toNat ∧
    0 < modDivider (drvClkGetPllPeri1x s.toCcu).toNat := by
  obtain ⟨m, dividers, value, least, ret, clk, ccu, fieldN, fieldM⟩ := spiClkInit_spec known s
  have run : spiInitClk id rate cdr s = (0, { (spiClkInit id spiSorceClk s).2 with
      clk := spiSetClk rate spiSorceClk cdr s.clk }) := by
    unfold spiInitClk
    rcases both : spiClkInit id spiSorceClk s with ⟨ret', s'⟩
    rw [both] at ret clk
    dsimp only at ret clk ⊢
    rw [if_neg (not_not_intro ret), clk]
  rw [run]
  refine ⟨rfl, rfl, ⟨0, m, dividers, fieldN, fieldM⟩, ?_, by omega⟩
  change ((drvClkGetPllPeri1x (spiClkInit id spiSorceClk s).2.toCcu).toNat : ℚ) /
    ((field ((spiClkInit id spiSorceClk s).2.modReg id) 0 4).toNat + 1 : ℕ) /
    2 ^ (field ((spiClkInit id spiSorceClk s).2.modReg id) 8 2).toNat = _
  rw [ccu, fieldN, fieldM, value, pow_zero, div_one]

private theorem fits_cdr2 {id cdr : BitVec 32} (known : id = spi0 ∨ id = spi1) (mode : cdr ≠ 0)
    (rate : BitVec 32) (s : SpiClocks) :
    Fits id rate cdr s (spiInitClk id rate cdr s).2 ↔
      Suits (drvClkGetPllPeri1x s.toCcu).toNat rate.toNat cdr := by
  obtain ⟨-, clk, modules, moduleClk, positive⟩ := spiInitClk_spec known rate cdr s
  obtain ⟨code, select, others⟩ := spiSetClk_cdr2 rate mode s.clk
  have quotient : (spiSorceClk / (rate * 2)).toNat = 200000000 / (rate.toNat * 2 % 2 ^ 32) := by
    rw [BitVec.toNat_udiv, BitVec.toNat_mul]
    rfl
  have div : spiDiv rate spiSorceClk cdr = spiSorceClk / (rate * 2) - 1 := if_pos mode
  have divider (some : 1 ≤ (spiSorceClk / (rate * 2)).toNat) :
      (spiDiv rate spiSorceClk cdr).toNat = 200000000 / (rate.toNat * 2 % 2 ^ 32) - 1 := by
    have width := (spiSorceClk / (rate * 2)).isLt
    rw [div, BitVec.toNat_sub, ← quotient]
    change (2 ^ 32 - 1 + (spiSorceClk / (rate * 2)).toNat) % 2 ^ 32 = _
    omega
  have serial (some : 1 ≤ 200000000 / (rate.toNat * 2 % 2 ^ 32))
      (small : 200000000 / (rate.toNat * 2 % 2 ^ 32) ≤ 256) :
      (spiInitClk id rate cdr s).2.serialClk id ≤ rate.toNat ↔
        (drvClkGetPllPeri1x s.toCcu).toNat ≤ rate.toNat *
          (2 * (200000000 / (rate.toNat * 2 % 2 ^ 32)) *
            modDivider (drvClkGetPllPeri1x s.toCcu).toNat) := by
    have whole := divider (by rw [quotient]; exact some)
    have programmed : (field (spiSetClk rate spiSorceClk cdr s.clk) 0 8).toNat + 1 =
        200000000 / (rate.toNat * 2 % 2 ^ 32) := by
      rw [code, toNat_field_small (by rw [whole]; omega), whole]
      omega
    unfold SpiClocks.serialClk
    rw [clk, select, if_pos rfl, moduleClk, programmed]
    exact quotient_le_iff _ _ positive (by omega)
  unfold Suits
  rw [if_pos mode, ← quotient]
  constructor
  · rintro ⟨-, encoded, -, -, some, clock⟩
    have some := some mode
    rw [if_pos mode, clk, code] at encoded
    have width := (field (spiDiv rate spiSorceClk cdr) 0 8).isLt
    have small : 200000000 / (rate.toNat * 2 % 2 ^ 32) ≤ 256 := by
      have whole := divider some
      omega
    refine ⟨some, by rw [quotient]; exact small, ?_⟩
    rw [quotient]
    exact (serial (by rwa [← quotient]) small).mp clock
  · rintro ⟨some, small, slow⟩
    have whole := divider some
    have below : (spiDiv rate spiSorceClk cdr).toNat < 2 ^ 8 := by
      rw [quotient] at small
      omega
    refine ⟨modules, ?_, ?_, ?_, fun _ => some, ?_⟩
    · rw [if_pos mode, clk, code, toNat_field_small below]
    · rw [clk, select, decide_eq_true mode]
    · rw [clk]
      exact others below
    · rw [quotient] at some small slow
      exact (serial some small).mpr slow

private theorem fits_cdr1 {id : BitVec 32} (known : id = spi0 ∨ id = spi1) {rate : BitVec 32}
    (request : 0 < rate.toNat) (s : SpiClocks) :
    Fits id rate 0 s (spiInitClk id rate 0 s).2 ↔
      Suits (drvClkGetPllPeri1x s.toCcu).toNat rate.toNat 0 := by
  obtain ⟨-, clk, modules, moduleClk, positive⟩ := spiInitClk_spec known rate 0 s
  obtain ⟨code, small⟩ := spiSetClk_cdr1 rate s.clk
  obtain ⟨k, count, least⟩ := shiftDown_spec rate 0 spiSorceClk
  have mode : ¬ (0 : BitVec 32) ≠ 0 := not_not_intro rfl
  have least : LeastShift 200000000 rate.toNat k := least
  have few : k ≤ 28 := by
    apply Nat.le_of_not_lt
    intro many
    exact absurd (least.2 28 many) (by omega)
  have divider : (spiDiv rate spiSorceClk 0).toNat = k := by
    unfold spiDiv
    rw [if_neg mode, count, BitVec.toNat_add, BitVec.toNat_ofNat]
    change (0 + k % 2 ^ 32) % 2 ^ 32 = k
    omega
  have serial (fits : k ≤ 15) : (spiInitClk id rate 0 s).2.serialClk id ≤ rate.toNat ↔
      (drvClkGetPllPeri1x s.toCcu).toNat ≤ rate.toNat *
        (2 ^ k * modDivider (drvClkGetPllPeri1x s.toCcu).toNat) := by
    have below : (spiDiv rate spiSorceClk 0).toNat < 2 ^ 4 := by omega
    unfold SpiClocks.serialClk
    rw [clk, (small below).1, if_neg Bool.false_ne_true, moduleClk, code,
      toNat_field_small below, divider, ← quotient_le_iff _ _ positive (Nat.two_pow_pos k)]
    rw [Nat.cast_pow, Nat.cast_ofNat]
  unfold Suits
  rw [if_neg mode]
  constructor
  · rintro ⟨-, encoded, -, -, -, clock⟩
    rw [if_neg mode, clk, code] at encoded
    have width := (field (spiDiv rate spiSorceClk 0) 0 4).isLt
    have fits : k ≤ 15 := by omega
    exact ⟨k, fits, least, (serial fits).mp clock⟩
  · rintro ⟨k', fits, least', slow⟩
    obtain rfl := leastShift_unique least least'
    have below : (spiDiv rate spiSorceClk 0).toNat < 2 ^ 4 := by omega
    refine ⟨modules, ?_, ?_, ?_, fun other => absurd rfl other, (serial fits).mpr slow⟩
    · rw [if_neg mode, clk, code, toNat_field_small below]
    · rw [clk, (small below).1]
      rfl
    · rw [clk]
      exact (small below).2

/-- For which rates the clock is programmed as it should be: neither the quotient's rounding nor
its underflow is looked at, nor whether it fits. -/
theorem spiClock_fits_iff {id rate : BitVec 32} (known : id = spi0 ∨ id = spi1)
    (request : 0 < rate.toNat) (cdr : BitVec 32) (s : SpiClocks) :
    (spiInitClk id rate cdr s).1 = 0 ∧ Fits id rate cdr s (spiInitClk id rate cdr s).2 ↔
      Suits (drvClkGetPllPeri1x s.toCcu).toNat rate.toNat cdr := by
  rw [and_iff_right (spiInitClk_spec known rate cdr s).1]
  by_cases mode : cdr = 0
  · rw [mode]
    exact fits_cdr1 known request s
  · exact fits_cdr2 known mode rate s

/-- With the PLL at 600 MHz and the divider that `spi_init` chooses, the rates that suit are the
divisors of 100 MHz from 390625 Hz on. -/
theorem suits_600MHz {rate : Nat} (request : 0 < rate) (narrow : rate < 2 ^ 31) :
    Suits 600000000 rate 1 ↔ rate ∣ 100000000 ∧ 390625 ≤ rate := by
  have doubled : rate * 2 % 2 ^ 32 = 2 * rate := by omega
  have quotient : 200000000 / (2 * rate) = 100000000 / rate := by
    rw [← Nat.div_div_eq_div_mul]
  unfold Suits
  rw [if_pos (by decide), doubled, quotient, show modDivider 600000000 = 3 from rfl]
  have division := Nat.div_add_mod 100000000 rate
  have rest := Nat.mod_lt 100000000 request
  have products : rate * (2 * (100000000 / rate) * 3) = 6 * (rate * (100000000 / rate)) := by
    rw [Nat.mul_comm 2, Nat.mul_assoc, ← Nat.mul_assoc, Nat.mul_comm _ (2 * 3)]
  rw [products, Nat.dvd_iff_mod_eq_zero]
  constructor
  · rintro ⟨-, most, slow⟩
    have bound : rate * (100000000 / rate) ≤ rate * 256 := Nat.mul_le_mul_left rate most
    omega
  · rintro ⟨divides, large⟩
    have most : 100000000 / rate ≤ 100000000 / 390625 := Nat.div_le_div_left large (by decide)
    have some : 100000000 / rate ≠ 0 := by
      intro none
      rw [none, Nat.mul_zero] at division
      omega
    generalize 100000000 / rate = q at *
    omega

/-- The PLL at 600 MHz, everything else zero. -/
def coldClocks : SpiClocks :=
  { pllPeriCtrl := 0x16300, psiClk := 0, apb0Clk := 0, apb1Clk := 0, smhc0Clk := 0, smhcBgr := 0
    spiBgr := 0, spi0Clk := 0, spi1Clk := 0, clk := 0 }

private theorem coldClocks_pll : (drvClkGetPllPeri1x coldClocks.toCcu).toNat = 600000000 := by
  decide

/-- Above 100 MHz the divider underflows. -/
theorem spiClock_underflows : ¬ ∀ (id rate cdr : BitVec 32) (s : SpiClocks), id = spi0 ∨ id = spi1 →
    0 < rate.toNat →
      (spiInitClk id rate cdr s).1 = 0 ∧ Fits id rate cdr s (spiInitClk id rate cdr s).2 := by
  intro claimed
  have fits := (claimed spi0 150000000 1 coldClocks (.inl rfl) (by decide)).2
  exact absurd (fits.noUnderflow (by decide)) (by decide)

/-- The rate of the boot loader. -/
theorem spiClock_fits_100MHz : (spiInitClk spi0 100000000 1 coldClocks).1 = 0 ∧
    Fits spi0 100000000 1 coldClocks (spiInitClk spi0 100000000 1 coldClocks).2 := by
  refine (spiClock_fits_iff (.inl rfl) (by decide) 1 coldClocks).mpr ?_
  rw [coldClocks_pll]
  exact (suits_600MHz (by decide) (by decide)).mpr (by decide)

end T113Boot.Drivers.SpiClock
