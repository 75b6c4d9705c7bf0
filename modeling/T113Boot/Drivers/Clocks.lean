/- Module: T113Boot/Drivers/Clocks
   layer: model
   digest: The clock unit's registers, and how the drivers set and read the bus and SD clocks. -/

import T113Boot.Lib.BitFields

set_option autoImplicit false
set_option relaxedAutoImplicit false

namespace T113Boot.Drivers.Clocks

/-- The registers of the clock unit that the bus clocks and the SD clock depend on. -/
structure Ccu where
  pllPeriCtrl : BitVec 32
  psiClk : BitVec 32
  apb0Clk : BitVec 32
  apb1Clk : BitVec 32
  smhc0Clk : BitVec 32
  smhcBgr : BitVec 32

def hosc : BitVec 32 := 24000000

def drvClkGetPllPeri1x (ccu : Ccu) : BitVec 32 :=
  let val := ccu.pllPeriCtrl
  let p := ((val >>> 16) &&& 0x7#32) + 1
  let n := ((val >>> 8) &&& 0xff#32) + 1
  let m := (val &&& 0x1#32) + 1
  (24000000 * n) / (m * p * 2)

/-! The bus clocks. Boot loader and application have the same code. -/

/-- What `init_ahb_clk`, `init_apb0_clk` and `init_apb1_clk` make of the value they have read. -/
def busClkVal (ccu : Ccu) (freq limit val : BitVec 32) : BitVec 32 :=
  let val := val &&& ~~~((0x3#32 <<< 24) ||| (0x3#32 <<< 8) ||| (0x3#32 <<< 0))
  let val := val ||| (0x3#32 <<< 24)
  let val := val ||| (0#32 <<< 8)
  let m := drvClkGetPllPeri1x ccu / freq
  let m := if m - 1 > limit then limit else m
  val ||| ((m - 1) <<< 0)

def initAhbClk (freq : BitVec 32) (ccu : Ccu) : Ccu :=
  { ccu with psiClk := busClkVal ccu freq 0x3 ccu.psiClk }

def initApb0Clk (freq : BitVec 32) (ccu : Ccu) : Ccu :=
  { ccu with apb0Clk := busClkVal ccu freq 0xfe ccu.apb0Clk }

def initApb1Clk (freq : BitVec 32) (ccu : Ccu) : Ccu :=
  { ccu with apb1Clk := busClkVal ccu freq 0xfe ccu.apb1Clk }

/-- What the three functions that read a bus clock compute: they differ in the register, in its
source number 2 and in the width of M. -/
def busClk (ccu : Ccu) (val source2 mask : BitVec 32) : BitVec 32 :=
  let source := (val >>> 24) &&& 0x3#32
  let sclk :=
    if source = 0x0 then hosc
    else if source = 0x1 then 32000
    else if source = 0x2 then source2
    else drvClkGetPllPeri1x ccu
  let m := ((val >>> 0) &&& mask) + 1
  let n := 1#32 <<< ((val >>> 8) &&& 0x3#32)
  sclk / m / n

def drvClkGetAhbsClk (ccu : Ccu) : BitVec 32 := busClk ccu ccu.psiClk 16000000 0x3

def drvClkGetApb0Clk (ccu : Ccu) : BitVec 32 := busClk ccu ccu.apb0Clk (drvClkGetAhbsClk ccu) 0x1f

def drvClkGetApb1Clk (ccu : Ccu) : BitVec 32 := busClk ccu ccu.apb1Clk (drvClkGetAhbsClk ccu) 0x1f

/-- `while (div > 16) { n++; div = (div + 1) / 2; }` -/
def halve (n div : BitVec 32) : BitVec 32 × BitVec 32 :=
  if div > 16 then halve (n + 1) ((div + 1) / 2) else (n, div)
termination_by div.toNat
decreasing_by
  have more : 16 < div.toNat := BitVec.lt_def.mp ‹div > 16›
  have sum : (div + 1).toNat ≤ div.toNat + 1 := by
    rw [BitVec.toNat_add]
    exact Nat.mod_le _ _
  rw [BitVec.toNat_udiv]
  change (div + 1).toNat / 2 < div.toNat
  omega

/-- The source that `init_smhc0_clk` selects for a module clock, and its frequency. -/
def smhc0Source (ccu : Ccu) (modClk : BitVec 32) : BitVec 32 × BitVec 32 :=
  if modClk ≤ 24000000 then (0#32, 24000000) else (0x01#32, drvClkGetPllPeri1x ccu)

/-- The dividers `n` and `div` that `init_smhc0_clk` computes. -/
def smhc0Dividers (ccu : Ccu) (freq : BitVec 32) : BitVec 32 × BitVec 32 :=
  let modClk := freq * 2
  let pllClk := (smhc0Source ccu modClk).2
  let div := pllClk / modClk
  let div := if pllClk % modClk ≠ 0 then div + 1 else div
  halve 0 div

def initSmhc0Clk (freq : BitVec 32) (ccu : Ccu) : Ccu :=
  let ccu := { ccu with smhcBgr := ccu.smhcBgr ||| (1#32 <<< 16) }
  let val := ccu.smhc0Clk &&& ~~~(0x01#32 <<< 31)
  let ccu := { ccu with smhc0Clk := val }
  let val := val &&& ~~~(0x7#32 <<< 24)
  if freq = 0 then ccu
  else
    let val := val ||| ((smhc0Source ccu (freq * 2)).1 <<< 24)
    let (n, div) := smhc0Dividers ccu freq
    if n > 3 then ccu
    else
      let val := val ||| (0x01#32 <<< 31)
      let val := val ||| ((n <<< 8) ||| (div - 1))
      { ccu with smhc0Clk := val, smhcBgr := ccu.smhcBgr ||| 0x01 }

private theorem toNat_read_le (w : BitVec 32) (i : Nat) (mask : BitVec 32) :
    ((w >>> i) &&& mask).toNat ≤ mask.toNat := by
  rw [BitVec.toNat_and]
  exact Nat.and_le_right

theorem pllPeri1x_large (ccu : Ccu) : 1024 < (drvClkGetPllPeri1x ccu).toNat := by
  have hp : ((ccu.pllPeriCtrl >>> 16) &&& 0x7#32).toNat ≤ 7 := toNat_read_le _ _ _
  have hn : ((ccu.pllPeriCtrl >>> 8) &&& 0xff#32).toNat ≤ 255 := toNat_read_le _ _ _
  have hm : (ccu.pllPeriCtrl &&& 0x1#32).toNat ≤ 1 := toNat_read_le _ 0 _
  unfold drvClkGetPllPeri1x
  simp only [BitVec.toNat_udiv, BitVec.toNat_mul, BitVec.toNat_add]
  generalize ((ccu.pllPeriCtrl >>> 16) &&& 0x7#32).toNat = p at *
  generalize ((ccu.pllPeriCtrl >>> 8) &&& 0xff#32).toNat = n at *
  generalize (ccu.pllPeriCtrl &&& 0x1#32).toNat = m at *
  have product : (m + 1) * (p + 1) ≤ 2 * 8 := Nat.mul_le_mul (by omega) (by omega)
  have positive : 0 < (m + 1) * (p + 1) := Nat.mul_pos (Nat.succ_pos m) (Nat.succ_pos p)
  change 1024 < 24000000 * ((n + 1) % 4294967296) % 4294967296 /
    ((m + 1) % 4294967296 * ((p + 1) % 4294967296) % 4294967296 * 2 % 4294967296)
  rw [Nat.mod_eq_of_lt (by omega : n + 1 < 4294967296),
    Nat.mod_eq_of_lt (by omega : m + 1 < 4294967296),
    Nat.mod_eq_of_lt (by omega : p + 1 < 4294967296),
    Nat.mod_eq_of_lt (by omega : (m + 1) * (p + 1) < 4294967296),
    Nat.mod_eq_of_lt (by omega : (m + 1) * (p + 1) * 2 < 4294967296)]
  -- The multiple of 24 MHz wraps from 179 on, and 179 itself leaves the least remainder.
  have numerator : 1032704 ≤ 24000000 * (n + 1) % 4294967296 := by
    by_cases wraps : n < 178
    · rw [Nat.mod_eq_of_lt (by omega)]
      omega
    · rw [Nat.mod_eq_sub_mod (by omega), Nat.mod_eq_of_lt (by omega)]
      omega
  exact Nat.lt_of_lt_of_le (by decide : 1024 < 1032704 / 32)
    (Nat.div_le_div numerator (by omega) (by omega))

private theorem div_even_lt (a b : Nat) : a % 2 ^ 32 / (b * 2 % 2 ^ 32) < 2 ^ 31 := by
  have numerator : a % 2 ^ 32 < 2 ^ 32 := Nat.mod_lt _ (by decide)
  by_cases zero : b * 2 % 2 ^ 32 = 0
  · rw [zero, Nat.div_zero]
    decide
  · have bound : a % 2 ^ 32 / (b * 2 % 2 ^ 32) ≤ a % 2 ^ 32 / 2 :=
      Nat.div_le_div_left (by omega) (by decide)
    omega

theorem pllPeri1x_half (ccu : Ccu) : (drvClkGetPllPeri1x ccu).toNat < 2 ^ 31 := by
  unfold drvClkGetPllPeri1x
  simp only [BitVec.toNat_udiv, BitVec.toNat_mul]
  exact div_even_lt _ _

theorem halve_spec {j : Nat} (few : j ≤ 27) (n div : BitVec 32) (positive : 1 ≤ div.toNat)
    (bound : div.toNat ≤ 16 * 2 ^ j) : ∃ k ≤ j, (halve n div).1 = n + BitVec.ofNat 32 k ∧
      1 ≤ (halve n div).2.toNat ∧ (halve n div).2.toNat ≤ 16 ∧
      div.toNat ≤ (halve n div).2.toNat * 2 ^ k := by
  induction j generalizing n div with
  | zero =>
    have done : ¬ div > 16 := fun more => by
      have more : 16 < div.toNat := BitVec.lt_def.mp more
      omega
    rw [halve, if_neg done]
    exact ⟨0, Nat.le_refl 0, (BitVec.add_zero n).symm, positive, bound,
      Nat.le_of_eq (Nat.mul_one _).symm⟩
  | succ j ih =>
    by_cases more : div > 16
    · have above : 16 < div.toNat := BitVec.lt_def.mp more
      have range : 2 ^ (j + 1) ≤ 2 ^ 27 := Nat.pow_le_pow_right (by decide) few
      have half : ((div + 1) / 2).toNat = (div.toNat + 1) / 2 := by
        rw [BitVec.toNat_udiv, BitVec.toNat_add]
        change (div.toNat + 1) % 2 ^ 32 / 2 = _
        rw [Nat.mod_eq_of_lt (by omega)]
      obtain ⟨k, small, count, least, most, covers⟩ := ih (by omega) (n + 1) ((div + 1) / 2)
        (by omega) (by rw [half]; omega)
      rw [halve, if_pos more]
      refine ⟨k + 1, by omega, ?_, least, most, ?_⟩
      · rw [count, BitVec.add_assoc, BitVec.ofNat_add, BitVec.add_comm 1]
        rfl
      · rw [half] at covers
        rw [Nat.pow_succ, ← Nat.mul_assoc]
        omega
    · rw [halve, if_neg more]
      have below : div.toNat ≤ 16 := by
        exact BitVec.le_def.mp (BitVec.not_lt.mp more)
      exact ⟨0, Nat.zero_le _, (BitVec.add_zero n).symm, positive, below,
        Nat.le_of_eq (Nat.mul_one _).symm⟩

@[simp] theorem initSmhc0Clk_pllPeri1x (freq : BitVec 32) (ccu : Ccu) :
    drvClkGetPllPeri1x (initSmhc0Clk freq ccu) = drvClkGetPllPeri1x ccu := by
  unfold initSmhc0Clk
  dsimp only
  split
  · rfl
  · split <;> rfl

@[simp] theorem smhc0Dividers_init (freq next : BitVec 32) (ccu : Ccu) :
    smhc0Dividers (initSmhc0Clk freq ccu) next = smhc0Dividers ccu next := by
  unfold smhc0Dividers smhc0Source
  rw [initSmhc0Clk_pllPeri1x]

end T113Boot.Drivers.Clocks
