/- Module: T113Boot/Drivers/Iomux
   layer: model
   digest: The pin multiplexer: selecting a function and a pull, and the fields of every pin. -/

import T113Boot.Lib.BitFields

set_option autoImplicit false
set_option relaxedAutoImplicit false

namespace T113Boot.Drivers.Iomux

open T113Boot.Lib.BitFields

/-! The driver. Boot loader and application have the same code. -/

/-- The registers by their addresses. -/
abbrev Regs := BitVec 32 → BitVec 32

def writel (regs : Regs) (val addr : BitVec 32) : Regs := fun a => if a = addr then val else regs a

/-- `struct iomux_cfg`; the enumerations are unsigned on the target. -/
structure IomuxCfg where
  port : BitVec 32
  pin : BitVec 32
  mux : BitVec 32
  pull : BitVec 32

def ioPortB : BitVec 32 := 0
def ioPortG : BitVec 32 := 5
def pin0 : BitVec 32 := 0
def pin31 : BitVec 32 := 31
def gpioInput : BitVec 32 := 0
def ioDisabled : BitVec 32 := 0xf
def ioPullNone : BitVec 32 := 0x0
def ioPullUp : BitVec 32 := 0x1
def ioPullDown : BitVec 32 := 0x2
def ioPullReserve : BitVec 32 := 0x3

def regGpioCfg0 : BitVec 32 := 0x00
def regGpioPul0 : BitVec 32 := 0x24

def ioPin (x y : BitVec 32) : BitVec 32 := (x <<< 5) ||| y

def portBase (pin : BitVec 32) : BitVec 32 :=
  let port := pin >>> 5
  if port = 0 then 0x02000030
  else if port = 1 then 0x02000060
  else if port = 2 then 0x02000090
  else if port = 3 then 0x020000c0
  else if port = 4 then 0x020000f0
  else if port = 5 then 0x02000120
  else 0

def pinNum (pin : BitVec 32) : BitVec 32 := pin &&& ((1#32 <<< 5) - 1)

/-- The register with the function of a pin, and where its field begins. -/
def muxAddr (port pin : BitVec 32) : BitVec 32 :=
  portBase (ioPin port pin) + regGpioCfg0 + ((pinNum (ioPin port pin) >>> 3) <<< 2)

def muxShift (port pin : BitVec 32) : BitVec 32 := (pinNum (ioPin port pin) &&& 0x7) <<< 2

/-- The register with the pull of a pin, and where its field begins. -/
def pullAddr (port pin : BitVec 32) : BitVec 32 :=
  portBase (ioPin port pin) + regGpioPul0 + ((pinNum (ioPin port pin) >>> 4) <<< 2)

def pullShift (port pin : BitVec 32) : BitVec 32 := (pinNum (ioPin port pin) &&& 0xf) <<< 1

def setMux (regs : Regs) (iocfg : IomuxCfg) : Regs :=
  let addr := muxAddr iocfg.port iocfg.pin
  let val := regs addr
  let val := val &&& ~~~(0xf#32 <<< muxShift iocfg.port iocfg.pin)
  let val := val ||| ((iocfg.mux &&& 0xf) <<< muxShift iocfg.port iocfg.pin)
  writel regs val addr

def setPull (regs : Regs) (iocfg : IomuxCfg) (v : BitVec 32) : Regs :=
  let addr := pullAddr iocfg.port iocfg.pin
  let val := regs addr
  let val := val &&& ~~~(v <<< pullShift iocfg.port iocfg.pin)
  let val := val ||| (v <<< pullShift iocfg.port iocfg.pin)
  writel regs val addr

def iomuxSetSel (regs : Regs) (iocfg : IomuxCfg) : Int × Regs :=
  if iocfg.port > ioPortG ∨ iocfg.port < ioPortB then (-1, regs)
  else if iocfg.pin > pin31 ∨ iocfg.pin < pin0 then (-1, regs)
  else if iocfg.mux > ioDisabled ∨ iocfg.mux < gpioInput then (-1, regs)
  else if iocfg.pull > ioPullReserve ∨ iocfg.pull < ioPullNone then (-1, regs)
  else
    let regs := setMux regs iocfg
    if iocfg.pull = ioPullNone then (0, setPull regs iocfg 0x0)
    else if iocfg.pull = ioPullUp then (0, setPull regs iocfg 0x1)
    else if iocfg.pull = ioPullDown then (0, setPull regs iocfg 0x2)
    else if iocfg.pull = ioPullReserve then (0, regs)
    else (-1, regs)

def OnChip (port pin : BitVec 32) : Prop := port.toNat ≤ 5 ∧ pin.toNat ≤ 31

/-- What the driver takes. -/
structure Accepted (iocfg : IomuxCfg) : Prop where
  onChip : OnChip iocfg.port iocfg.pin
  mux : iocfg.mux.toNat ≤ 15
  pull : iocfg.pull.toNat ≤ 3

def muxField (regs : Regs) (port pin : BitVec 32) : BitVec 4 :=
  field (regs (muxAddr port pin)) (muxShift port pin).toNat 4

def pullField (regs : Regs) (port pin : BitVec 32) : BitVec 2 :=
  field (regs (pullAddr port pin)) (pullShift port pin).toNat 2

private theorem not_below_zero (x : BitVec 32) : ¬ x < 0 := by
  rw [BitVec.lt_def]
  exact Nat.not_lt_zero _

private theorem above_iff (x y : BitVec 32) : (x > y ∨ x < 0) ↔ ¬ x.toNat ≤ y.toNat := by
  rw [or_iff_left (not_below_zero x), gt_iff_lt, BitVec.lt_def, Nat.not_le]

private theorem ioPin_toNat {port pin : BitVec 32} (onChip : OnChip port pin) :
    (ioPin port pin).toNat = 32 * port.toNat + pin.toNat := by
  obtain ⟨hport, hpin⟩ := onChip
  have shifted : (port <<< 5).toNat = port.toNat <<< 5 := by
    rw [BitVec.toNat_shiftLeft, Nat.shiftLeft_eq]
    omega
  have below : pin.toNat < 2 ^ 5 := by omega
  rw [ioPin, BitVec.toNat_or, shifted, ← Nat.shiftLeft_add_eq_or_of_lt below, Nat.shiftLeft_eq]
  omega

private theorem pinNum_toNat {port pin : BitVec 32} (onChip : OnChip port pin) :
    (pinNum (ioPin port pin)).toNat = pin.toNat := by
  have mask : ((1#32 <<< 5) - 1).toNat = 2 ^ 5 - 1 := rfl
  rw [pinNum, BitVec.toNat_and, mask, Nat.and_two_pow_sub_one_eq_mod, ioPin_toNat onChip]
  have := onChip.2
  omega

private theorem portBase_toNat {port pin : BitVec 32} (onChip : OnChip port pin) :
    (portBase (ioPin port pin)).toNat = 0x02000030 + 0x30 * port.toNat := by
  have shifted : ioPin port pin >>> 5 = port := by
    apply BitVec.eq_of_toNat_eq
    rw [BitVec.toNat_ushiftRight, ioPin_toNat onChip, Nat.shiftRight_eq_div_pow]
    have := onChip.2
    omega
  have ports : port = 0 ∨ port = 1 ∨ port = 2 ∨ port = 3 ∨ port = 4 ∨ port = 5 := by
    have bound := onChip.1
    simp only [← BitVec.toNat_inj]
    change port.toNat = 0 ∨ port.toNat = 1 ∨ port.toNat = 2 ∨ port.toNat = 3 ∨ port.toNat = 4 ∨
      port.toNat = 5
    omega
  unfold portBase
  rw [shifted]
  rcases ports with rfl | rfl | rfl | rfl | rfl | rfl <;> rfl

theorem muxAddr_toNat {port pin : BitVec 32} (onChip : OnChip port pin) :
    (muxAddr port pin).toNat = 0x02000030 + 0x30 * port.toNat + 4 * (pin.toNat / 8) := by
  have zero : regGpioCfg0.toNat = 0 := rfl
  obtain ⟨hport, hpin⟩ := onChip
  rw [muxAddr, BitVec.toNat_add, BitVec.toNat_add, BitVec.toNat_shiftLeft,
    BitVec.toNat_ushiftRight, pinNum_toNat ⟨hport, hpin⟩, portBase_toNat ⟨hport, hpin⟩,
    Nat.shiftRight_eq_div_pow, Nat.shiftLeft_eq, zero]
  omega

theorem pullAddr_toNat {port pin : BitVec 32} (onChip : OnChip port pin) :
    (pullAddr port pin).toNat = 0x02000054 + 0x30 * port.toNat + 4 * (pin.toNat / 16) := by
  have offset : regGpioPul0.toNat = 0x24 := rfl
  obtain ⟨hport, hpin⟩ := onChip
  rw [pullAddr, BitVec.toNat_add, BitVec.toNat_add, BitVec.toNat_shiftLeft,
    BitVec.toNat_ushiftRight, pinNum_toNat ⟨hport, hpin⟩, portBase_toNat ⟨hport, hpin⟩,
    Nat.shiftRight_eq_div_pow, Nat.shiftLeft_eq, offset]
  omega

theorem muxShift_toNat {port pin : BitVec 32} (onChip : OnChip port pin) :
    (muxShift port pin).toNat = 4 * (pin.toNat % 8) := by
  have mask : (0x7 : BitVec 32).toNat = 2 ^ 3 - 1 := rfl
  rw [muxShift, BitVec.toNat_shiftLeft, BitVec.toNat_and, mask, Nat.and_two_pow_sub_one_eq_mod,
    pinNum_toNat onChip, Nat.shiftLeft_eq]
  omega

theorem pullShift_toNat {port pin : BitVec 32} (onChip : OnChip port pin) :
    (pullShift port pin).toNat = 2 * (pin.toNat % 16) := by
  have mask : (0xf : BitVec 32).toNat = 2 ^ 4 - 1 := rfl
  rw [pullShift, BitVec.toNat_shiftLeft, BitVec.toNat_and, mask, Nat.and_two_pow_sub_one_eq_mod,
    pinNum_toNat onChip, Nat.shiftLeft_eq]
  omega

private theorem checks (iocfg : IomuxCfg) :
    ((iocfg.port > ioPortG ∨ iocfg.port < ioPortB) ↔ ¬ iocfg.port.toNat ≤ 5) ∧
    ((iocfg.pin > pin31 ∨ iocfg.pin < pin0) ↔ ¬ iocfg.pin.toNat ≤ 31) ∧
    ((iocfg.mux > ioDisabled ∨ iocfg.mux < gpioInput) ↔ ¬ iocfg.mux.toNat ≤ 15) ∧
    ((iocfg.pull > ioPullReserve ∨ iocfg.pull < ioPullNone) ↔ ¬ iocfg.pull.toNat ≤ 3) :=
  ⟨above_iff _ _, above_iff _ _, above_iff _ _, above_iff _ _⟩

theorem iomuxSetSel_accepted (regs : Regs) {iocfg : IomuxCfg} (accepted : Accepted iocfg) :
    iomuxSetSel regs iocfg = (0, if iocfg.pull = ioPullReserve then setMux regs iocfg
      else setPull (setMux regs iocfg) iocfg iocfg.pull) := by
  obtain ⟨⟨port, pin⟩, mux, pull⟩ := accepted
  obtain ⟨checkPort, checkPin, checkMux, checkPull⟩ := checks iocfg
  have pulls : iocfg.pull = 0x0 ∨ iocfg.pull = 0x1 ∨ iocfg.pull = 0x2 ∨ iocfg.pull = 0x3 := by
    simp only [← BitVec.toNat_inj]
    change iocfg.pull.toNat = 0 ∨ iocfg.pull.toNat = 1 ∨ iocfg.pull.toNat = 2 ∨
      iocfg.pull.toNat = 3
    omega
  unfold iomuxSetSel
  rw [if_neg (mt checkPort.mp (not_not_intro port)), if_neg (mt checkPin.mp (not_not_intro pin)),
    if_neg (mt checkMux.mp (not_not_intro mux)), if_neg (mt checkPull.mp (not_not_intro pull))]
  rcases pulls with is | is | is | is <;> rw [is] <;> rfl

/-- The driver takes exactly these arguments, and nothing happens on others. -/
theorem iomuxSetSel_refused (regs : Regs) {iocfg : IomuxCfg} (refused : ¬ Accepted iocfg) :
    iomuxSetSel regs iocfg = (-1, regs) := by
  obtain ⟨checkPort, checkPin, checkMux, checkPull⟩ := checks iocfg
  unfold iomuxSetSel
  by_cases port : iocfg.port.toNat ≤ 5
  · rw [if_neg (mt checkPort.mp (not_not_intro port))]
    by_cases pin : iocfg.pin.toNat ≤ 31
    · rw [if_neg (mt checkPin.mp (not_not_intro pin))]
      by_cases mux : iocfg.mux.toNat ≤ 15
      · have pull : ¬ iocfg.pull.toNat ≤ 3 := fun pull => refused ⟨⟨port, pin⟩, mux, pull⟩
        rw [if_neg (mt checkMux.mp (not_not_intro mux)), if_pos (checkPull.mpr pull)]
      · rw [if_pos (checkMux.mpr mux)]
    · rw [if_pos (checkPin.mpr pin)]
  · rw [if_pos (checkPort.mpr port)]

end T113Boot.Drivers.Iomux
