/- Module: T113Boot/FirstStage/Spi
   layer: model
   digest: The SPI NAND types that the first stage knows, and its driver over such a chip. -/

import T113Boot.Lib.Cells

set_option autoImplicit false
set_option relaxedAutoImplicit false

namespace T113Boot.FirstStage.Spi

open T113Boot.Lib.Cells

/-- `spi_io_mode_t`. The switch of `spi_nand_read` has its error only for values outside it. -/
inductive SpiIoMode
  | single
  | dualRx
  | quadRx
  | quadIo
deriving DecidableEq

structure SpiNandId where
  mfr : UInt8
  dev : UInt16
  dlen : UInt8
deriving DecidableEq

/-- `spi_nand_info_t`, as far as the driver reads it. -/
structure SpiNandInfo where
  id : SpiNandId
  pageSize : UInt32
  mode : SpiIoMode
deriving DecidableEq

def mfrWinbond : UInt8 := 0xEF
def mfrGigadevice : UInt8 := 0xC8
def mfrMacronix : UInt8 := 0xC2
def mfrMicron : UInt8 := 0x2C

/-- `spi_nand_infos`, in its order. -/
def spiNandInfos : List SpiNandInfo :=
  [⟨⟨mfrWinbond, 0xAA20, 2⟩, 2048, .quadRx⟩,    -- W25N512GV
   ⟨⟨mfrWinbond, 0xAA21, 2⟩, 2048, .quadRx⟩,    -- W25N01GV
   ⟨⟨mfrWinbond, 0xAB21, 2⟩, 2048, .quadRx⟩,    -- W25M02GV
   ⟨⟨mfrWinbond, 0xAA22, 2⟩, 2048, .quadRx⟩,    -- W25N02KV
   ⟨⟨0xCD, 0x7272, 2⟩, 2048, .single⟩,          -- F35SQA002G
   ⟨⟨mfrGigadevice, 0x10, 1⟩, 2048, .quadRx⟩,   -- GD5F1GQ4UAWxx
   ⟨⟨mfrGigadevice, 0x51, 1⟩, 2048, .quadRx⟩,   -- GD5F1GQ5UExxG
   ⟨⟨mfrGigadevice, 0xD1, 1⟩, 2048, .quadRx⟩,   -- GD5F1GQ4UExIG
   ⟨⟨mfrGigadevice, 0xD9, 1⟩, 2048, .quadRx⟩,   -- GD5F1GQ4UExxH
   ⟨⟨mfrGigadevice, 0xF1, 1⟩, 2048, .quadRx⟩,   -- GD5F1GQ4xAYIG
   ⟨⟨mfrGigadevice, 0xD2, 1⟩, 2048, .quadRx⟩,   -- GD5F2GQ4UExIG
   ⟨⟨mfrGigadevice, 0x32, 1⟩, 2048, .quadRx⟩,   -- GD5F2GQ5UExxH
   ⟨⟨mfrGigadevice, 0xF2, 1⟩, 2048, .quadRx⟩,   -- GD5F2GQ4xAYIG
   ⟨⟨mfrGigadevice, 0xD4, 1⟩, 4096, .quadRx⟩,   -- GD5F4GQ4UBxIG
   ⟨⟨mfrGigadevice, 0xF4, 1⟩, 2048, .quadRx⟩,   -- GD5F4GQ4xAYIG
   ⟨⟨mfrGigadevice, 0x52, 1⟩, 2048, .quadRx⟩,   -- GD5F2GQ5UExxG
   ⟨⟨mfrGigadevice, 0xB4, 1⟩, 4096, .quadRx⟩,   -- GD5F4GQ4UCxIG
   ⟨⟨mfrGigadevice, 0xA4, 1⟩, 4096, .quadRx⟩,   -- GD5F4GQ4RCxIG
   ⟨⟨mfrMacronix, 0x12, 1⟩, 2048, .dualRx⟩,     -- MX35LF1GE4AB
   ⟨⟨mfrMacronix, 0x14, 1⟩, 2048, .dualRx⟩,     -- MX35LF1G24AD
   ⟨⟨mfrMacronix, 0x1E, 1⟩, 2048, .dualRx⟩,     -- MX31LF1GE4BC
   ⟨⟨mfrMacronix, 0x22, 1⟩, 2048, .dualRx⟩,     -- MX35LF2GE4AB
   ⟨⟨mfrMacronix, 0x24, 1⟩, 2048, .dualRx⟩,     -- MX35LF2G24AD
   ⟨⟨mfrMacronix, 0x26, 1⟩, 2048, .dualRx⟩,     -- MX35LF2GE4AD
   ⟨⟨mfrMacronix, 0x20, 1⟩, 2048, .dualRx⟩,     -- MX35LF2G14AC
   ⟨⟨mfrMacronix, 0x35, 1⟩, 4096, .dualRx⟩,     -- MX35LF4G24AD
   ⟨⟨mfrMacronix, 0x37, 1⟩, 4096, .dualRx⟩,     -- MX35LF4GE4AD
   ⟨⟨mfrMicron, 0x12, 1⟩, 2048, .dualRx⟩,       -- MT29F1G01AAADD
   ⟨⟨mfrMicron, 0x14, 1⟩, 2048, .dualRx⟩,       -- MT29F1G01ABAFD
   ⟨⟨mfrMicron, 0x9F, 1⟩, 2048, .dualRx⟩,       -- MT29F2G01AAAED
   ⟨⟨mfrMicron, 0x24, 1⟩, 2048, .dualRx⟩,       -- MT29F2G01ABAGD
   ⟨⟨mfrMicron, 0x32, 1⟩, 2048, .dualRx⟩,       -- MT29F4G01AAADD
   ⟨⟨mfrMicron, 0x34, 1⟩, 4096, .dualRx⟩,       -- MT29F4G01ABAFD
   ⟨⟨mfrMicron, 0x36, 1⟩, 2048, .dualRx⟩,       -- MT29F4G01ADAGD
   ⟨⟨mfrMicron, 0x46, 1⟩, 4096, .dualRx⟩]       -- MT29F8G01ADAFD

def opcodeReadId : UInt8 := 0x9F
def opcodeReadStatus : UInt8 := 0x0F
def opcodeWriteStatus : UInt8 := 0x1F
def opcodeReadPage : UInt8 := 0x13
def opcodeRead : UInt8 := 0x03
def opcodeFastReadDualO : UInt8 := 0x3B
def opcodeFastReadQuadO : UInt8 := 0x6B
def opcodeFastReadQuadIo : UInt8 := 0xEB

def configAddrOtp : UInt8 := 0xB0
def configPosBuf : UInt8 := 0x08

/-! The chip. It answers each command without error and is ready when it is polled. -/

/-- A chip of some type: whether a dummy byte precedes its id, its register at `CONFIG_ADDR_OTP`,
its array, and the page that its cache register holds. -/
structure Chip where
  type : SpiNandInfo
  dummy : Bool
  config : UInt8
  cells : Mem
  row : Nat

/-- The bytes that READ ID puts out. -/
def Chip.idBytes (c : Chip) : List UInt8 :=
  (if c.dummy then [(0xFF : UInt8)] else []) ++
    (if c.type.id.dlen = 2 then
      [c.type.id.mfr, (c.type.id.dev >>> 8).toUInt8, c.type.id.dev.toUInt8, 0]
    else [c.type.id.mfr, c.type.id.dev.toUInt8, 0, 0])

/-- A Winbond chip whose buffer mode is off reads on over the ends of pages. -/
def Chip.Continuous (c : Chip) : Prop := c.type.id.mfr = mfrWinbond ∧ c.config &&& configPosBuf = 0

instance (c : Chip) : Decidable c.Continuous :=
  inferInstanceAs (Decidable (c.type.id.mfr = mfrWinbond ∧ c.config &&& configPosBuf = 0))

/-- How many bytes a read command has: the opcode, two for the column, and the dummies. -/
def Chip.commandLength (c : Chip) : Nat :=
  (if c.type.mode = .quadIo then 5 else 4) + if c.Continuous then 1 else 0

/-- What comes out behind a read command that has its length. A continuous read has no column and
starts where the page does; columns past the page belong to its spare area. -/
def Chip.output (c : Chip) (column n : Nat) : List UInt8 :=
  if c.Continuous then slice c.cells (c.row * c.type.pageSize.toNat) n
  else (List.range n).map fun i =>
    if column + i < c.type.pageSize.toNat then
      c.cells (c.row * c.type.pageSize.toNat + column + i)
    else 0xFF

/-- Gigadevice chips take a quad read only where the quad bit is set. -/
def Chip.Takes (c : Chip) (opcode : UInt8) : Prop :=
  opcode = opcodeRead ∨ opcode = opcodeFastReadDualO ∨
    (opcode = opcodeFastReadQuadO ∨ opcode = opcodeFastReadQuadIo) ∧
      (c.type.id.mfr = mfrGigadevice → c.config &&& 0x01 = 0x01)

instance (c : Chip) (opcode : UInt8) : Decidable (c.Takes opcode) :=
  inferInstanceAs (Decidable (_ ∨ _ ∨ _ ∧ (_ → _)))

/-- `spi_transfer` on the chip: the bytes received, and the chip afterwards. -/
def spiTransfer (c : Chip) (tx : List UInt8) (rxlen : Nat) : List UInt8 × Chip :=
  match tx with
  | [opcode] => if opcode = opcodeReadId then (c.idBytes.take rxlen, c) else ([], c)
  | [opcode, addr] =>
    if opcode = opcodeReadStatus ∧ addr = configAddrOtp then ([c.config].take rxlen, c)
    else (List.replicate rxlen 0, c)
  | [opcode, addr, val] =>
    if opcode = opcodeWriteStatus ∧ addr = configAddrOtp then ([], { c with config := val })
    else ([], c)
  | opcode :: a :: b :: d :: dummies =>
    if opcode = opcodeReadPage then
      ([], { c with row := 65536 * a.toNat + 256 * b.toNat + d.toNat })
    else if c.Takes opcode ∧ 4 + dummies.length = c.commandLength then
      (c.output (256 * a.toNat + b.toNat) rxlen, c)
    else (List.replicate rxlen 0xFF, c)
  | [] => ([], c)

/-- `spi_nand_info`: the first entry with the chip's id. -/
def spiNandInfo (c : Chip) : Option SpiNandInfo :=
  let rx := (spiTransfer c [opcodeReadId] 4).1
  let rxp := if rx.getD 0 0 = 0xFF then rx.drop 1 else rx
  spiNandInfos.find? fun info =>
    info.id.mfr = rxp.getD 0 0 ∧ info.id.dev =
      if info.id.dlen = 2 then (rxp.getD 1 0).toUInt16 <<< 8 ||| (rxp.getD 2 0).toUInt16
      else (rxp.getD 1 0).toUInt16

/-- `spi_nand_get_config` and `spi_nand_set_config` at `CONFIG_ADDR_OTP`. -/
def getConfigOtp (c : Chip) : UInt8 :=
  (spiTransfer c [opcodeReadStatus, configAddrOtp] 1).1.getD 0 0

def setConfigOtp (c : Chip) (val : UInt8) : Chip :=
  (spiTransfer c [opcodeWriteStatus, configAddrOtp, val] 0).2

/-- `spi_nand_detect`. The protection register, which it clears as well, does not bear on reads. -/
def spiNandDetect (c : Chip) : Option (SpiNandInfo × Chip) :=
  match spiNandInfo c with
  | none => none
  | some info =>
    let val := getConfigOtp c
    if info.id.mfr = mfrWinbond then
      -- Disable buffer mode on Winbond (enable continuous)
      some (info, if val ≠ 0 then setConfigOtp c (val &&& ~~~configPosBuf) else c)
    else if info.id.mfr = mfrGigadevice then
      some (info, if val &&& 0x01 = 0 then setConfigOtp c (val ||| 0x01) else c)
    else some (info, c)

/-- `spi_nand_load_page`, whose wait ends with the first poll. -/
def spiNandLoadPage (info : SpiNandInfo) (c : Chip) (offset : UInt32) : Chip :=
  let pa := offset / info.pageSize
  (spiTransfer c [opcodeReadPage, (pa >>> 16).toUInt8, (pa >>> 8).toUInt8, pa.toUInt8] 0).2

def readOpcode : SpiIoMode → UInt8
  | .single => opcodeRead
  | .dualRx => opcodeFastReadDualO
  | .quadRx => opcodeFastReadQuadO
  | .quadIo => opcodeFastReadQuadIo

/-- What `spi_nand_read` leaves: what it returns, the bytes stored from `buf` on, and the chip. -/
structure ReadOut where
  ret : UInt32
  bytes : List UInt8
  chip : Chip

/-- The page loop for Gigadevice. Each round takes a byte at least, so that a fuel above the
number of bytes lasts. -/
def readPages (info : SpiNandInfo) : Nat → Chip → UInt32 → UInt32 → UInt32 → List UInt8 → ReadOut
  | 0, c, _, _, len, buf => ⟨len, buf, c⟩
  | fuel + 1, c, address, cnt, len, buf =>
    if cnt = 0 then ⟨len, buf, c⟩
    else
      let ca := address &&& (info.pageSize - 1)
      let n := if cnt > info.pageSize - ca then info.pageSize - ca else cnt
      let c := spiNandLoadPage info c address
      let r := spiTransfer c [readOpcode info.mode, (ca >>> 8).toUInt8, ca.toUInt8, 0] n.toNat
      readPages info fuel r.2 (address + n) (cnt - n) (len + n) (buf ++ r.1)

/-- `spi_nand_read`. Only the page loop counts what it has read. -/
def spiNandRead (info : SpiNandInfo) (c : Chip) (addr rxlen : UInt32) : ReadOut :=
  if addr % info.pageSize ≠ 0 then ⟨0xFFFFFFFF, [], c⟩
  else if info.id.mfr = mfrGigadevice then readPages info (rxlen.toNat + 1) c addr rxlen 0 []
  else
    let c := spiNandLoadPage info c addr
    let txlen := (if info.mode = .quadIo then 5 else 4) + if info.id.mfr = mfrWinbond then 1 else 0
    let ca := addr &&& (info.pageSize - 1)
    -- `tx[5]`, which only a Winbond chip in quad I/O mode would be sent, has no value yet.
    let tx := [readOpcode info.mode, (ca >>> 8).toUInt8, ca.toUInt8, 0, 0, 0].take txlen
    let r := spiTransfer c tx rxlen.toNat
    ⟨0, r.1, r.2⟩

end T113Boot.FirstStage.Spi
