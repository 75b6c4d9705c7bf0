/- Module: T113Boot/Nand/Spi
   layer: model
   digest: The page operations of the SPI NAND driver, transfer by transfer, and the port on them. -/

import T113Boot.Lib.Stoppable
import T113Boot.Nand.Pieces

set_option autoImplicit false
set_option relaxedAutoImplicit false

namespace T113Boot.Nand.Spi

open T113Boot.Lib.Stoppable
open Prog
open T113Boot.Nand.Chip (pageSize pagesPerBlock blocksTotal totalSize u32)
open T113Boot.Nand.Pieces

def opcodeGetFeature : UInt8 := 0x0F
def opcodePageRead : UInt8 := 0x13
def opcodeReadCache : UInt8 := 0x03
def opcodeWriteEnable : UInt8 := 0x06
def opcodeBlockErase : UInt8 := 0xD8
def opcodeProgramLoad : UInt8 := 0x02
def opcodeProgramExec : UInt8 := 0x10

def srAddrStatus : UInt8 := 0xC0

/-- What a transfer gives: its return code, and the byte received where it receives one. -/
structure Answer where
  ret : Int
  rx : UInt8
deriving DecidableEq

/-- A transfer done: the bytes sent and the answer. -/
abbrev Exchange := List UInt8 × Answer

/-- The bus as the driver sees it: the answers to come, and the transfers done. -/
structure Bus where
  answers : List Answer
  sent : List Exchange

abbrev BusM := Prog Bus

/-- `spi_transfer` and `spi_transfer_then_transfer`. One that is not answered waits for good. -/
def spiTransfer (tx : List UInt8) : BusM Answer := fun s =>
  match s.answers with
  | [] => (none, s)
  | a :: rest => (some a, { answers := rest, sent := s.sent ++ [(tx, a)] })

def readStatus : List UInt8 := [opcodeGetFeature, srAddrStatus]

/-- The polls of `nand_wait_while_busy`, as long as the answers go. -/
def pollBusy : List Answer → List Exchange → Option Int × Bus
  | [], sent => (none, { answers := [], sent })
  | a :: rest, sent =>
    if a.ret ≠ 0 then (some a.ret, { answers := rest, sent := sent ++ [(readStatus, a)] })
    else if a.rx &&& 0x01 = 0x01 then pollBusy rest (sent ++ [(readStatus, a)])
    else (some 0, { answers := rest, sent := sent ++ [(readStatus, a)] })

def nandWaitWhileBusy : BusM Int := fun s => pollBusy s.answers s.sent

/-- Go on where a call succeeded, and return its code where not. -/
def onSuccess (ret : Int) (next : BusM Int) : BusM Int := if ret ≠ 0 then pure ret else next

def nandWriteEnable : BusM Int := do
  let a ← spiTransfer [opcodeWriteEnable]
  onSuccess a.ret nandWaitWhileBusy

/-- The three address bytes of a row. -/
def pageAddr (page : Nat) : List UInt8 := [.ofNat (page >>> 16), .ofNat (page >>> 8), .ofNat page]

def nandLoadPage (page : Nat) : BusM Int := do
  let a ← spiTransfer (opcodePageRead :: pageAddr page)
  onSuccess a.ret nandWaitWhileBusy

/-- `nand_page_read`; the bytes that READ CACHE brings go to `data`, and nothing is made of them or
of the status that is read last. -/
def nandPageRead (page offset data len : Nat) : BusM Int :=
  if data = 0 then pure (-1)
  else if page > blocksTotal * pagesPerBlock then pure (-1)
  else if offset > pageSize ∨ len > pageSize then pure (-1)
  else do
    let ret ← nandLoadPage page
    onSuccess ret do
      let a ← spiTransfer [opcodeReadCache, .ofNat (offset >>> 8), .ofNat offset, 0x00]
      onSuccess a.ret do
        let ret ← nandWaitWhileBusy
        onSuccess ret do
          let val ← spiTransfer readStatus
          onSuccess val.ret (pure 0)

def nandExecProgram (page : Nat) : BusM Int := do
  let ret ← nandWriteEnable
  onSuccess ret do
    let a ← spiTransfer (opcodeProgramExec :: pageAddr page)
    onSuccess a.ret nandWaitWhileBusy

/-- `nand_page_write`; `data` is the address of the bytes `bs`. -/
def nandPageWrite (page offset data : Nat) (bs : List UInt8) : BusM Int :=
  if data = 0 then pure (-1)
  else if page > blocksTotal * pagesPerBlock then pure (-1)
  else if offset > pageSize ∨ bs.length > pageSize then pure (-1)
  else do
    let ret ← nandWriteEnable
    onSuccess ret do
      let a ← spiTransfer ([opcodeProgramLoad, .ofNat (offset >>> 8), .ofNat offset] ++ bs)
      onSuccess a.ret do
        let ret ← nandWaitWhileBusy
        onSuccess ret do
          let val ← spiTransfer readStatus
          onSuccess val.ret (if val.rx &&& 0x08 ≠ 0 then pure (-1) else nandExecProgram page)

def nandErasePage (page : Nat) : BusM Int :=
  if page > blocksTotal * pagesPerBlock then pure (-1)
  else do
    let ret ← nandWriteEnable
    onSuccess ret do
      let a ← spiTransfer (opcodeBlockErase :: pageAddr page)
      onSuccess a.ret do
        let ret ← nandWaitWhileBusy
        onSuccess ret do
          let val ← spiTransfer readStatus
          onSuccess val.ret (if val.rx &&& 0x04 ≠ 0 then pure (-1) else pure 0)

/-- The page loop of `partition_nand_write`. Every page takes a byte at least, so that a fuel
above the number of bytes lasts. -/
def writeLoop : Nat → Nat → Nat → Nat → List UInt8 → BusM Int
  | 0, _, _, _, _ => pure (-1)
  | fuel + 1, page, offset, writeBuf, bs =>
    if bs.length = 0 then pure 0
    else if u32 (offset + bs.length) > pageSize then do
      let ret ← nandPageWrite page offset writeBuf (bs.take (pageSize - offset))
      onSuccess ret (writeLoop fuel (page + 1) 0 (u32 (writeBuf + (pageSize - offset)))
        (bs.drop (pageSize - offset)))
    else nandPageWrite page offset writeBuf bs

/-- `partition_nand_write`; `bs` is the memory at `buf`, of which `size` bytes are written. -/
def partitionNandWrite (addr buf : UInt32) (bs : List UInt8) (size : UInt32) : BusM Int :=
  if (addr + size).toNat > totalSize ∨ buf = 0 then pure (-1)
  else writeLoop (size.toNat + 1) (addr.toNat / pageSize) (addr.toNat % pageSize) buf.toNat
    (bs.take size.toNat)

end T113Boot.Nand.Spi
