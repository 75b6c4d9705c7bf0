/- Module: T113Boot/Drivers/SpiTransfer
   layer: model
   digest: SPI transfers: the two calls, the interrupt handler and the controller with its FIFOs. -/

import Mathlib.Logic.Function.Basic
import T113Boot.Lib.Cells

set_option autoImplicit false
set_option relaxedAutoImplicit false

namespace T113Boot.Drivers.SpiTransfer

open T113Boot.Lib.Cells (Mem)

def spiTc : UInt32 := 0x1000
def spiTfUdf : UInt32 := 0x0800
def spiTfOvf : UInt32 := 0x0400
def spiRxUdf : UInt32 := 0x0200
def spiRxOvf : UInt32 := 0x0100
def spiRxRdy : UInt32 := 0x0001

/-- The flags on which the handler gives up. -/
def irqErrors : UInt32 := spiTfUdf ||| spiTfOvf ||| spiRxUdf ||| spiRxOvf

/-- The bits of the interrupt registers that the driver reads and writes. -/
def irqBits : UInt32 := 0x77 ||| 0x3f00

def fifoSize : Nat := 64

/-- `enum spi_state`. -/
inductive SpiState where
  | error
  | busy
  | idle
deriving DecidableEq

/-- `struct spi_trans_msg`; of a buffer the address. -/
structure TransMsg where
  txBuf : Nat
  txLen : UInt32
  rxBuf : Nat
  rxLen : UInt32
  dummylen : UInt32

/-- Where `spi_transfer` or `spi_transfer_then_transfer` stands. Up to the start of the transfer
`msgs` are the messages that are still to be loaded, and in the loops that write them `rest`. -/
inductive Pc where
  | umask (msgs : List TransMsg)
  | setBusy (msgs : List TransMsg)
  | startXfer (msgs : List TransMsg)
  | load (msg : TransMsg) (rest : List TransMsg)
  | write (rest : List TransMsg)
  | poll (rest : List TransMsg) (pollTime : Nat)
  | push (rest : List TransMsg)
  | shrink (rest : List TransMsg)
  | advance (rest : List TransMsg)
  | wait
  | disable
  | mask
  | check
  | abort
  | abortMask
  | ret (r : Int)

/-- Where `spi_irq_handler` stands, with the values of its variables that are still read. -/
inductive Irq where
  | busy
  | readIsr
  | fail
  | readCount (irqState : UInt32)
  | loop (irqState : UInt32) (byteCnt i : Nat)
  | poll (irqState : UInt32) (byteCnt i pollTime : Nat)
  | take (irqState : UInt32) (byteCnt i : Nat)
  | shrink (irqState : UInt32) (byteCnt i : Nat)
  | advance (irqState : UInt32) (byteCnt i : Nat)
  | finish (irqState : UInt32)

/-- The caller, the handler while it runs, the private part of `struct spi_handle`, the memory with
the buffers, and the controller: its registers, whether a transfer is under way, both FIFOs, and
what has been sent and received since they were reset. -/
structure Spi where
  pc : Pc
  handler : Option Irq
  txOffset : Nat
  txLen : UInt32
  rxOffset : Nat
  rxLen : UInt32
  dummylen : UInt32
  spiState : SpiState
  mem : Mem
  masked : Bool
  ier : UInt32
  isr : UInt32
  mbc : UInt32
  mtc : UInt32
  bcc : UInt32
  xch : Bool
  txFifo : List UInt8
  rxFifo : List UInt8
  sent : List UInt8
  received : List UInt8

/-- A burst counter. -/
def burst (w : UInt32) : Nat := (w &&& 0x00ffffff).toNat

namespace Spi

variable (s : Spi)

/-- All bytes that the transmit FIFO has accepted. -/
def pushed : List UInt8 := s.sent ++ s.txFifo

/-- Of all bursts those that are received: the ones behind the transmitted and the dummy bursts. -/
def rxTotal : Nat := burst s.mbc - burst s.mtc - s.dummylen.toNat

def interruptMask : Spi := { s with masked := true }

def spiEnableIrq (irqMask : UInt32) : Spi := { s with ier := s.ier ||| (irqMask &&& irqBits) }

def spiDisableIrq (irqMask : UInt32) : Spi := { s with ier := s.ier &&& ~~~(irqMask &&& irqBits) }

/-- A flag of the status register is cleared by writing 1 to it. -/
def spiClearIrqState (irqMask : UInt32) : Spi :=
  { s with isr := s.isr &&& ~~~(irqMask &&& irqBits) }

def spiResetFifo : Spi := { s with txFifo := [], rxFifo := [], sent := [], received := [] }

def spiDisableDual : Spi := { s with bcc := s.bcc &&& ~~~0x10000000 }

def spiDisableQuad : Spi := { s with bcc := s.bcc &&& ~~~0x20000000 }

def spiSetBcTcStc (txLen rxLen stxLen dummyCnt : UInt32) : Spi := { s with
  mbc := (s.mbc &&& ~~~0x00ffffff) ||| (0x00ffffff &&& (txLen + rxLen + dummyCnt))
  mtc := (s.mtc &&& ~~~0x00ffffff) ||| (0x00ffffff &&& txLen)
  bcc :=
    let val := (s.bcc &&& ~~~0x00ffffff) ||| (0x00ffffff &&& stxLen)
    (val &&& ~~~0x0f000000) ||| dummyCnt <<< (24 : UInt32) }

/-- The write to `REG_SPI_TXD`; a full FIFO does not take the byte. -/
def writeTxd (byte : UInt8) : Spi :=
  if s.txFifo.length < fifoSize then { s with txFifo := s.txFifo ++ [byte] }
  else { s with isr := s.isr ||| spiTfOvf }

/-- The values that `REG_SPI_ISR` can have: RX_RDY is set while the receive FIFO holds a byte, the
end of the transfer and the errors stay until they are cleared, and the other bits may be any. -/
def reads (val : UInt32) : Bool :=
  val &&& (spiTc ||| irqErrors) = s.isr &&& (spiTc ||| irqErrors) ∧
    (val &&& spiRxRdy ≠ 0 ↔ s.rxFifo ≠ [])

/-- The controller asserts its interrupt. -/
def requested : Bool :=
  s.ier &&& (s.isr ||| if s.rxFifo = [] then 0 else spiRxRdy) ≠ 0

/-- The statements that both calls have before the start. -/
def prepare (txLen rxLen stxLen : UInt32) : Spi :=
  let s := (s.spiDisableDual.spiDisableQuad.interruptMask).spiDisableIrq 0xffff
  let s := s.spiSetBcTcStc txLen rxLen stxLen s.dummylen
  let s := s.spiResetFifo.spiClearIrqState 0xffff
  (s.spiEnableIrq 0x1000).spiEnableIrq 0x0f00

/-- `spi_transfer` up to where it unmasks the interrupt: until there it runs alone. -/
def spiTransfer : Option TransMsg → Spi
  | none => { s with pc := .ret (-1) }
  | some msg =>
    let s := { s with
      txOffset := msg.txBuf
      txLen := msg.txLen
      rxOffset := msg.rxBuf
      rxLen := msg.rxLen
      dummylen := msg.dummylen }
    let s := s.prepare s.txLen s.rxLen (s.txLen + s.rxLen)
    let s : Spi := if s.rxOffset ≠ 0 ∧ s.rxLen ≠ 0 then s.spiEnableIrq 0x0001 else s
    { s with pc := .umask [] }

/-- `spi_transfer_then_transfer` up to there. It loads its messages only behind the start. -/
def spiTransferThenTransfer : Option TransMsg → Option TransMsg → Spi
  | some first, some second =>
    let s := { s with
      rxOffset := 0
      rxLen := 0
      dummylen := first.dummylen + second.dummylen }
    let stxLen := first.txLen + second.txLen
    let s := s.prepare stxLen 0 stxLen
    { s with pc := .umask [first, second] }
  | _, _ => { s with pc := .ret (-1) }

/-- What follows the start of the transfer. -/
def begins : List TransMsg → Pc
  | [] => .write []
  | msg :: rest => .load msg rest

/-- What follows a loop that writes a message. -/
def next : List TransMsg → Pc
  | [] => .wait
  | msg :: rest => .load msg rest

/-- One statement of the caller. From `write` to `advance` it is in `spi_cpu_writeb` and the loop
around it. -/
def caller : Option Spi :=
  match s.pc with
  | .umask msgs => some { s with masked := false, pc := .setBusy msgs }
  | .setBusy msgs => some { s with spiState := .busy, pc := .startXfer msgs }
  | .startXfer msgs => some { s with xch := true, pc := begins msgs }
  | .load msg rest =>
    some { s with txOffset := msg.txBuf, txLen := msg.txLen, pc := .write rest }
  | .write rest => some { s with pc := if s.txLen ≠ 0 then .poll rest 0x7ffffff else next rest }
  | .poll rest pollTime =>
    some { s with
      pc := if pollTime > 0
        then (if s.txFifo.length > 63 then .poll rest (pollTime - 1) else .push rest)
        else .abort }
  | .push rest => some { s.writeTxd (s.mem s.txOffset) with pc := .shrink rest }
  | .shrink rest => some { s with txLen := s.txLen - 1, pc := .advance rest }
  | .advance rest => some { s with txOffset := s.txOffset + 1, pc := .write rest }
  | .wait => some { s with pc := if s.spiState = .busy then .wait else .disable }
  | .disable => some { s.spiDisableIrq 0xffff with pc := .mask }
  | .mask => some { s.interruptMask with pc := .check }
  | .check => some { s with pc := .ret (if s.spiState = .error then -1 else 0) }
  | .abort => some { s.spiDisableIrq 0xffff with pc := .abortMask }
  | .abortMask => some { s.interruptMask with pc := .ret (-1) }
  | .ret _ => none

/-- One statement of `spi_irq_handler`; `val` is what a read of the status register gives. From
`poll` to `take` it is in `spi_cpu_readb`. -/
def service (val : UInt32) : Irq → Option Spi
  | .busy => some { s with spiState := .busy, handler := some .readIsr }
  | .readIsr =>
    if s.reads val then
      let irqState := val &&& irqBits
      some { s with
        handler := some (if irqState &&& irqErrors ≠ 0 then .fail
          else if irqState &&& spiRxRdy ≠ 0 then .readCount irqState
          else .finish irqState) }
    else none
  | .fail => some { s with spiState := .error, handler := none }
  | .readCount irqState => some { s with handler := some (.loop irqState s.rxFifo.length 0) }
  | .loop irqState byteCnt i =>
    some { s with
      handler := some (if i < byteCnt
        then (if s.rxLen > 0 then .poll irqState byteCnt i 0x7ffffff
          else .loop irqState byteCnt (i + 1))
        else .finish irqState) }
  | .poll irqState byteCnt i pollTime =>
    some { s with
      handler := some (if pollTime > 0
        then (if s.rxFifo.length > 0 then .take irqState byteCnt i
          else .poll irqState byteCnt i (pollTime - 1))
        else .fail) }
  | .take irqState byteCnt i =>
    some { s with
      mem := Function.update s.mem s.rxOffset (s.rxFifo.headD 0)
      rxFifo := s.rxFifo.tail
      handler := some (.shrink irqState byteCnt i) }
  | .shrink irqState byteCnt i =>
    some { s with rxLen := s.rxLen - 1, handler := some (.advance irqState byteCnt i) }
  | .advance irqState byteCnt i =>
    some { s with
      rxOffset := s.rxOffset + 1
      handler := some (.loop irqState byteCnt (i + 1)) }
  | .finish irqState =>
    some (if irqState &&& spiTc ≠ 0 then { s with spiState := .idle, handler := none }
      else { s.spiClearIrqState irqState with handler := none })

/-- It sends a byte. -/
def send : Option Spi :=
  match s.txFifo with
  | [] => none
  | byte :: rest =>
    if s.xch ∧ s.sent.length < burst s.mtc then
      some { s with txFifo := rest, sent := s.sent ++ [byte] }
    else none

/-- A byte arrives, once all bytes to send have been accepted. A full FIFO loses it. -/
def arrive (byte : UInt8) : Option Spi :=
  if s.xch ∧ burst s.mtc ≤ s.pushed.length ∧ s.received.length < s.rxTotal then
    if s.rxFifo.length < fifoSize then
      some { s with rxFifo := s.rxFifo ++ [byte], received := s.received ++ [byte] }
    else some { s with isr := s.isr ||| spiRxOvf, received := s.received ++ [byte] }
  else none

/-- The transfer ends. -/
def complete : Option Spi :=
  if s.xch ∧ s.sent.length = burst s.mtc ∧ s.received.length = s.rxTotal then
    some { s with isr := s.isr ||| spiTc, xch := false }
  else none

/-- It reports an error other than an overflow of the receive FIFO. -/
def fault (flags : UInt32) : Spi :=
  { s with isr := s.isr ||| (flags &&& (spiTfUdf ||| spiTfOvf ||| spiRxUdf)) }

end Spi

/-- What may happen next. -/
inductive Event where
  | caller
  | interrupt
  | handler (val : UInt32)
  | send
  | arrive (byte : UInt8)
  | complete
  | fault (flags : UInt32)

/-- The caller stands still while the handler runs, and that may begin whenever the interrupt is
not masked. -/
def Spi.step (s : Spi) : Event → Option Spi
  | .caller => match s.handler with
    | none => s.caller
    | some _ => none
  | .interrupt => match s.handler, s.masked with
    | none, false => some { s with handler := some .busy }
    | _, _ => none
  | .handler val => s.handler.bind fun stage => s.service val stage
  | .send => s.send
  | .arrive byte => s.arrive byte
  | .complete => s.complete
  | .fault flags => some (s.fault flags)

/-- The driver between two calls: as `spi_init` leaves it, and a call that returned 0. -/
def Spi.AtRest (s : Spi) : Prop := s.masked = true ∧ s.handler = none ∧ s.xch = false

instance (s : Spi) : Decidable s.AtRest :=
  inferInstanceAs (Decidable (s.masked = true ∧ s.handler = none ∧ s.xch = false))

end T113Boot.Drivers.SpiTransfer
