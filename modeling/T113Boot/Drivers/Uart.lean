/- Module: T113Boot/Drivers/Uart
   layer: model
   digest: The UART drivers of boot loader and application: the receive FIFO and the polls. -/

import T113Boot.Lib.BoundedQueue
import T113Boot.Lib.Cells

set_option autoImplicit false
set_option relaxedAutoImplicit false

namespace T113Boot.Drivers.Uart

open T113Boot.Lib.BoundedQueue (keepLast)
open T113Boot.Lib.Cells

def uartSoftFifoSize : Nat := 2048

/-- `struct rt_uart_rx_fifo`. -/
structure RxFifo where
  buffer : Mem
  putIndex : Nat
  getIndex : Nat
  isFull : Int

/-- As `uart_init` leaves it. -/
def RxFifo.initial : RxFifo := ⟨fun _ => 0, 0, 0, 0⟩

/-- One round of the loop in `uart_irq_handler`, with the value read from `REG_UART_RBR`. A store
past the end of the buffer is undefined. -/
def putChar (fifo : RxFifo) (rbr : UInt32) : Option RxFifo :=
  if fifo.putIndex < uartSoftFifoSize then
    let buffer := store fifo.buffer fifo.putIndex [rbr.toUInt8]
    let put := fifo.putIndex + 1
    let put := if put ≥ uartSoftFifoSize then 0 else put
    if put = fifo.getIndex then
      let get := fifo.getIndex + 1
      let get := if get ≥ uartSoftFifoSize then 0 else get
      some ⟨buffer, put, get, 1⟩
    else some ⟨buffer, put, fifo.getIndex, fifo.isFull⟩
  else none

/-- `uart_irq_handler`; there are as many reads of `REG_UART_RBR` as `REG_UART_RFL` has said. The
callback behind them has no part in the FIFO. -/
def uartIrqHandler (fifo : RxFifo) (rbr : List UInt32) : Option RxFifo := rbr.foldlM putChar fifo

/-- `uart_getc` behind its null check. Plain `char` is unsigned on the target. -/
def uartGetc (fifo : RxFifo) : Option (Int × RxFifo) :=
  if fifo.getIndex = fifo.putIndex ∧ fifo.isFull = 0 then some (-1, fifo)
  else if fifo.getIndex < uartSoftFifoSize then
    let ch := fifo.buffer fifo.getIndex
    let get := fifo.getIndex + 1
    let get := if get ≥ uartSoftFifoSize then 0 else get
    let full := if fifo.isFull = 1 then 0 else fifo.isFull
    some (ch.toNat, { fifo with getIndex := get, isFull := full })
  else none

/-- What happens to the FIFO: an interrupt with the values it reads, or a call. -/
inductive Event
  | irq (rbr : List UInt32)
  | getc

/-- The FIFO, and what the calls have returned so far. -/
structure Receiver where
  fifo : RxFifo
  returned : List Int

def Receiver.step (r : Receiver) : Event → Option Receiver
  | .irq rbr => (uartIrqHandler r.fifo rbr).map fun fifo => { r with fifo }
  | .getc => (uartGetc r.fifo).map fun (ch, fifo) => ⟨fifo, r.returned ++ [ch]⟩

/-! What the FIFO is for: a queue of the bytes received and not yet read, bounded by one less than
the size of the buffer. -/

/-- The unread bytes in the order of their arrival, and the answers given. -/
structure Reader where
  unread : List UInt8
  returned : List Int

/-- Bytes arrive behind those that are unread, of which only the last ones are kept; a call is
given the first one, or -1 if there is none. -/
def Reader.next (r : Reader) : Event → Reader
  | .irq rbr => { r with
      unread := keepLast (uartSoftFifoSize - 1) (r.unread ++ rbr.map UInt32.toUInt8) }
  | .getc =>
    match r.unread with
    | [] => { r with returned := r.returned ++ [-1] }
    | ch :: unread => ⟨unread, r.returned ++ [(ch.toNat : Int)]⟩

/-- How a poll loop ends: the values it has read, and the counter behind it. -/
structure Polls where
  seen : List UInt32
  timeOut : UInt32

/-- `while (busy(read) && (time_out--));` with the values that the hardware gives one after another
from number `k` on. -/
def poll (busy : UInt32 → Bool) (status : Nat → UInt32) (k : Nat) (timeOut : UInt32) : Polls :=
  if busy (status k) then
    if zero : timeOut = 0 then ⟨[status k], timeOut - 1⟩
    else
      let rest := poll busy status (k + 1) (timeOut - 1)
      ⟨status k :: rest.seen, rest.timeOut⟩
  else ⟨[status k], timeOut⟩
termination_by timeOut.toNat
decreasing_by
  have nonzero : timeOut.toNat ≠ 0 := fun is => zero (UInt32.toNat_inj.mp is)
  have bound := timeOut.toNat_lt
  rw [UInt32.toNat_sub]
  change (4294967296 - 1 + timeOut.toNat) % 4294967296 < timeOut.toNat
  omega

/-- What a call has done: what it returns, the status values it has read, and what it has written
to `REG_UART_THR`. -/
structure Call where
  ret : Int
  seen : List UInt32
  thr : List UInt32

/-- Bit 2 of `REG_UART_USR` says that the transmit FIFO is empty. -/
def transmitReady (usr : UInt32) : Bool := usr &&& 0x4 != 0

/-- `uart_putc` of the boot loader; `uart` is the address of the handle. -/
def bootUartPutc (uart : UInt32) (c : UInt8) (usr : Nat → UInt32) : Call :=
  if uart = 0 then ⟨-1, [], []⟩
  else
    let p := poll (fun v => !transmitReady v) usr 0 1000
    if p.timeOut = 0 then ⟨-1, p.seen, []⟩ else ⟨0, p.seen, [c.toUInt32]⟩

/-- `uart_putc` of the application. -/
def appUartPutc (c : UInt8) (usr : Nat → UInt32) : Call :=
  let p := poll (fun v => !transmitReady v) usr 0 1000
  if p.timeOut = 0 then ⟨0, p.seen, []⟩ else ⟨1, p.seen, [c.toUInt32]⟩

/-- `struct uart_configure`, without the rate, which `_uart_init` does not check. -/
structure UartConfigure where
  dataBits : UInt32
  stopBits : UInt32
  parity : UInt32

/-- The three switches of `_uart_init` have a case for each of the settings. -/
def UartConfigure.Known (cfg : UartConfigure) : Prop :=
  cfg.dataBits ∈ [5, 6, 7, 8] ∧ cfg.stopBits ∈ [1, 2] ∧ cfg.parity ∈ [0, 1, 2]

instance (cfg : UartConfigure) : Decidable cfg.Known :=
  inferInstanceAs (Decidable (_ ∧ _ ∧ _))

/-- Bit 2 of `REG_UART_HALT` is set until the new settings are taken over. -/
def haltBusy (halt : UInt32) : Bool := halt &&& 0x4 != 0

/-- `_uart_init`: what it returns, and the values of `REG_UART_HALT` that its last loop has read.
The registers that it sets up before do not bear on either. -/
def uartInit (uart : UInt32) (cfg : UartConfigure) (halt : Nat → UInt32) : Call :=
  if uart = 0 then ⟨-1, [], []⟩
  else if ¬ cfg.Known then ⟨-1, [], []⟩
  else
    let p := poll haltBusy halt 0 1000
    if p.timeOut = 0 then ⟨-1, p.seen, []⟩ else ⟨0, p.seen, []⟩

end T113Boot.Drivers.Uart
