/- Module: T113Boot/Drivers/EmacTransmit
   layer: model
   digest: Ethernet transmission: the driver's statements, its cache, the ring and the DMA. -/

import Mathlib.Algebra.Ring.Nat
import T113Boot.Drivers.Emac

set_option autoImplicit false
set_option relaxedAutoImplicit false

namespace T113Boot.Drivers.EmacTransmit

open T113Boot.Drivers.Emac (DmaDesc ownBit)

def emacDmaTxDescNum : Nat := 128
def txBufSize : Nat := 1536
def rtError : Int := 1

/-- A chain of `struct pbuf`: of each the `len` bytes at its payload, and the `tot_len` of the
first, which they sum up to. -/
structure Chain where
  bufs : List (List UInt8)
  totLen : Nat
  sum : (bufs.map List.length).sum = totLen

/-- Where `t113_emac_tx` stands, with the values of its variables that are still read. -/
inductive Pc where
  | idle
  | limit (p : Chain)
  | readStatus (p : Chain)
  | check (p : Chain) (regVal : UInt32) (timeOut : Nat)
  | poll (p : Chain) (timeOut : Nat)
  | copy (p : Chain) (q : List (List UInt8)) (offset : Nat)
  | flush (p : Chain) (offset : Nat)
  | setOwn (p : Chain) (offset : Nat)
  | setFlags (p : Chain) (offset : Nat)
  | setLength (p : Chain) (offset : Nat)
  | advance (p : Chain)
  | readCtl (p : Chain)
  | writeCtl (p : Chain) (regVal : UInt32)
  | ret (p : Chain)
  | fail (p : Chain)

/-- What the DMA does: nothing while it is stopped or suspended; else it looks at a descriptor, is
reading its buffer, or has sent that. -/
inductive Phase where
  | stopped
  | suspended
  | fetch
  | reading (desc1 : UInt32) (got : List UInt8)
  | close (desc1 : UInt32) (got : List UInt8)

/-- A frame as it is sent: the flags and the bytes. -/
structure Frame where
  flags : UInt32
  bytes : List UInt8
deriving DecidableEq

/-- The driver, the array `tx_buffer` as it lies in memory, what the cache has not yet written back
to it, and the DMA; the frames sent and the calls with what they returned. -/
structure EmacTx where
  pc : Pc
  index : Nat
  pool : Nat → DmaDesc
  mem : Nat → UInt8
  cache : Nat → Option UInt8
  ctl1 : UInt32
  phase : Phase
  dma : Nat
  sent : List Frame
  returned : List (Chain × Int)

namespace EmacTx

variable (s : EmacTx)

/-- Where a buffer begins in `tx_buffer`. -/
def base (i : Nat) : Nat := i * txBufSize

/-- What the processor reads in `tx_buffer`. -/
def view (a : Nat) : UInt8 := (s.cache a).getD (s.mem a)

def setDesc (i : Nat) (desc : DmaDesc) : Nat → DmaDesc := fun j => if j = i then desc else s.pool j

/-- The values that `REG_EMAC_TX_DMA_STA` can have. -/
def reads (regVal : UInt32) : Bool :=
  match s.phase with
  | .stopped => regVal = 0x00
  | .suspended => regVal = 0x06
  | _ => regVal ≠ 0x00 ∧ regVal ≠ 0x06

/-- The write to `REG_EMAC_TX_CTL1` gets the DMA going. -/
def doorbell : Phase → Phase
  | .stopped | .suspended => .fetch
  | phase => phase

/-- One statement of `t113_emac_tx`; `regVal` is what a read of the status register gives. -/
def driver (regVal : UInt32) : Option EmacTx :=
  match s.pc with
  | .idle => none
  | .limit p => some { s with pc := if p.totLen > txBufSize then .fail p else .readStatus p }
  | .readStatus p => if s.reads regVal then some { s with pc := .check p regVal 100 } else none
  | .check p regVal timeOut =>
    some { s with
      pc := if (s.pool s.index).owned = true ∨ (regVal ≠ 0x00 ∧ regVal ≠ 0x06)
        then (if timeOut > 0 then .poll p timeOut else .fail p)
        else .copy p p.bufs 0 }
  | .poll p timeOut =>
    if s.reads regVal then some { s with pc := .check p regVal (timeOut - 1) } else none
  | .copy p [] offset => some { s with pc := .flush p offset }
  | .copy p (q :: rest) offset =>
    some { s with
      cache := fun a =>
        if base s.index + offset ≤ a ∧ a < base s.index + offset + q.length
        then some (q.getD (a - (base s.index + offset)) 0) else s.cache a
      pc := .copy p rest (offset + q.length) }
  | .flush p offset =>
    some { s with
      mem := fun a =>
        if base s.index ≤ a ∧ a < base s.index + offset then s.view a else s.mem a
      cache := fun a =>
        if base s.index ≤ a ∧ a < base s.index + offset then none else s.cache a
      pc := .setOwn p offset }
  | .setOwn p offset =>
    some { s with
      pool := s.setDesc s.index { s.pool s.index with desc0 := 0x80000000 }
      pc := .setFlags p offset }
  | .setFlags p offset =>
    some { s with
      pool := s.setDesc s.index { s.pool s.index with desc1 := 0x60000000 }
      pc := .setLength p offset }
  | .setLength p offset =>
    some { s with
      pool := s.setDesc s.index { s.pool s.index with
        desc1 := (s.pool s.index).desc1 ||| (.ofNat offset &&& 0x7FF) }
      pc := .advance p }
  | .advance p => some { s with index := (s.index + 1) % emacDmaTxDescNum, pc := .readCtl p }
  | .readCtl p => some { s with pc := .writeCtl p s.ctl1 }
  | .writeCtl p regVal =>
    some { s with ctl1 := regVal ||| 0xC0000000, phase := doorbell s.phase, pc := .ret p }
  | .ret p => some { s with returned := s.returned ++ [(p, 0)], pc := .idle }
  | .fail p => some { s with returned := s.returned ++ [(p, -rtError)], pc := .idle }

/-- One step of the DMA; `desc0` is what it leaves in the first word of a descriptor. -/
def transmit (desc0 : UInt32) : Option EmacTx :=
  match s.phase with
  | .stopped | .suspended => none
  | .fetch =>
    some { s with
      phase := if (s.pool s.dma).owned then .reading (s.pool s.dma).desc1 [] else .suspended }
  | .reading desc1 got =>
    if got.length < (desc1 &&& 0x7FF).toNat then
      let byte := s.mem ((s.pool s.dma).desc2 + got.length)
      some { s with phase := .reading desc1 (got ++ [byte]) }
    else some { s with phase := .close desc1 got }
  | .close desc1 got =>
    if desc0 &&& ownBit = 0 then
      some { s with
        pool := s.setDesc s.dma { s.pool s.dma with desc0 := desc0 }
        dma := (s.pool s.dma).desc3
        sent := s.sent ++ [⟨desc1 &&& 0xFFFFF800, got⟩]
        phase := .fetch }
    else none

end EmacTx

/-- What may happen next: a call, its next statement, a step of the DMA, or the cache writes a byte
back. -/
inductive Event where
  | call (p : Chain)
  | driver (regVal : UInt32)
  | dma (desc0 : UInt32)
  | writeBack (a : Nat)

def EmacTx.step (s : EmacTx) : Event → Option EmacTx
  | .call p => match s.pc with
    | .idle => some { s with pc := .limit p }
    | _ => none
  | .driver regVal => s.driver regVal
  | .dma desc0 => s.transmit desc0
  | .writeBack a => some { s with
      mem := fun b => if b = a then s.view a else s.mem b
      cache := fun b => if b = a then none else s.cache b }

/-- A descriptor as `emac_dma_tx_desc_init` leaves it; `desc2` is the offset of its buffer. -/
def txDesc (i : Nat) : DmaDesc where
  desc0 := 0
  desc1 := 0
  desc2 := EmacTx.base i
  desc3 := if i + 1 < emacDmaTxDescNum then i + 1 else 0

/-- The DMA has not begun to send. -/
def Phase.fresh : Phase → Bool
  | .stopped | .suspended | .fetch => true
  | _ => false

/-- The driver behind `emac_dma_tx_desc_init` and `emac_fill_tx_desc`, with any bytes in the buffers
and in the cache. -/
def started (mem : Nat → UInt8) (cache : Nat → Option UInt8) (ctl1 : UInt32) (phase : Phase) :
    EmacTx where
  pc := .idle
  index := 0
  pool := txDesc
  mem := mem
  cache := cache
  ctl1 := ctl1
  phase := phase
  dma := 0
  sent := []
  returned := []

end T113Boot.Drivers.EmacTransmit
