/- Module: T113Boot/Drivers/Emac
   layer: model
   digest: Ethernet reception: interrupt, thread, descriptor ring and DMA, step by step. -/

import T113Boot.Lib.Runs

set_option autoImplicit false
set_option relaxedAutoImplicit false

namespace T113Boot.Drivers.Emac

open T113Boot.Lib.Runs

def emacRxFrameMax : Nat := 30
def emacDmaRxDescNum : Nat := 128
def rxBufSize : UInt32 := 1536

/-- The OWN bit of a descriptor. -/
def ownBit : UInt32 := 0x80000000

/-- The receive interrupt, in `REG_EMAC_INT_STA` and in `REG_EMAC_INT_EN`. -/
def rxInt : UInt32 := (1 : UInt32) <<< 13

/-- `dma_desc_t`; the addresses are the number of a buffer and the number of a descriptor. -/
structure DmaDesc where
  desc0 : UInt32
  desc1 : UInt32
  desc2 : Nat
  desc3 : Nat
deriving DecidableEq

def DmaDesc.owned (desc : DmaDesc) : Bool := desc.desc0 &&& ownBit != 0

/-- The length of a frame, as the first word of its descriptor has it. -/
def frameLen (desc0 : UInt32) : Nat := ((desc0 >>> 16) &&& 0x3fff).toNat

/-- Where the receive thread stands: in `rt_mb_recv`, behind it, or before a statement of
`t113_emac_rx`, with the values of its variables that are still read. -/
inductive Pc where
  | asleep
  | woken
  | check
  | measure
  | alloc (len : Nat)
  | handBack (len : Nat)
  | invalidate (len : Nat)
  | copy (len : Nat)
  | advance (puf : List UInt8)
  | count (puf : Option (List UInt8))
  | exit (overFlag : Bool) (puf : Option (List UInt8))
  | reset (puf : Option (List UInt8))
  | enable (puf : Option (List UInt8))
  | unmask (puf : Option (List UInt8))
  | back (puf : Option (List UInt8))
deriving DecidableEq

/-- The driver, the thread and the hardware around them. `mem` is what lies in the receive buffers
and `cache` what the processor's cache has of it; `arrived` and `returned` are the frames written by
the DMA and the buffers returned by the driver so far. -/
structure EmacDev where
  pc : Pc
  mailbox : Nat
  rxNotice : Bool
  rxCount : Nat
  index : Nat
  intEn : UInt32
  masked : Bool
  pool : Nat → DmaDesc
  mem : Nat → Nat → UInt8
  cache : Nat → Nat → Option UInt8
  dma : Nat
  arrived : List (List UInt8)
  returned : List (List UInt8)

namespace EmacDev

variable (s : EmacDev)

/-- The descriptor that the driver looks at. -/
def current : DmaDesc := s.pool s.index

def setDesc (i : Nat) (desc0 : UInt32) : Nat → DmaDesc := fun j =>
  if j = i then { s.pool i with desc0 := desc0 } else s.pool j

/-- What the processor reads in a receive buffer. -/
def view (i k : Nat) : UInt8 := (s.cache i k).getD (s.mem i k)

/-- `eth_device_ready`, for a device that has its interface. -/
def ethDeviceReady : EmacDev :=
  if s.rxNotice = false then { s with rxNotice := true, mailbox := s.mailbox + 1 } else s

/-- `emac_irq_handle`. -/
def emacIrqHandle (status : UInt32) : EmacDev :=
  let cleared := { s with masked := true, intEn := 0x00, rxCount := 0 }
  if status &&& rxInt ≠ 0 then cleared.ethDeviceReady else cleared

/-- One statement of `eth_rx_thread_entry` or of `t113_emac_rx`; `allocated` tells whether a
`pbuf_alloc` would succeed. -/
def thread (allocated : Bool) : Option EmacDev :=
  match s.pc with
  | .asleep =>
    if s.mailbox = 0 then none else some { s with mailbox := s.mailbox - 1, pc := .woken }
  | .woken => some { s with rxNotice := false, pc := .check }
  | .check => some { s with pc := if s.current.owned then .exit true none else .measure }
  | .measure => some { s with pc := .alloc (frameLen s.current.desc0) }
  | .alloc len => some { s with pc := if allocated then .handBack len else .count none }
  | .handBack len =>
    some { s with pool := s.setDesc s.index 0x80000000, pc := .invalidate len }
  | .invalidate len =>
    some { s with
      cache := fun i k => if i = s.index ∧ k < len then none else s.cache i k
      pc := .copy len }
  | .copy len => some { s with pc := .advance ((List.range len).map (s.view s.index)) }
  | .advance puf =>
    some { s with index := (s.index + 1) % emacDmaRxDescNum, pc := .count (some puf) }
  | .count puf => some { s with rxCount := s.rxCount + 1, pc := .exit false puf }
  | .exit overFlag puf =>
    some { s with
      pc := if emacRxFrameMax < s.rxCount ∨ overFlag = true then .reset puf else .back puf }
  | .reset puf => some { s with rxCount := 0, pc := .enable puf }
  | .enable puf => some { s with intEn := rxInt, pc := .unmask puf }
  | .unmask puf => some { s with masked := false, pc := .back puf }
  | .back none => some { s with pc := .asleep }
  | .back (some puf) => some { s with returned := s.returned ++ [puf], pc := .check }

/-- The DMA writes a frame and its length into the next descriptor, if it owns that. -/
def dmaWrite (frame : List UInt8) (desc0 : UInt32) : Option EmacDev :=
  if (s.pool s.dma).owned = true ∧ desc0 &&& ownBit = 0 ∧ frameLen desc0 = frame.length ∧
      frame.length ≤ ((s.pool s.dma).desc1 &&& 0x7ff).toNat then
    some { s with
      pool := s.setDesc s.dma desc0
      mem := fun i k => if i = (s.pool s.dma).desc2 then frame.getD k (s.mem i k) else s.mem i k
      dma := (s.pool s.dma).desc3
      arrived := s.arrived ++ [frame] }
  else none

end EmacDev

/-- What may happen next: the thread goes on, the interrupt comes with some status, the DMA has a
frame (and the first word of its descriptor), or the cache takes in a byte of a receive buffer. -/
inductive Event where
  | thread (allocated : Bool)
  | irq (status : UInt32)
  | dma (frame : List UInt8) (desc0 : UInt32)
  | fill (i k : Nat)

def EmacDev.step (s : EmacDev) : Event → Option EmacDev
  | .thread allocated => s.thread allocated
  | .irq status => some (s.emacIrqHandle status)
  | .dma frame desc0 => s.dmaWrite frame desc0
  | .fill i k => some { s with
      cache := fun j l => if j = i ∧ l = k then some (s.mem i k) else s.cache j l }

/-- A descriptor as `emac_dma_rx_desc_init` leaves it. -/
def rxDesc (i : Nat) : DmaDesc where
  desc0 := 0x80000000
  desc1 := 0x80000000 ||| (rxBufSize &&& 0x7ff)
  desc2 := i
  desc3 := if i + 1 < emacDmaRxDescNum then i + 1 else 0

/-- The driver as `t113_emac_init` leaves it, with any bytes in the buffers and in the cache. -/
def started (mem : Nat → Nat → UInt8) (cache : Nat → Nat → Option UInt8) : EmacDev where
  pc := .asleep
  mailbox := 0
  rxNotice := false
  rxCount := 0
  index := 0
  intEn := rxInt
  masked := false
  pool := rxDesc
  mem := mem
  cache := cache
  dma := 0
  arrived := []
  returned := []

/-- The same with zeros in the buffers, of which the cache has nothing. -/
def blank : EmacDev := started (fun _ _ => 0x00) fun _ _ => none

end T113Boot.Drivers.Emac
