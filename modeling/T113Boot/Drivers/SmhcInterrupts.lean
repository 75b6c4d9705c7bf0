/- Module: T113Boot/Drivers/SmhcInterrupts
   layer: model
   digest: The interrupt handler of the SD host driver, and a request with the interrupts in it. -/

import T113Boot.Drivers.Smhc

set_option autoImplicit false
set_option relaxedAutoImplicit false

namespace T113Boot.Drivers.SmhcInterrupts

open T113Boot.Drivers.Smhc

/-- What one interrupt reads: the raw status, the DMA status, and, where the command has data, the
raw status once more after it was acknowledged. -/
structure Irq where
  risr : UInt32
  idst : UInt32
  again : UInt32

/-- What the handler shares with the thread: `dev->flag` and the value of `dev->smhc_sem`. -/
structure Shared where
  risr : UInt32
  idst : UInt32
  sem : Nat

def rtSemValueMax : Nat := 65535

/-- The bit that tells that the data has been transferred. -/
def doneBit (data : MmcsdData) : UInt32 := if 1 < data.blks then bit 14 else bit 3

/-- Whether the handler releases the semaphore, with `risr` gathered so far. -/
def releases (data : Option MmcsdData) (risr : UInt32) (irq : Irq) : Bool :=
  match data with
  | none => true
  | some data => (risr ||| irq.again) &&& doneBit data != 0

/-- `smhc_interrupt_handle`. What it acknowledges is up to the controller, whose later answers may
be any. -/
def smhcInterruptHandle (data : Option MmcsdData) (shared : Shared) (irq : Irq) : Shared :=
  let risr := shared.risr ||| irq.risr
  { risr
    idst := shared.idst ||| irq.idst
    sem := if releases data risr irq ∧ shared.sem < rtSemValueMax then shared.sem + 1
      else shared.sem }

/-- A course that a request can take: the values that the thread reads from the registers, what the
semaphore and `dev->xfe` hold when it starts, the interrupts served until `rt_sem_take` returns,
until the thread has looked at `dev->flag.risr`, and behind that, and how the takes that drain the
semaphore end. -/
structure Course where
  reads : List UInt32
  sem : Nat
  xfe : SdmmcXfeDes
  waited : List Irq
  between : List Irq
  late : List Irq
  drained : List Bool

/-- What is shared when `rt_sem_take` returns; the request has cleared the flags. -/
def Course.atTake (c : Course) (data : Option MmcsdData) : Shared :=
  c.waited.foldl (smhcInterruptHandle data) ⟨0, 0, c.sem⟩

/-- The take succeeds if the semaphore holds a count before the time is out. -/
def Course.taken (c : Course) (data : Option MmcsdData) : Bool := 0 < (c.atTake data).sem

/-- What the thread finds in `dev->flag.risr`. -/
def Course.looked (c : Course) (data : Option MmcsdData) : UInt32 :=
  (c.between.foldl (smhcInterruptHandle data) (c.atTake data)).risr

/-- The driver's world on this course. -/
def Course.device (c : Course) (cmd : MmcsdCmd) : SmhcDev where
  reads := c.reads
  takes := c.taken cmd.data :: c.drained
  risrs := [c.looked cmd.data]
  cmd := cmd
  xfe := c.xfe
  acts := []

end T113Boot.Drivers.SmhcInterrupts
