/- Module: T113Boot/Drivers/Twi
   layer: model
   digest: The I2C driver: calls, their messages, and the interrupt between any two statements. -/

import T113Boot.Lib.Cells

set_option autoImplicit false
set_option relaxedAutoImplicit false

namespace T113Boot.Drivers.Twi

open T113Boot.Lib.Cells

def rtI2cRd : UInt16 := 1

/-- `struct rt_i2c_msg`. -/
structure RtI2cMsg where
  addr : UInt16
  flags : UInt16
  len : UInt16
  buf : Nat

namespace RtI2cMsg

/-- The flag, as RT-Thread means it; the driver compares all the flags with it. -/
def isRead (msg : RtI2cMsg) : Bool := msg.flags &&& rtI2cRd != 0

/-- The byte with which the slave is addressed. -/
def address (msg : RtI2cMsg) : UInt8 :=
  let addr := msg.addr.toUInt32 <<< 1
  (if msg.flags = rtI2cRd then addr ||| rtI2cRd.toUInt32 else addr).toUInt8

/-- `&msgs->buf[msg_ptr]`. -/
def cell (msg : RtI2cMsg) (msgPtr : UInt32) : Nat := msg.buf + msgPtr.toNat

/-- What is in the buffer. -/
def holds (msg : RtI2cMsg) (mem : Mem) : List UInt8 := slice mem msg.buf msg.len.toNat

end RtI2cMsg

/-- What the driver has the controller do, and the bytes it takes from it. -/
inductive Signal where
  | start
  | stop
  | ack
  | nack
  | address (byte : UInt8)
  | put (byte : UInt8)
  | got (byte : UInt8)
deriving DecidableEq

/-- An access to the buffer of the message that the device points to, if there is one. -/
structure Access where
  msgs : Option RtI2cMsg
  index : UInt32

/-- A message for which `twi_xfer` returned `RT_EOK`: what its buffer held when it was made the
device's, what passed since its START signal, and what the buffer held in the end. -/
structure Transfer where
  msg : RtI2cMsg
  held : List UInt8
  bus : List Signal
  left : List UInt8

/-- The statement that the calling thread is about to run. The message is `msgs[i]`, and `rest` are
those behind it. -/
inductive Pc where
  | idle
  | select (rest : List RtI2cMsg) (num : Nat)
  | unlock (msg : RtI2cMsg) (rest : List RtI2cMsg) (num : Nat)
  | start (msg : RtI2cMsg) (rest : List RtI2cMsg) (num : Nat)
  | poll (msg : RtI2cMsg) (cnt : Nat) (rest : List RtI2cMsg) (num : Nat)

/-- The device, the memory and the thread. The device points to no message before the first one, and
from the return of a call on, with which its messages go. And what has happened: what the buffer held when the
message was made the device's, what passed since the last START signal, the accesses to buffers, the
messages that succeeded, and what the calls returned. -/
structure TwiDev where
  msgPtr : UInt32
  errorCode : UInt32
  lock : Bool
  msgs : Option RtI2cMsg
  mem : Mem
  pc : Pc
  held : List UInt8
  bus : List Signal
  accesses : List Access
  succeeded : List Transfer
  returned : List Nat

namespace TwiDev

variable (s : TwiDev)

def signal (sig : Signal) : TwiDev := { s with bus := s.bus ++ [sig] }

/-- The message read through the pointer: where there is none, memory shows `stale`. -/
def message (stale : RtI2cMsg) : RtI2cMsg := s.msgs.getD stale

def access : TwiDev := { s with accesses := s.accesses ++ [⟨s.msgs, s.msgPtr⟩] }

/-- `msg_ptr++`. -/
def next : TwiDev := { s with msgPtr := s.msgPtr + 1 }

/-- An error ends the message on the bus, and nothing else. -/
def error (code : UInt32) : TwiDev := { s with errorCode := code, bus := s.bus ++ [.stop] }

def finish : TwiDev := { s with lock := true, msgPtr := 0, bus := s.bus ++ [.stop] }

def putAddress (msg : RtI2cMsg) : TwiDev := s.signal (.address msg.address)

def putNext (msg : RtI2cMsg) : TwiDev :=
  if s.msgPtr < msg.len.toUInt32 then (s.access.signal (.put (s.mem (msg.cell s.msgPtr)))).next
  else s.finish

def enableAck (msg : RtI2cMsg) : TwiDev := if 1 < msg.len then s.signal .ack else s

/-- Before the last but one byte the acknowledgements are switched off. -/
def lastButOne (msg : RtI2cMsg) : TwiDev :=
  if s.msgPtr + 2 = msg.len.toUInt32 then s.signal .nack else s

/-- A byte is taken and stored where the index points. -/
def take (msg : RtI2cMsg) (data : UInt8) : TwiDev :=
  { s.access.signal (.got data) with mem := store s.mem (msg.cell s.msgPtr) [data] }

def getNext (msg : RtI2cMsg) (data : UInt8) : TwiDev :=
  if s.msgPtr < msg.len.toUInt32 then ((s.lastButOne msg).take msg data).next else s

def getLast (msg : RtI2cMsg) (data : UInt8) : TwiDev :=
  if s.msgPtr = msg.len.toUInt32 - 1 then (s.take msg data).finish else s

/-- The interrupt, with what it finds in the status and in the data register, and behind a pointer
to no message. -/
def twiIrqHandler (stat : UInt32) (data : UInt8) (stale : RtI2cMsg) : TwiDev :=
  if stat = 0xF8 then s.error 0xF8
  else if stat = 0x08 ∨ stat = 0x10 then s.putAddress (s.message stale)
  else if stat = 0xd8 ∨ stat = 0x20 then s.error 0x20
  else if stat = 0x18 ∨ stat = 0xd0 ∨ stat = 0x28 then s.putNext (s.message stale)
  else if stat = 0x30 then s.error 0x30
  else if stat = 0x38 then s.error 0x38
  else if stat = 0x40 then s.enableAck (s.message stale)
  else if stat = 0x48 then s.error 0x48
  else if stat = 0x50 then s.getNext (s.message stale) data
  else if stat = 0x58 then s.getLast (s.message stale) data
  else if stat = 0x00 then s.error 0xFF
  else s.error stat

/-- One statement of `t113_twi_master_xfer`, or of the `twi_xfer` it calls for each message. A look
at the flag and the delay after it are one. -/
def thread : Option TwiDev :=
  match s.pc with
  | .idle => none
  | .select [] num => some { s with returned := s.returned ++ [num], msgs := none, pc := .idle }
  | .select (msg :: rest) num =>
    some { s with msgs := some msg, held := msg.holds s.mem, pc := .unlock msg rest num }
  | .unlock msg rest num => some { s with lock := false, pc := .start msg rest num }
  | .start msg rest num => some { s with bus := [.start], pc := .poll msg 0 rest num }
  | .poll msg cnt rest num =>
    if s.lock = true then
      some { s with
        succeeded := s.succeeded ++ [⟨msg, s.held, s.bus, msg.holds s.mem⟩]
        pc := .select rest num }
    else if 10 < cnt then some { s with returned := s.returned ++ [0], msgs := none, pc := .idle }
    else some { s with pc := .poll msg (cnt + 1) rest num }

/-- The address lies in the buffer of a message that is waited for. -/
def busy (p : Nat) : Bool :=
  match s.pc with
  | .poll msg _ _ _ => msg.buf ≤ p && p < msg.buf + msg.len.toNat
  | _ => false

end TwiDev

/-- What may come next: a call, a statement of the thread, an interrupt, or a store of anybody else,
who leaves the buffer alone while its message is waited for. -/
inductive Event where
  | call (msgs : List RtI2cMsg)
  | thread
  | irq (stat : UInt32) (data : UInt8) (stale : RtI2cMsg)
  | write (p : Nat) (v : UInt8)

def TwiDev.step (s : TwiDev) : Event → Option TwiDev
  | .call msgs =>
    match s.pc with
    | .idle => some { s with pc := .select msgs msgs.length }
    | _ => none
  | .thread => s.thread
  | .irq stat data stale => some (s.twiIrqHandler stat data stale)
  | .write p v => if s.busy p = true then none else some { s with mem := store s.mem p [v] }

/-- The device as it is defined. -/
def twi0 (mem : Mem) : TwiDev where
  msgPtr := 0
  errorCode := 0
  lock := false
  msgs := none
  mem := mem
  pc := .idle
  held := []
  bus := []
  accesses := []
  succeeded := []
  returned := []

end T113Boot.Drivers.Twi
