/- Module: T113Boot/Ymodem/Receive
   layer: model
   digest: The YMODEM receiver over a serial input with time-outs and a table of callbacks. -/

import T113Boot.Lib.Stoppable

set_option autoImplicit false
set_option relaxedAutoImplicit false

namespace T113Boot.Ymodem.Receive

open T113Boot.Lib.Stoppable
open Prog

/-! The constants of `ymodem.h` and `enum ymodem_cmd`. -/

def packetSize128 : Nat := 128
def packetSize1K : Nat := 1024
def ymodemMaxRetry : Nat := 100
def recvEndChar : UInt8 := 0x4F

def ymodemSoh : UInt8 := 0x01
def ymodemStx : UInt8 := 0x02
def ymodemEot : UInt8 := 0x04
def ymodemAck : UInt8 := 0x06
def ymodemNak : UInt8 := 0x15
def ymodemC : UInt8 := 0x43

def ymodemOk : Int := 0
def ymodemErrParam : Int := -1
def ymodemErrTimeout : Int := -2
def ymodemErrHeader : Int := -3
def ymodemErrData : Int := -5
def ymodemErrEot : Int := -7

/-- What `ymodem_receive_packet` returns at an end of transmission, `YMODEM_EOT` as an `int`. -/
def packetEot : Int := 4

/-- The wrap-around of the target's `int`. -/
def int32 (n : Int) : Int := n.bmod 4294967296

/-- The fields of `struct ymodem_frame` that outlive one packet; `buf` is `buffer_cache`. -/
structure YmodemFrame where
  pkgSize : Nat
  buf : List UInt8
  fileSize : Int

/-- The bytes of the last packet. -/
def YmodemFrame.packet (frame : YmodemFrame) : List UInt8 := frame.buf.take frame.pkgSize

structure YmodemHead where
  fileName : List UInt8
  nameLen : UInt32
  fileSize : UInt32
deriving DecidableEq

structure YmodemData where
  data : List UInt8
  offset : UInt32
  size : UInt32
deriving DecidableEq

/-- `ymodem_callback_t` over the state `τ` of its client; `none` is a function not set. -/
structure YmodemCallback (τ : Type) where
  ymodemStart : Option (YmodemHead → Prog τ Unit)
  ymodemRecvData : Option (YmodemData → Prog τ Unit)
  ymodemAbort : Option (Int → Prog τ Unit)
  ymodemFinish : Option (Prog τ Unit)

/-- What the receiver does that others see: a byte sent, or a callback made. -/
inductive YmodemEvent where
  | putchar (ch : UInt8)
  | start (head : YmodemHead)
  | recvData (data : YmodemData)
  | abort (err : Int)
  | finish
deriving DecidableEq

/-- The receiver's world: what each `ymodem_getchar` to come answers (`none` is a
time-out), the frame, what was done so far, and the client. -/
structure Receiver (τ : Type) where
  input : List (Option UInt8)
  frame : YmodemFrame
  trace : List YmodemEvent
  client : τ

variable {τ : Type}

abbrev RecvM (τ : Type) := Prog (Receiver τ)

/-! The port. A run that asks for more than the input tells is left waiting. -/

def ymodemGetchar : RecvM τ (Option UInt8) := fun s =>
  match s.input with
  | [] => (none, s)
  | c :: rest => (some c, { s with input := rest })

def emit (event : YmodemEvent) : RecvM τ Unit := modify fun s =>
  { s with trace := s.trace ++ [event] }

def ymodemPutchar (ch : UInt8) : RecvM τ Unit := emit (.putchar ch)

def setFrame (change : YmodemFrame → YmodemFrame) : RecvM τ Unit := modify fun s =>
  { s with frame := change s.frame }

/-- The client's part of a callback. -/
def inClient (f : Prog τ Unit) : RecvM τ Unit := fun s =>
  ((f s.client).1, { s with client := (f s.client).2 })

/-- A callback: made, and seen, only where the table has a function for it. -/
def call (event : YmodemEvent) : Option (Prog τ Unit) → RecvM τ Unit
  | none => pure ()
  | some f => emit event >>= fun _ => inClient f

def crc16Bit (crc : UInt16) : UInt16 :=
  if crc &&& 0x8000 ≠ 0 then (crc <<< 1) ^^^ 0x1021 else crc <<< 1

def crc16Byte (crc : UInt16) (b : UInt8) : UInt16 :=
  crc16Bit (crc16Bit (crc16Bit (crc16Bit (crc16Bit (crc16Bit (crc16Bit (crc16Bit
    (crc ^^^ (b.toUInt16 <<< 8)))))))))

def ymodemCrc16 (buf : List UInt8) : UInt16 := buf.foldl crc16Byte 0

/-- The checksum as its two bytes arrive. -/
def recvCrc (crcH crcL : UInt8) : UInt16 :=
  ((crcH.toUInt16 <<< 8) &&& 0xFF00) ||| (crcL.toUInt16 &&& 0x00FF)

def isDigit (c : UInt8) : Bool := 0x30 ≤ c && c ≤ 0x39

def digitsValue (digits : List UInt8) : Int :=
  digits.foldl (fun result c => int32 (result * 10 + (c.toNat - 48 : Int))) 0

/-- `ymodem_strtol` on the `n` bytes of `str`. -/
def ymodemStrtol (str : List UInt8) : Except Int Int :=
  if str = [] then .error (-1)
  else
    let blank := str.dropWhile fun c => c = 0x20 || c = 0x09
    let sign : Int := if blank.head? = some 0x2D then -1 else 1
    let number := if blank.head? = some 0x2D ∨ blank.head? = some 0x2B then blank.tail else blank
    let digits := number.takeWhile isDigit
    if digits = [] then .error (-2) else .ok (int32 (digitsValue digits * sign))

/-- `fname_len`: the file name with its terminator, or zero where there is none. -/
def fnameLen (packet : List UInt8) : Nat :=
  match packet.findIdx? (· == 0x00) with
  | some i => i + 1
  | none => 0

/-- `fsize_len`: the bytes up to the blank that ends the file size. -/
def fsizeLen (packet : List UInt8) : Nat :=
  ((packet.drop (fnameLen packet)).findIdx? (· == 0x20)).getD 0

/-- The file size that the first packet announces. -/
def announced (packet : List UInt8) : Except Int Int :=
  ymodemStrtol ((packet.drop (fnameLen packet)).take (fsizeLen packet))

/-- `n` bytes of the input; time-outs in between are passed over. -/
def takeBytes : List (Option UInt8) → Nat → Option (List UInt8 × List (Option UInt8))
  | input, 0 => some ([], input)
  | [], _ + 1 => none
  | none :: rest, n + 1 => takeBytes rest (n + 1)
  | some c :: rest, n + 1 => (takeBytes rest n).map fun (bs, left) => (c :: bs, left)

/-- The payload loop of `ymodem_receive_packet`, which waits for as long as it takes. -/
def recvPayload (n : Nat) : RecvM τ Unit := fun s =>
  match takeBytes s.input n with
  | none => (none, { s with input := [] })
  | some (bs, rest) => (some (), { s with
      input := rest
      frame := { s.frame with buf := bs ++ s.frame.buf.drop n } })

/-- A turn that failed after its first byte asks for the packet again. -/
def askAgain : RecvM τ (Option Int) := ymodemPutchar ymodemNak >>= fun _ => pure none

def recvChecksum : RecvM τ (Option Int) := do
  match ← ymodemGetchar with
  | none => askAgain
  | some crcH =>
    match ← ymodemGetchar with
    | none => askAgain
    | some crcL =>
      let s ← read
      if recvCrc crcH crcL ≠ ymodemCrc16 s.frame.packet then askAgain else pure (some ymodemOk)

def recvBody (pkgSize : Nat) : RecvM τ (Option Int) := do
  setFrame fun frame => { frame with pkgSize := pkgSize }
  match ← ymodemGetchar with
  | none => askAgain
  | some packNum =>
    match ← ymodemGetchar with
    | none => askAgain
    | some packMask =>
      if packNum ^^^ packMask ≠ 0xFF then askAgain
      else do
        recvPayload pkgSize
        recvChecksum

/-- One turn of the retry loop: `some ret` returns, `none` spends a retry. -/
def recvTurn : RecvM τ (Option Int) := do
  match ← ymodemGetchar with
  | none => pure none
  | some head =>
    if head = ymodemSoh then recvBody packetSize128
    else if head = ymodemStx then recvBody packetSize1K
    else if head = ymodemEot then pure (some packetEot)
    else pure none

def ymodemReceivePacket : Nat → RecvM τ Int
  | 0 => pure ymodemErrTimeout
  | retries + 1 => do
    match ← recvTurn with
    | some ret => pure ret
    | none => ymodemReceivePacket retries

/-- Ask for the first packet, `n` times at most. -/
def recvFirst : Nat → RecvM τ Bool
  | 0 => pure false
  | n + 1 => do
    ymodemPutchar ymodemC
    let ret ← ymodemReceivePacket ymodemMaxRetry
    if ret = 0 then pure true else recvFirst n

/-- The data loop. Every packet is longer than zero, so a fuel of `file_size` lasts. -/
def recvData (cb : YmodemCallback τ) : Nat → UInt32 → RecvM τ Int
  | 0, _ => pure ymodemOk
  | fuel + 1, offset => do
    let s ← read
    if 0 < s.frame.fileSize then do
      let ret ← ymodemReceivePacket ymodemMaxRetry
      if ret ≠ 0 then do
        call (.abort ymodemErrData) (cb.ymodemAbort.map (· ymodemErrData))
        pure ymodemErrData
      else do
        let s ← read
        let data : YmodemData :=
          { data := s.frame.packet, offset := offset, size := .ofNat s.frame.pkgSize }
        call (.recvData data) (cb.ymodemRecvData.map (· data))
        setFrame fun frame => { frame with fileSize := frame.fileSize - frame.pkgSize }
        ymodemPutchar ymodemAck
        recvData cb fuel (offset + .ofNat s.frame.pkgSize)
    else pure ymodemOk

/-- The last block of the session, which has to be empty. -/
def recvLast (cb : YmodemCallback τ) : RecvM τ Int := do
  let s ← read
  if s.frame.packet.all (· == 0x00) then do
    ymodemPutchar ymodemAck
    call .finish cb.ymodemFinish
    ymodemPutchar recvEndChar
    pure ymodemOk
  else do
    call (.abort ymodemErrEot) (cb.ymodemAbort.map (· ymodemErrEot))
    pure ymodemErrEot

/-- From the end of the data on. -/
def recvClosing (cb : YmodemCallback τ) : RecvM τ Int := do
  let first ← ymodemReceivePacket ymodemMaxRetry
  if first = packetEot then do
    ymodemPutchar ymodemNak
    let second ← ymodemReceivePacket ymodemMaxRetry
    if second = packetEot then do
      ymodemPutchar ymodemAck
      ymodemPutchar ymodemC
      let last ← ymodemReceivePacket ymodemMaxRetry
      if last = 0 then recvLast cb else pure ymodemOk
    else pure ymodemOk
  else pure ymodemOk

/-- From the file size on: the announcement to the client, the data and the closing. -/
def recvFile (cb : YmodemCallback τ) (nameLen : Nat) (fileSize : Int) : RecvM τ Int := do
  setFrame fun frame => { frame with fileSize := fileSize }
  let s ← read
  let head : YmodemHead :=
    { fileName := s.frame.buf, nameLen := .ofNat nameLen, fileSize := .ofInt fileSize }
  call (.start head) (cb.ymodemStart.map (· head))
  ymodemPutchar ymodemAck
  ymodemPutchar ymodemC
  let ret ← recvData cb fileSize.toNat 0
  if ret ≠ 0 then pure ret else recvClosing cb

/-- `ymodem_receive`; `port` tells whether `ymodem_init` has set a port. -/
def ymodemReceive (port : Bool) : Option (YmodemCallback τ) → RecvM τ Int
  | none => pure ymodemErrParam
  | some cb =>
    if port = false then pure ymodemErrParam
    else do
      let begun ← recvFirst ymodemMaxRetry
      if begun = false then do
        call (.abort ymodemErrTimeout) (cb.ymodemAbort.map (· ymodemErrTimeout))
        pure ymodemErrTimeout
      else do
        let s ← read
        match announced s.frame.packet with
        | .error _ => do
          call (.abort ymodemErrHeader) (cb.ymodemAbort.map (· ymodemErrHeader))
          pure ymodemErrHeader
        | .ok fileSize => recvFile cb (fnameLen s.frame.packet) fileSize

end T113Boot.Ymodem.Receive
