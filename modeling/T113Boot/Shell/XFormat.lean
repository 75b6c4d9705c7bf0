/- Module: T113Boot/Shell/XFormat
   layer: model
   digest: xvformat: a table-driven machine that reads a format and sends characters. -/

import T113Boot.Storage.Table

set_option autoImplicit false
set_option relaxedAutoImplicit false

namespace T113Boot.Shell.XFormat

open T113Boot.Storage.Table (CStr)

def formatStates : List Nat := [
  0x06, 0x00, 0x00, 0x06, 0x00, 0x01, 0x00, 0x00, 0x10, 0x00, 0x03, 0x06, 0x00, 0x06, 0x02, 0x10,
  0x04, 0x45, 0x45, 0x45, 0x45, 0x05, 0x05, 0x05, 0x05, 0x35, 0x30, 0x00, 0x50, 0x60, 0x00, 0x00,
  0x00, 0x20, 0x28, 0x38, 0x50, 0x50, 0x00, 0x00, 0x00, 0x30, 0x30, 0x30, 0x50, 0x50, 0x00, 0x00,
  0x08, 0x20, 0x20, 0x28, 0x20, 0x20, 0x20, 0x00, 0x08, 0x60, 0x60, 0x60, 0x60, 0x60, 0x60, 0x00,
  0x00, 0x70, 0x78, 0x78, 0x78, 0x70, 0x78, 0x00, 0x07, 0x08, 0x00, 0x00, 0x07, 0x00, 0x00, 0x08,
  0x08, 0x00, 0x00, 0x08, 0x00, 0x08, 0x00, 0x00, 0x08, 0x00, 0x07]

/-- `enum State`. -/
inductive State
  | normal
  | percent
  | flag
  | width
  | dot
  | precis
  | size
  | type
deriving DecidableEq

def State.code : State → Nat
  | .normal => 0
  | .percent => 1
  | .flag => 2
  | .width => 3
  | .dot => 4
  | .precis => 5
  | .size => 6
  | .type => 7

def State.ofCode : Nat → State
  | 1 => .percent
  | 2 => .flag
  | 3 => .width
  | 4 => .dot
  | 5 => .precis
  | 6 => .size
  | 7 => .type
  | _ => .normal

/-- The class of a character, of `enum CharClass`. -/
def charClass (c : UInt8) : Nat :=
  if c < 0x20 ∨ c > 0x7A then 0 else formatStates.getD (c.toNat - 0x20) 0 % 16

def State.next (state : State) (c : UInt8) : State :=
  .ofCode (formatStates.getD (charClass c * 8 + state.code) 0 / 16)

/-- The type of the argument, in the two low bits of the flags. -/
inductive ArgType
  | int
  | long
  | sizeof
deriving DecidableEq

/-- The flags that are read again. -/
structure Flags where
  type : ArgType
  left : Bool
  blank : Bool
  prefixed : Bool
  plus : Bool
  upper : Bool
  decimal : Bool
  integer : Bool
  minus : Bool
deriving DecidableEq

def noFlags : Flags := ⟨.int, false, false, false, false, false, false, false, false⟩

/-- `struct param_s`, but for what floating point numbers need. `out` is what the pointer leads to,
from there on. -/
structure Param where
  lvalue : UInt32
  out : CStr
  length : Int
  prec : Int
  width : Int
  count : UInt32
  flags : Flags
  prefixlen : Nat
  prefix0 : UInt8
  prefix1 : UInt8
  radix : Nat
  pad : UInt8
  state : State

/-- The parameters, the arguments that are left, and the characters that were sent. -/
structure Machine where
  param : Param
  args : List UInt32
  sent : CStr

/-- The size of `buffer`: one more than the bits of a `long`. -/
def bufferSize : Nat := 33

def msNull : CStr := [0x28, 0x6E, 0x75, 0x6C, 0x6C, 0x29]

def msTrue : CStr := [0x54, 0x72, 0x75, 0x65]

def msFalse : CStr := [0x46, 0x61, 0x6C, 0x73, 0x65]

/-- `ms_digits`. -/
def msDigits : CStr := [0x30, 0x31, 0x32, 0x33, 0x34, 0x35, 0x36, 0x37, 0x38, 0x39,
  0x61, 0x62, 0x63, 0x64, 0x65, 0x66]

/-- The signed number that a word is. -/
def signed (w : UInt32) : Int := if w.toNat < 2147483648 then w.toNat else w.toNat - 4294967296

/-- One digit of `ulong2a`, and the value that is left. -/
def takeDigit (radix : Nat) (lvalue : UInt32) : UInt32 × UInt32 :=
  match radix with
  | 2 => (lvalue &&& 0x01, lvalue >>> 1)
  | 8 => (lvalue &&& 0x07, lvalue >>> 3)
  | 16 => (lvalue &&& 0x0F, lvalue >>> 4)
  | _ => (lvalue % 10, lvalue / 10)

/-- The least `int`, below which no `int` is counted down. -/
def intMin : Int := -2147483648

/-- `ulong2a`, in a buffer with `room` characters below. `none`: it stores below the buffer, or the
precision is counted down too far. -/
def ulong2a (radix : Nat) : Nat → Int → UInt32 → CStr → Option CStr
  | room, prec, lvalue, out =>
    if prec ≤ intMin then none
    else if prec > 0 ∨ lvalue ≠ 0 then
      match room with
      | 0 => none
      | room + 1 =>
        let (digit, lvalue) := takeDigit radix lvalue
        ulong2a radix room (prec - 1) lvalue (msDigits.getD digit.toNat 0 :: out)
    else some out

/-- `outBuffer`: what it sends. -/
def outBuffer (buffer : CStr) (len : Int) (toupper : Bool) : CStr :=
  (buffer.take len.toNat).map fun c =>
    if toupper ∧ 0x61 ≤ c ∧ c ≤ 0x7A then c - 0x20 else c

def outChars (ch : UInt8) (len : Int) : CStr := List.replicate len.toNat ch

/-- `va_arg`. `none`: there is no argument left. -/
def vaArg (args : List UInt32) : Option (UInt32 × List UInt32) :=
  match args with
  | [] => none
  | w :: args => some (w, args)

/-- The next digit of a width or a precision. `none`: an `int` does not hold the number. -/
def addDigit (n : Int) (c : UInt8) : Option Int :=
  let n := n * 10 + (c.toNat - 0x30)
  if n ≤ 2147483647 then some n else none

/-- A width or a precision grows by a digit or is taken from the arguments. -/
def readCount (n : Int) (c : UInt8) (args : List UInt32) : Option (Int × List UInt32) :=
  if c = 0x2A then (vaArg args).map fun (w, args) => (signed w, args)
  else (addDigit n c).map fun n => (n, args)

def readSize (flags : Flags) (c : UInt8) : Flags :=
  if c = 0x7A then { flags with type := .sizeof }
  else if c = 0x6C then { flags with type := .long }
  else flags

def readFlag (p : Param) (c : UInt8) : Param :=
  if c = 0x2D then { p with flags := { p.flags with left := true } }
  else if c = 0x30 then { p with pad := 0x30 }
  else if c = 0x20 then { p with flags := { p.flags with blank := true } }
  else if c = 0x23 then { p with flags := { p.flags with prefixed := true } }
  else if c = 0x2B then { p with flags := { p.flags with plus := true } }
  else p

/-- The prefix that a `#` asks for. -/
def withPrefix (p : Param) (prefix0 prefix1 : UInt8) (len : Nat) : Param :=
  if p.flags.prefixed then { p with prefix0, prefix1, prefixlen := len } else p

def setInteger (p : Param) (radix : Nat) : Param :=
  { p with flags := { p.flags with integer := true }, radix }

def setUpper (p : Param) : Param := { p with flags := { p.flags with upper := true } }

/-- The type of a field. `text` is the string at a pointer. `none`: there is no argument left, or
the type is that of a floating point number. -/
def readType (text : UInt32 → CStr) (p : Param) (c : UInt8) (args : List UInt32) :
    Option (Param × List UInt32) :=
  let pointer (p : Param) : Param :=
    { p with
      flags := { p.flags with integer := true, type := .sizeof }
      radix := 16
      prec := 8
      prefix0 := 0x2D
      prefix1 := 0x3E
      prefixlen := 2 }
  let string (p : Param) : Option (Param × List UInt32) := (vaArg args).map fun (w, args) =>
    let out := if w = 0 then msNull else text w
    ({ p with out, length := signed (.ofNat out.length) }, args)
  let char (p : Param) : Option (Param × List UInt32) := (vaArg args).map fun (w, args) =>
    ({ p with out := [w.toUInt8], length := 1 }, args)
  if c = 0x50 then some (pointer (setUpper p), args)
  else if c = 0x70 then some (pointer p, args)
  else if c = 0x62 then some (withPrefix (setInteger p 2) 0x30 0x62 2, args)
  else if c = 0x6F then some (withPrefix (setInteger p 8) 0x30 p.prefix1 1, args)
  else if c = 0x58 then some (withPrefix (setInteger (setUpper p) 16) 0x30 0x78 2, args)
  else if c = 0x78 then some (withPrefix (setInteger p 16) 0x30 0x78 2, args)
  else if c = 0x64 ∨ c = 0x69 then
    some (setInteger { p with flags := { p.flags with decimal := true } } 10, args)
  else if c = 0x75 then some (setInteger p 10, args)
  else if c = 0x53 then string (setUpper p)
  else if c = 0x73 then string p
  else if c = 0x43 then char (setUpper p)
  else if c = 0x63 then char p
  else if c = 0x42 then (vaArg args).map fun (w, args) =>
    let out := if w ≠ 0 then msTrue else msFalse
    ({ p with out, length := out.length }, args)
  else if c = 0x66 then none
  else some ({ p with length := 0 }, args)

/-- "Manage signed integer". -/
def manageSign (p : Param) : Param :=
  if p.flags.decimal then
    let p :=
      if signed p.lvalue < 0 then
        { p with lvalue := ~~~p.lvalue + 1, flags := { p.flags with minus := true } }
      else p
    if ¬ p.flags.minus ∧ p.flags.blank then { p with prefix0 := 0x20, prefixlen := 1 } else p
  else p

/-- "Check if a sign is required". `none`: it stores below the buffer. -/
def addSign (p : Param) : Option Param :=
  if p.flags.minus ∨ p.flags.plus then
    let c : UInt8 := if p.flags.minus then 0x2D else 0x2B
    if p.pad = 0x30 then some { p with prefixlen := 1, prefix0 := c }
    else if p.out.length < bufferSize then
      some { p with out := c :: p.out, length := p.length + 1 }
    else none
  else some p

/-- "Process integer number". -/
def processInteger (p : Param) (args : List UInt32) : Option (Param × List UInt32) :=
  let p := if p.prec = 0 then { p with prec := 1 } else p
  (vaArg args).bind fun (w, args) =>
    let p := { p with lvalue := w }
    let p := if p.flags.prefixed ∧ p.lvalue = 0 then { p with prefixlen := 0 } else p
    let p := manageSign p
    (ulong2a p.radix bufferSize p.prec p.lvalue []).bind fun digits =>
      (addSign { p with out := digits, length := p.length + digits.length }).map fun p => (p, args)

/-- Other fields are cut off at their width. -/
def cutOff (p : Param) : Param :=
  if p.width ≠ 0 ∧ p.length > p.width then { p with length := p.width } else p

/-- What a field sends. `none`: no `int` holds the width of the padding. -/
def field (p : Param) : Option CStr :=
  let width := p.width - (p.length + p.prefixlen)
  if width < intMin then none
  else some <|
    outBuffer [p.prefix0, p.prefix1] p.prefixlen p.flags.upper ++
      ((if p.flags.left then [] else outChars p.pad width) ++
        (outBuffer p.out p.length p.flags.upper ++
          if p.flags.left then outChars p.pad width else []))

/-- `outchar`, with the count. -/
def Machine.send (s : Machine) (cs : CStr) : Machine :=
  { s with
    sent := s.sent ++ cs
    param := { s.param with count := s.param.count + .ofNat cs.length } }

/-- One character of the format. -/
def takeChar (text : UInt32 → CStr) (s : Machine) (c : UInt8) : Option Machine :=
  let s := { s with param := { s.param with state := s.param.state.next c } }
  let p := s.param
  match p.state with
  | .normal => some (s.send [c])
  | .percent => some { s with param :=
      { p with length := 0, prefixlen := 0, width := 0, prec := 0, flags := noFlags, pad := 0x20 } }
  | .width => (readCount p.width c s.args).map fun (width, args) =>
      { s with param := { p with width }, args }
  | .dot => some s
  | .precis => (readCount p.prec c s.args).map fun (prec, args) =>
      { s with param := { p with prec }, args }
  | .size => some { s with param := { p with flags := readSize p.flags c } }
  | .flag => some { s with param := readFlag p c }
  | .type => (readType text p c s.args).bind fun (p, args) =>
      (if p.flags.integer then processInteger p args else some (cutOff p, args)).bind
        fun (p, args) => (field p).map (Machine.send ⟨p, args, s.sent⟩)

/-- `xvformat`, with what the parameters hold before: what is sent, and the count. -/
def xvformat (text : UInt32 → CStr) (param : Param) (fmt : CStr) (args : List UInt32) :
    Option (CStr × UInt32) :=
  let s : Machine := ⟨{ param with count := 0, state := .normal }, args, []⟩
  (fmt.foldlM (takeChar text) s).map fun s => (s.sent, s.param.count)

end T113Boot.Shell.XFormat
