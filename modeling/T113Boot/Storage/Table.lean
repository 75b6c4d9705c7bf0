/- Module: T113Boot/Storage/Table
   layer: model
   digest: The registry of partition devices and partitions, and the calls that go through it. -/

import T113Boot.Lib.LittleEndian
import T113Boot.Lib.Stoppable

set_option autoImplicit false
set_option relaxedAutoImplicit false

namespace T113Boot.Storage.Table

open T113Boot.Lib.LittleEndian
open T113Boot.Lib.Stoppable

/-! The limits and error codes of `partition.h`. -/

def partitionNameMax : Nat := 16
def partitionDevMax : Nat := 5
def partitionMax : Nat := 20

def partitionOk : Int := 0
def partitionErrParam : Int := -1
def partitionErrSize : Int := -2
def partitionErrFull : Int := -3
def partitionErrExist : Int := -4
def partitionErrNoexist : Int := -5
def partitionErrUnknown : Int := -6

/-- A C string without its terminator. -/
abbrev CStr := List UInt8

/-- A string literal of the source. -/
def cstr (s : String) : CStr := s.toList.map fun c => .ofNat c.toNat

/-- What a device read answers: its return code, and what it stored at `buf`. -/
abbrev Answer := Int × List UInt8

/-- `partition_dev_ops_t`, and the address it lies at; `none` is a function not set. -/
structure PartitionDevOps (σ : Type) where
  addr : UInt32
  init : Option (Prog σ Int)
  read : Option (UInt32 → UInt32 → UInt32 → Prog σ Answer)
  write : Option (UInt32 → UInt32 → List UInt8 → UInt32 → Prog σ Int)
  erase : Option (UInt32 → UInt32 → Prog σ Int)

/-- `struct partition_device`; `name` is the whole array. -/
structure PartitionDevice (σ : Type) where
  name : List UInt8
  size : UInt32
  ops : PartitionDevOps σ
  id : UInt32

/-- `struct partition`; `dev` points at a slot of the device table. -/
structure Partition where
  name : List UInt8
  start : UInt32
  size : UInt32
  dev : Nat
  id : UInt32
deriving DecidableEq

/-- The two tables, slot by slot: those in use, and behind them those that were in use before,
of which only the names were cleared. The device table lies at `devTable`. -/
structure Registry (σ : Type) where
  devTable : UInt32
  devices : List (PartitionDevice σ)
  partitions : List Partition
  freedDevices : List (PartitionDevice σ) := []
  freed : List Partition := []

variable {σ : Type}

def Registry.empty (devTable : UInt32) : Registry σ :=
  { devTable := devTable, devices := [], partitions := [] }

/-- `sizeof(struct partition_device)`. -/
def partitionDeviceSize : UInt32 := 28

/-- A `struct partition` in memory. A string that begins at the name ends within it: the upper
bytes of the number of a slot are zero. -/
def Partition.bytes (devTable : UInt32) (p : Partition) : List UInt8 :=
  p.name ++ (le32 p.start ++ le32 p.size ++ le32 (devTable + partitionDeviceSize * .ofNat p.dev) ++
    le32 p.id)

/-- A `struct partition_device` in memory. -/
def PartitionDevice.bytes (d : PartitionDevice σ) : List UInt8 :=
  d.name ++ (le32 d.size ++ le32 d.ops.addr ++ le32 d.id)

/-- `partition_strncmp` of the string `cs` with the memory `ct`: zero where the first `n`
characters agree, up to the end of `cs`. -/
def partitionStrncmp : CStr → List UInt8 → Nat → UInt8
  | _, _, 0 => 0
  | [], ct, _ + 1 => 0 - ct.headD 0
  | c :: cs, ct, n + 1 =>
    if c - ct.headD 0 ≠ 0 ∨ c = 0 then c - ct.headD 0 else partitionStrncmp cs ct.tail n

/-- `partition_memmove` of `n` bytes onto the start of an array. -/
def partitionMemmove (dest src : List UInt8) (n : Nat) : List UInt8 := src.take n ++ dest.drop n

/-- An array of characters that was never written. -/
def blankName : List UInt8 := List.replicate partitionNameMax 0

/-- The name as the register functions leave it in a fresh slot; below its end
`partition_strncpy` copies as `partition_memmove` does. -/
def storedName (name : CStr) : List UInt8 :=
  if name.length ≥ partitionNameMax then partitionMemmove blankName name partitionNameMax
  else partitionMemmove blankName name name.length

def partitionDeviceFind (reg : Registry σ) (devName : CStr) : Option Nat :=
  reg.devices.findIdx? fun d => partitionStrncmp devName d.bytes devName.length = 0

def partitionFind (reg : Registry σ) (name : CStr) : Option Partition :=
  reg.partitions.find? fun p => partitionStrncmp name (p.bytes reg.devTable) name.length = 0

def partitionDeviceRegister (reg : Registry σ) (devName : Option CStr)
    (ops : Option (PartitionDevOps σ)) (size : UInt32) : Int × Registry σ :=
  match devName, ops with
  | some devName, some ops =>
    if reg.devices.length ≥ partitionDevMax then (partitionErrFull, reg)
    else if (partitionDeviceFind reg devName).isSome then (partitionErrExist, reg)
    else (partitionOk, { reg with
      devices := reg.devices ++ [{ name := storedName devName, size := size, ops := ops,
                                   id := .ofNat reg.devices.length }]
      freedDevices := reg.freedDevices.tail })
  | _, _ => (partitionErrParam, reg)

def partitionRegister (reg : Registry σ) (partitionName devName : Option CStr)
    (start size : UInt32) : Int × Registry σ :=
  match partitionName, devName with
  | some partitionName, some devName =>
    if reg.partitions.length ≥ partitionMax then (partitionErrFull, reg)
    else
      match partitionDeviceFind reg devName with
      | none => (partitionErrNoexist, reg)
      | some dev =>
        if (partitionFind reg partitionName).isSome then (partitionErrExist, reg)
        else if start + size > (reg.devices[dev]?.map (·.size)).getD 0 then (partitionErrSize, reg)
        else (partitionOk, { reg with
          partitions := reg.partitions ++ [{ name := storedName partitionName, start := start,
                                             size := size, dev := dev,
                                             id := .ofNat reg.partitions.length }]
          freed := reg.freed.tail })
  | _, _ => (partitionErrParam, reg)

/-- The string that begins at a name, which ends at the first NUL. -/
def Partition.cname (devTable : UInt32) (p : Partition) : CStr :=
  (p.bytes devTable).takeWhile (· ≠ 0)

/-- `partition_unregister`. The entries behind the slot of the stored `id` move up one slot; what
they store does not change. `none` is a move whose length has wrapped below zero, after which
the memory holds no tables. -/
def partitionUnregister (reg : Registry σ) (partitionName : Option CStr) :
    Option (Int × Registry σ) :=
  match partitionName with
  | none => some (partitionErrParam, reg)
  | some partitionName =>
    match partitionFind reg partitionName with
    | none => some (partitionErrNoexist, reg)
    | some part =>
      if part.id.toNat > reg.partitions.length - 1 then none
      else
        let last := reg.partitions.getLast?.map fun p => { p with name := blankName }
        some (partitionOk, { reg with
          partitions := reg.partitions.eraseIdx part.id.toNat
          freed := last.toList ++ reg.freed })

/-- The loop of `partition_device_unregister` over the first slots of the partition table, as
many as there are devices: `n` of them are left, `i` is the next. -/
def unregisterOn (dev : Nat) : Nat → Nat → Registry σ → Option (Registry σ)
  | 0, _, reg => some reg
  | n + 1, i, reg =>
    match (reg.partitions ++ reg.freed)[i]? with
    | none => unregisterOn dev n (i + 1) reg
    | some part =>
      if part.dev = dev then
        match partitionUnregister reg (some (part.cname reg.devTable)) with
        | none => none
        | some (_, reg') => unregisterOn dev n (i + 1) reg'
      else unregisterOn dev n (i + 1) reg

/-- `partition_device_unregister`. `none` is the move of the devices behind the slot, which goes
to the partition table: raw device records then stand where its entries were. -/
def partitionDeviceUnregister (reg : Registry σ) (devName : Option CStr) :
    Option (Int × Registry σ) :=
  match devName with
  | none => some (partitionErrParam, reg)
  | some devName =>
    match partitionDeviceFind reg devName with
    | none => some (partitionErrNoexist, reg)
    | some dev =>
      match unregisterOn dev reg.devices.length 0 reg with
      | none => none
      | some reg' =>
        if (reg.devices[dev]?.map (·.id.toNat)) ≠ some (reg.devices.length - 1) then none
        else
          let last := reg.devices.getLast?.map fun d => { d with name := blankName }
          some (partitionOk, { reg' with
            devices := reg.devices.dropLast
            freedDevices := last.toList ++ reg.freedDevices })

/-- The operations of a partition's device, whose slot may have been freed. -/
def Registry.opsOf (reg : Registry σ) (p : Partition) : Option (PartitionDevOps σ) :=
  (reg.devices ++ reg.freedDevices)[p.dev]?.map (·.ops)

/-- `partition_read`; `buf` is the address read into, and the bytes answered lie there. -/
def partitionRead (reg : Registry σ) (partitionName : Option CStr) (buf offset len : UInt32) :
    Prog σ Answer :=
  match partitionName with
  | none => pure (partitionErrParam, [])
  | some name =>
    if buf = 0 then pure (partitionErrParam, [])
    else
      match partitionFind reg name with
      | none => pure (partitionErrNoexist, [])
      | some part =>
        if offset + len > part.size then pure (partitionErrSize, [])
        else
          match (reg.opsOf part).bind (·.read) with
          | none => pure (partitionErrUnknown, [])
          | some read => read (part.start + offset) buf len

/-- `partition_write` of `len` bytes of `bs`, the memory at the address `buf`. -/
def partitionWrite (reg : Registry σ) (partitionName : Option CStr) (buf : UInt32)
    (bs : List UInt8) (offset len : UInt32) : Prog σ Int :=
  match partitionName with
  | none => pure partitionErrParam
  | some name =>
    if buf = 0 then pure partitionErrParam
    else
      match partitionFind reg name with
      | none => pure partitionErrNoexist
      | some part =>
        if offset + len > part.size then pure partitionErrSize
        else
          match (reg.opsOf part).bind (·.write) with
          | none => pure partitionErrUnknown
          | some write => write (part.start + offset) buf bs len

def partitionErase (reg : Registry σ) (partitionName : Option CStr) (offset len : UInt32) :
    Prog σ Int :=
  match partitionName with
  | none => pure partitionErrParam
  | some name =>
    match partitionFind reg name with
    | none => pure partitionErrNoexist
    | some part =>
      if offset + len > part.size then pure partitionErrSize
      else
        match (reg.opsOf part).bind (·.erase) with
        | none => pure partitionErrUnknown
        | some erase => erase (part.start + offset) len

def partitionEraseAll (reg : Registry σ) (partitionName : Option CStr) : Prog σ Int :=
  match partitionName with
  | none => pure partitionErrParam
  | some name =>
    match partitionFind reg name with
    | none => pure partitionErrNoexist
    | some part =>
      match (reg.opsOf part).bind (·.erase) with
      | none => pure partitionErrUnknown
      | some erase => erase part.start part.size

end T113Boot.Storage.Table
