/- Module: T113Boot/Ota/Board
   layer: model
   digest: The board around the OTA code: flash, memory, serial line, faults and supply. -/

import T113Boot.Nand.Port
import T113Boot.Storage.Names
import T113Boot.Ymodem.Receive

set_option autoImplicit false
set_option relaxedAutoImplicit false

namespace T113Boot.Ota.Board

open T113Boot.Lib.Cells
open T113Boot.Lib.Stoppable
open Prog
open T113Boot.Nand.Chip
open T113Boot.Nand.Port
open T113Boot.Storage.Table
open T113Boot.Storage.Names
open T113Boot.Ymodem.Receive

/-- A device call that fails: what it returns, and what it leaves at the start of its own
range of the flash or of its buffer. -/
structure Fault where
  code : Int
  code_ne : code ≠ 0
  left : List UInt8

inductive DevKind where
  | erase
  | write
deriving DecidableEq

/-- A call that may change the flash. -/
structure DevCall where
  kind : DevKind
  addr : UInt32
  size : UInt32
deriving DecidableEq

inductive OtaFn where
  | update
  | backup
deriving DecidableEq

/-- A finished call of an OTA function, with the `Param` record before and after it. -/
structure CallRecord where
  fn : OtaFn
  ret : Int
  before : List UInt8
  after : List UInt8

/-- The state of the board. `faults` tells of each device call to come whether it fails
(past its end none does), and `power` how many more calls that may change the flash the
supply lasts for. `trace` and `calls` record the calls made. -/
structure World where
  flash : Mem
  ram : UInt32 → UInt8
  port : Bool
  input : List (Option UInt8)
  frame : YmodemFrame
  faults : List (Option Fault)
  power : Option Nat
  trace : List DevCall
  calls : List CallRecord

def ramWindow (ram : UInt32 → UInt8) (a size : UInt32) : List UInt8 :=
  (List.range size.toNat).map fun i => ram (a + .ofNat i)

def ramStore (ram : UInt32 → UInt8) (a : UInt32) (bs : List UInt8) : UInt32 → UInt8 := fun x =>
  if (x - a).toNat < bs.length then bs.getD (x - a).toNat 0 else ram x

def nextFault : Prog World (Option Fault) := fun w =>
  (some (w.faults.headD none), { w with faults := w.faults.tail })

/-- Without supply the call is not made. -/
def draw (call : DevCall) : Prog World Unit := fun w =>
  match w.power with
  | some 0 => (none, w)
  | some (n + 1) => (some (), { w with power := some n, trace := w.trace ++ [call] })
  | none => (some (), { w with trace := w.trace ++ [call] })

/-- A device call that fails after it has changed part of its range. -/
def failWrite (addr size : UInt32) (f : Fault) : Prog World Int := fun w =>
  (some f.code, { w with flash := store w.flash addr.toNat (f.left.take size.toNat) })

def deviceRead (addr buf size : UInt32) : Prog World Answer := do
  match ← nextFault with
  | some f => pure (f.code, f.left.take size.toNat)
  | none => fun w => (some (partitionNandRead w.flash addr buf size), w)

def deviceWrite (addr buf : UInt32) (bs : List UInt8) (size : UInt32) : Prog World Int := do
  draw ⟨.write, addr, size⟩
  match ← nextFault with
  | some f => failWrite addr size f
  | none => fun w =>
    let answer := partitionNandWrite w.flash addr buf bs size
    (some answer.1, { w with flash := answer.2 })

def deviceErase (addr size : UInt32) : Prog World Int := do
  draw ⟨.erase, addr, size⟩
  match ← nextFault with
  | some f => failWrite addr size f
  | none => fun w =>
    match partitionNandErase w.flash addr size with
    | none => (none, w)
    | some (ret, flash) => (some ret, { w with flash := flash })

/-- `partition_nand_ops`. It lies at 0, as the device table does: an address is compared with no
name that fits its array. -/
def partitionNandOps : PartitionDevOps World :=
  { addr := 0, init := some (pure 0), read := some deviceRead, write := some deviceWrite
    erase := some deviceErase }

/-- `partition_nand_register`. -/
def partitionNandRegister (reg : Registry World) : Int × Registry World :=
  let devName := some (cstr "nand_flash")
  let device := partitionDeviceRegister reg devName (some partitionNandOps) (.ofNat totalSize)
  if device.1 ≠ 0 then (-1, device.2)
  else
    let boot0 := partitionRegister device.2 (some (cstr "boot0")) devName (0 * 2048) (512 * 2048)
    let boot1 := partitionRegister boot0.2 (some (cstr "boot1")) devName (512 * 2048) (512 * 2048)
    let app1 := partitionRegister boot1.2 (some (cstr "APP1")) devName (1024 * 2048) (512 * 2048)
    let app2 := partitionRegister app1.2 (some (cstr "APP2")) devName (1536 * 2048) (512 * 2048)
    let download := partitionRegister app2.2 (some (cstr "Download")) devName (2048 * 2048) (512 * 2048)
    let param := partitionRegister download.2 (some (cstr "Param")) devName (2560 * 2048) (60 * 2048)
    if boot0.1 + boot1.1 + app1.1 + app2.1 + download.1 + param.1 ≠ 0 then (-1, param.2)
    else (0, param.2)

/-- The registry the OTA code works with. -/
def registry : Registry World := (partitionNandRegister (.empty 0)).2

theorem partitionNandRegister_ok : (partitionNandRegister (.empty 0)).1 = 0 := by decide

/-- Wherever the device table lies, a name that fits its array finds the same partition. -/
theorem partitionFind_registry (devTable : UInt32) {name : CStr}
    (short : name.length ≤ partitionNameMax) :
    partitionFind { registry with devTable := devTable } name = partitionFind registry name :=
  partitionFind_moved (by decide) short devTable

def downPart : CStr := cstr "Download"
def app1Part : CStr := cstr "APP1"
def app2Part : CStr := cstr "APP2"
def paraPart : CStr := cstr "Param"

/-- A partition that the registry finds, inside the device and with room for a record. -/
structure Region where
  name : CStr
  start : UInt32
  size : UInt32
  entry : Partition
  found : partitionFind registry name = some entry
  onNand : entry.dev = 0
  start_eq : entry.start = start
  size_eq : entry.size = size
  inside : start.toNat + size.toNat ≤ totalSize
  room : 32 ≤ size.toNat

def download : Region :=
  { name := downPart, start := 4194304, size := 1048576
    entry := ⟨storedName downPart, 4194304, 1048576, 0, 4⟩
    found := by decide, onNand := rfl, start_eq := rfl, size_eq := rfl, inside := by decide
    room := by decide }

def app1 : Region :=
  { name := app1Part, start := 2097152, size := 1048576
    entry := ⟨storedName app1Part, 2097152, 1048576, 0, 2⟩
    found := by decide, onNand := rfl, start_eq := rfl, size_eq := rfl, inside := by decide
    room := by decide }

def app2 : Region :=
  { name := app2Part, start := 3145728, size := 1048576
    entry := ⟨storedName app2Part, 3145728, 1048576, 0, 3⟩
    found := by decide, onNand := rfl, start_eq := rfl, size_eq := rfl, inside := by decide
    room := by decide }

def param : Region :=
  { name := paraPart, start := 5242880, size := 122880
    entry := ⟨storedName paraPart, 5242880, 122880, 0, 5⟩
    found := by decide, onNand := rfl, start_eq := rfl, size_eq := rfl, inside := by decide
    room := by decide }

end T113Boot.Ota.Board
