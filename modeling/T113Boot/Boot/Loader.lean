/- Module: T113Boot/Boot/Loader
   layer: model
   digest: `boot_firmware`, its retries and its rollback. -/

import T113Boot.Ota.Firmware

set_option autoImplicit false
set_option relaxedAutoImplicit false

namespace T113Boot.Boot.Loader

open T113Boot.Lib.Stoppable
open Prog
open T113Boot.Storage.Table
open T113Boot.Ota.Board
open T113Boot.Ota.Crc32
open T113Boot.Ota.Firmware

def bootMaxRetry : Nat := 5
def hgbootNull : UInt32 := 0

/-- `partition_read` into memory at `buf`; what it stored stays there also when it fails. -/
def readIntoRam (partName : CStr) (buf offset len : UInt32) : Prog World Int := do
  let answer ← partitionRead registry (some partName) buf offset len
  modify fun w => { w with ram := ramStore w.ram buf answer.2 }
  pure answer.1

/-- The name and the checksum of the active slot. -/
def activePart (para : OtaParamers) : CStr × UInt32 :=
  if para.activeSlot = appSlot1 then (app1Part, para.app1Crc) else (app2Part, para.app2Crc)

/-- Roll back and go on, or give up. -/
def rollback (again : Prog World UInt32) : Prog World UInt32 := do
  let ret ← otaBackupFirmware
  if ret ≠ 0 then pure hgbootNull else again

/-- The loop of `boot_firmware` with `retry` turns left; both records live across the turns. -/
def bootLoop : Nat → FirmwareHeader → OtaParamers → Prog World UInt32
  | 0, _, _ => pure hgbootNull
  | retry + 1, header, para => do
    let answer ← partitionRead registry (some paraPart) objectPtr 0 recordSize
    let para := para.load answer.2
    if answer.1 ≠ 0 then bootLoop retry header para
    else if para.magic ≠ otaParaMagic then bootLoop retry header para
    else do
      let partName := (activePart para).1
      let tempCrc32 := (activePart para).2
      let answer ← partitionRead registry (some partName) objectPtr 0 recordSize
      let header := header.load answer.2
      if answer.1 ≠ 0 then bootLoop retry header para
      else if header.magic ≠ otaFirmwareMagic then rollback (bootLoop retry header para)
      else if header.crc32 ≠ tempCrc32 then rollback (bootLoop retry header para)
      else do
        let ret ← readIntoRam partName header.loadAddr recordSize header.size
        if ret ≠ 0 then bootLoop retry header para
        else do
          let w ← read
          let crc32 := bootCrc32Update 0xFFFFFFFF (ramWindow w.ram header.loadAddr header.size)
          if crc32 ^^^ 0xFFFFFFFF ≠ tempCrc32 then rollback (bootLoop retry header para)
          else pure header.execAddr

def bootFirmware : Prog World UInt32 := bootLoop bootMaxRetry .zero .zero

end T113Boot.Boot.Loader
