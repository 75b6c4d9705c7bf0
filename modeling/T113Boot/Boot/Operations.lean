/- Module: T113Boot/Boot/Operations
   layer: model
   digest: The four calls that work on the flash, and runs of them. -/

import T113Boot.Boot.Loader

set_option autoImplicit false
set_option relaxedAutoImplicit false

namespace T113Boot.Boot.Operations

open T113Boot.Lib.Stoppable
open Prog
open T113Boot.Ota.Board
open T113Boot.Ota.Firmware
open T113Boot.Boot.Loader

/-- A call; a download comes with what arrives on the serial line meanwhile. -/
inductive Operation where
  | download (input : List (Option UInt8))
  | update
  | backup
  | boot

/-- The call, whatever it returns. -/
def Operation.run : Operation → Prog World Unit
  | .download input => do
    modify fun w => { w with input := input }
    let _ ← otaDownloadFirmware
    pure ()
  | .update => do
    let _ ← otaUpdateFirmware
    pure ()
  | .backup => do
    let _ ← otaBackupFirmware
    pure ()
  | .boot => do
    let _ ← bootFirmware
    pure ()

/-- Calls one after another. -/
def operate : List Operation → Prog World Unit
  | [] => pure ()
  | op :: ops => do
    op.run
    operate ops

end T113Boot.Boot.Operations
