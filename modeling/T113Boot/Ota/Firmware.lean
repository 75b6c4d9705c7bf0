/- Module: T113Boot/Ota/Firmware
   layer: model
   digest: The records of `ota.h` and the download, update and backup functions of `ota.c`. -/

import T113Boot.Ota.Board
import T113Boot.Ota.Crc32

set_option autoImplicit false
set_option relaxedAutoImplicit false

namespace T113Boot.Ota.Firmware

open T113Boot.Lib.Cells
open T113Boot.Lib.LittleEndian
open T113Boot.Lib.Stoppable
open Prog
open T113Boot.Storage.Table
open T113Boot.Ymodem.Receive
open T113Boot.Ota.Board
open T113Boot.Ota.Crc32

def otaFirmwareMagic : UInt32 := 0x46574D47
def otaParaMagic : UInt32 := 0x50415241
def backupFlag : UInt32 := 0xBA
def appSlot1 : UInt32 := 0xA1
def appSlot2 : UInt32 := 0xA2
def cacheSize : UInt32 := 1024

def otaOk : Int := 0
def otaErrDownload : Int := -1
def otaErrUpdate : Int := -2
def otaErrBackup : Int := -3
def otaErrCheck : Int := -4
def otaErrPartition : Int := -5

/-- `sizeof` of both records. -/
def recordSize : UInt32 := 32

/-- The address of an object of the loader itself, a local record or `cache_buffer`. -/
def objectPtr : UInt32 := .ofNat Nand.Chip.objectAddr

/-- `struct firmware_header`. -/
structure FirmwareHeader where
  magic : UInt32
  size : UInt32
  crc32 : UInt32
  version : UInt32
  loadAddr : UInt32
  execAddr : UInt32
  reseved0 : UInt32
  reseved1 : UInt32
deriving DecidableEq

def FirmwareHeader.encode (h : FirmwareHeader) : List UInt8 :=
  [h.magic, h.size, h.crc32, h.version, h.loadAddr, h.execAddr, h.reseved0, h.reseved1].flatMap le32

def FirmwareHeader.decode (bs : List UInt8) : FirmwareHeader :=
  ⟨wordAt bs 0, wordAt bs 4, wordAt bs 8, wordAt bs 12, wordAt bs 16, wordAt bs 20, wordAt bs 24,
    wordAt bs 28⟩

/-- What a read that stored `bs` at its start leaves of a header. -/
def FirmwareHeader.load (h : FirmwareHeader) (bs : List UInt8) : FirmwareHeader :=
  .decode (bs ++ h.encode.drop bs.length)

def FirmwareHeader.zero : FirmwareHeader := ⟨0, 0, 0, 0, 0, 0, 0, 0⟩

/-- `struct ota_paramers`. -/
structure OtaParamers where
  magic : UInt32
  activeSlot : UInt32
  canBeBack : UInt32
  upgradeReady : UInt32
  app1Crc : UInt32
  app2Crc : UInt32
  downloadCrc : UInt32
  reserved : UInt32
deriving DecidableEq

def OtaParamers.encode (p : OtaParamers) : List UInt8 :=
  [p.magic, p.activeSlot, p.canBeBack, p.upgradeReady, p.app1Crc, p.app2Crc, p.downloadCrc,
    p.reserved].flatMap le32

def OtaParamers.decode (bs : List UInt8) : OtaParamers :=
  ⟨wordAt bs 0, wordAt bs 4, wordAt bs 8, wordAt bs 12, wordAt bs 16, wordAt bs 20, wordAt bs 24,
    wordAt bs 28⟩

/-- What a read that stored `bs` at its start leaves of a parameter record. -/
def OtaParamers.load (p : OtaParamers) (bs : List UInt8) : OtaParamers :=
  .decode (bs ++ p.encode.drop bs.length)

def OtaParamers.zero : OtaParamers := ⟨0, 0, 0, 0, 0, 0, 0, 0⟩

theorem FirmwareHeader.length_encode (h : FirmwareHeader) : h.encode.length = 32 :=
  length_flatMap_le32 _

theorem OtaParamers.length_encode (p : OtaParamers) : p.encode.length = 32 :=
  length_flatMap_le32 _

theorem FirmwareHeader.decode_encode (h : FirmwareHeader) (rest : List UInt8) :
    decode (h.encode ++ rest) = h := by
  have word := wordAt_flatMap_le32 [h.magic, h.size, h.crc32, h.version, h.loadAddr, h.execAddr,
    h.reseved0, h.reseved1] rest
  unfold decode encode
  rw [word 0 (by simp), word 1 (by simp), word 2 (by simp), word 3 (by simp),
    word 4 (by simp), word 5 (by simp), word 6 (by simp), word 7 (by simp)]
  rfl

theorem OtaParamers.decode_encode (p : OtaParamers) (rest : List UInt8) :
    decode (p.encode ++ rest) = p := by
  have word := wordAt_flatMap_le32 [p.magic, p.activeSlot, p.canBeBack, p.upgradeReady, p.app1Crc,
    p.app2Crc, p.downloadCrc, p.reserved] rest
  unfold decode encode
  rw [word 0 (by simp), word 1 (by simp), word 2 (by simp), word 3 (by simp),
    word 4 (by simp), word 5 (by simp), word 6 (by simp), word 7 (by simp)]
  rfl

/-- `ota_ymodem_recv_data`, which only reports a write that fails. -/
def otaYmodemRecvData (data : YmodemData) : Prog World Unit := do
  let _ ← partitionWrite registry (some downPart) objectPtr data.data data.offset data.size
  pure ()

/-- `ota_ymdoem_cb`; the other three functions write to the log alone. -/
def otaYmodemCb : YmodemCallback World :=
  { ymodemStart := some fun _ => pure ()
    ymodemRecvData := some otaYmodemRecvData
    ymodemAbort := some fun _ => pure ()
    ymodemFinish := some (pure ()) }

/-- `ymodem_receive(&ota_ymdoem_cb)` on the board's serial line. -/
def otaReceive : Prog World Int := fun w =>
  let run := ymodemReceive w.port (some otaYmodemCb)
    { input := w.input, frame := w.frame, trace := [], client := w }
  (run.1, { run.2.client with input := run.2.input, frame := run.2.frame })

/-- The common shape of the loops: `remain` bytes from `offset` on, one piece at a turn. Each
turn takes at least one byte, so a fuel of one more than the bytes lasts. -/
def cacheLoop {α : Type} (turn : UInt32 → UInt32 → α → Prog World (Except Int α)) :
    Nat → UInt32 → UInt32 → α → Prog World (Except Int α)
  | 0, _, _, acc => pure (.ok acc)
  | fuel + 1, remain, offset, acc =>
    if remain = 0 then pure (.ok acc)
    else if remain > cacheSize then do
      match ← turn offset cacheSize acc with
      | .error err => pure (.error err)
      | .ok acc => cacheLoop turn fuel (remain - cacheSize) (offset + cacheSize) acc
    else do
      match ← turn offset remain acc with
      | .error err => pure (.error err)
      | .ok acc => cacheLoop turn fuel 0 0 acc

/-- One piece of `Download` into the checksum. A read that succeeds has filled its buffer. -/
def crcChunk (offset len crc : UInt32) : Prog World (Except Int UInt32) := do
  let answer ← partitionRead registry (some downPart) objectPtr offset len
  if answer.1 ≠ 0 then pure (.error otaErrPartition)
  else pure (.ok (otaCrc32Update crc answer.2))

/-- One piece of `Download` into the partition `partName`. -/
def copyChunk (partName : CStr) (offset len : UInt32) (_ : Unit) : Prog World (Except Int Unit) := do
  let answer ← partitionRead registry (some downPart) objectPtr offset len
  if answer.1 ≠ 0 then pure (.error otaErrPartition)
  else do
    let ret ← partitionWrite registry (some partName) objectPtr answer.2 offset len
    if ret ≠ 0 then pure (.error otaErrPartition) else pure (.ok ())

/-- `while (remain_size)` of `ota_download_firmware`. -/
def crcLoop (size : UInt32) : Prog World (Except Int UInt32) :=
  cacheLoop crcChunk (size.toNat + 1) size recordSize 0xFFFFFFFF

/-- `while (remain_size)` of `ota_update_firmware`. -/
def copyLoop (partName : CStr) (size : UInt32) : Prog World (Except Int Unit) :=
  cacheLoop (copyChunk partName) (size.toNat + 1) size 0 ()

/-- Erase and write of `Param`, with which all three functions store a record. -/
def rewriteParam (para : OtaParamers) : Prog World Int := do
  let ret ← partitionErase registry (some paraPart) 0 recordSize
  if ret ≠ 0 then pure otaErrPartition
  else do
    let ret ← partitionWrite registry (some paraPart) objectPtr para.encode 0 recordSize
    if ret ≠ 0 then pure otaErrPartition else pure otaOk

/-- The record that `Param` holds. -/
def paramBytes (w : World) : List UInt8 := slice w.flash param.start.toNat recordSize.toNat

/-- A call as it is recorded. -/
def recorded (fn : OtaFn) (body : Prog World Int) : Prog World Int := do
  let before ← read
  let ret ← body
  modify fun w => { w with calls := w.calls ++ [⟨fn, ret, paramBytes before, paramBytes w⟩] }
  pure ret

/-- The tail that announces the image: lines 229 to 262. -/
def announceImage (crc32 : UInt32) : Prog World Int := do
  let answer ← partitionRead registry (some paraPart) objectPtr 0 recordSize
  if answer.1 ≠ 0 then pure otaErrPartition
  else
    let para := OtaParamers.zero.load answer.2
    rewriteParam { para with magic := otaParaMagic, downloadCrc := crc32, upgradeReady := 1 }

/-- The check of what was received: lines 177 to 227. -/
def checkImage : Prog World Int := do
  let answer ← partitionRead registry (some downPart) objectPtr 0 recordSize
  if answer.1 ≠ 0 then pure otaErrPartition
  else
    let header := FirmwareHeader.zero.load answer.2
    if header.magic ≠ otaFirmwareMagic then pure otaErrCheck
    else do
      match ← crcLoop header.size with
      | .error err => pure err
      | .ok crc32 =>
        if crc32 ^^^ 0xFFFFFFFF ≠ header.crc32 then pure otaErrCheck
        else announceImage (crc32 ^^^ 0xFFFFFFFF)

def otaDownloadFirmware : Prog World Int := do
  let ret ← partitionEraseAll registry (some downPart)
  if ret ≠ 0 then pure otaErrPartition
  else do
    let ret ← otaReceive
    if ret ≠ 0 then pure otaErrDownload else checkImage

/-- The record after an image was installed in the other slot. -/
def OtaParamers.switched (para : OtaParamers) : OtaParamers :=
  if para.activeSlot = appSlot1 then
    { para with activeSlot := appSlot2, app2Crc := para.downloadCrc, canBeBack := backupFlag }
  else { para with activeSlot := appSlot1, app1Crc := para.downloadCrc, canBeBack := backupFlag }

/-- The name of the partition that is not active. -/
def OtaParamers.otherPart (para : OtaParamers) : CStr :=
  if para.activeSlot = appSlot1 then app2Part else app1Part

/-- The copy of an image with `size` bytes of payload, and the record behind it: lines 353 to 417. -/
def copyImage (para : OtaParamers) (size : UInt32) : Prog World (Int × OtaParamers) := do
  match ← copyLoop para.otherPart (size + recordSize) with
  | .error err => pure (err, para)
  | .ok () => pure (otaOk, para.switched)

/-- The branch of an upgrade that is ready, up to `exit`. -/
def installImage (para : OtaParamers) : Prog World (Int × OtaParamers) := do
  let answer ← partitionRead registry (some downPart) objectPtr 0 recordSize
  if answer.1 ≠ 0 then pure (otaErrPartition, para)
  else
    let header := FirmwareHeader.zero.load answer.2
    if para.downloadCrc ≠ header.crc32 then pure (otaErrCheck, para)
    else do
      let ret ← partitionEraseAll registry (some para.otherPart)
      if ret ≠ 0 then pure (otaErrPartition, para) else copyImage para header.size

/-- The block at `exit`. The `ret` it is reached with is lost. -/
def updateExit (exit : Int × OtaParamers) : Prog World Int :=
  rewriteParam { exit.2 with magic := otaParaMagic, upgradeReady := 0 }

def updateBody : Prog World Int := do
  let answer ← partitionRead registry (some paraPart) objectPtr 0 recordSize
  let para := OtaParamers.zero.load answer.2
  if answer.1 ≠ 0 then updateExit (otaErrPartition, para)
  else if para.magic ≠ otaParaMagic then updateExit (otaErrCheck, para)
  else if para.upgradeReady ≠ 0 then do
    let exit ← installImage para
    updateExit exit
  else pure otaErrUpdate

def otaUpdateFirmware : Prog World Int := recorded .update updateBody

/-- Whether the other slot holds a header, and the record to store then. -/
def tryOther (para : OtaParamers) : Prog World (Bool × OtaParamers) := do
  let answer ← partitionRead registry (some para.otherPart) objectPtr 0 recordSize
  if answer.1 ≠ 0 then pure (false, para)
  else if (FirmwareHeader.zero.load answer.2).magic ≠ otaFirmwareMagic then pure (false, para)
  else if para.activeSlot = appSlot1 then pure (true, { para with activeSlot := appSlot2 })
  else pure (true, { para with activeSlot := appSlot1 })

/-- The branch of a rollback that is allowed: lines 487 to 553. -/
def rollBack (para : OtaParamers) : Prog World Int := do
  let found ← tryOther { para with canBeBack := 0, upgradeReady := 0 }
  let ret ← rewriteParam found.2
  if ret ≠ 0 then pure otaErrPartition
  else if found.1 = false then pure otaErrBackup else pure otaOk

def backupBody : Prog World Int := do
  let answer ← partitionRead registry (some paraPart) objectPtr 0 recordSize
  if answer.1 ≠ 0 then pure otaErrPartition
  else
    let para := OtaParamers.zero.load answer.2
    if para.magic ≠ otaParaMagic then pure otaErrCheck
    else if para.canBeBack = backupFlag then rollBack para
    else pure otaErrBackup

def otaBackupFirmware : Prog World Int := recorded .backup backupBody

end T113Boot.Ota.Firmware
