/- Module: T113Boot/Boot/EndToEnd
   layer: results
   digest: From the packing script through the transfer and the update to the entry. -/

import T113Boot.Boot.Installation
import T113Boot.Ota.Pack

set_option autoImplicit false
set_option relaxedAutoImplicit false

namespace T113Boot.Boot.EndToEnd

open T113Boot.Lib.Cells
open T113Boot.Lib.LittleEndian
open T113Boot.Nand.Port
open T113Boot.Ymodem.Receive
open T113Boot.Ymodem.Sender
open T113Boot.Ymodem.Transfer
open T113Boot.Ymodem.LossFree
open T113Boot.Ota.Board
open T113Boot.Ota.Crc32
open T113Boot.Ota.Firmware
open T113Boot.Ota.Access
open T113Boot.Ota.Layout
open T113Boot.Ota.Footprint
open T113Boot.Ota.Reception
open T113Boot.Ota.Reach
open T113Boot.Ota.Outcomes
open T113Boot.Ota.Pack
open T113Boot.Boot.Loader
open T113Boot.Boot.Verdict
open T113Boot.Boot.Installation

/-- The header that belongs to a firmware. -/
def headerFor (firmware : List UInt8) (version loadAddr startAddr : UInt32) : FirmwareHeader where
  magic := otaFirmwareMagic
  size := .ofNat firmware.length
  crc32 := zlibCrc32 firmware
  version := version
  loadAddr := loadAddr
  execAddr := startAddr
  reseved0 := 0
  reseved1 := 0

theorem packFirmware_bin {firmware : List UInt8} {version loadAddr startAddr : UInt32}
    {file : List UInt8} (packed : packFirmware (.bin firmware) version.toNat
      (some loadAddr.toNat) (some startAddr.toNat) = .ok file) :
    file = (headerFor firmware version loadAddr startAddr).encode ++ firmware := by
  obtain ⟨load, start, bytes, header, read, head, rfl⟩ := packFirmware_ok packed
  cases read
  obtain ⟨-, -, -, -, rfl⟩ := packHeader_ok head
  refine congrArg (· ++ firmware) ?_
  have reserved : List.replicate 8 (0 : UInt8) = le32 0 ++ le32 0 := by decide
  have first : UInt32.ofNat magic.toNat = otaFirmwareMagic := by decide
  rw [reserved, List.map_cons, first]
  simp only [FirmwareHeader.encode, headerFor, List.map_cons, List.map_nil, List.flatMap_cons,
    List.flatMap_nil, Int.toNat_natCast, UInt32.ofNat_toNat, List.append_nil, List.append_assoc]

theorem packFirmware_encode {firmware : List UInt8} (short : firmware.length < 4294967296)
    (version loadAddr startAddr : UInt32) :
    packFirmware (.bin firmware) version.toNat (some loadAddr.toNat) (some startAddr.toNat) =
      .ok ((headerFor firmware version loadAddr startAddr).encode ++ firmware) := by
  have length : FitsI firmware.length := by
    unfold FitsI
    omega
  have read : readInput (.bin firmware) (some loadAddr.toNat) (some startAddr.toNat) =
      .ok (loadAddr.toNat, startAddr.toNat, firmware) := rfl
  obtain ⟨header, -, packed⟩ := packFirmware_fits read length (fitsI_word version)
    (fitsI_word loadAddr) (fitsI_word startAddr)
  rw [packed, packFirmware_bin packed]

/-- The board with what a sender sends on its serial line. -/
def receiving (w : World) (σ : Session) (rest : List (Option UInt8)) : World :=
  { w with input := stream σ ++ rest }

theorem handed_acknowledged (ds : List YmodemData) : handed (acknowledged ds) = ds := by
  induction ds with
  | nil => rfl
  | cons d ds ih =>
    rw [acknowledged, List.flatMap_cons, ← acknowledged]
    simp only [handed, List.cons_append, List.nil_append, List.filterMap_cons] at ih ⊢
    rw [ih]

theorem handed_append (es fs : List YmodemEvent) : handed (es ++ fs) = handed es ++ handed fs :=
  List.filterMap_append

theorem transfer_receiving {w : World} (port : w.port = true) (σ : Session)
    (rest : List (Option UInt8)) : (transfer (receiving w σ rest)).1 = some otaOk ∧
      pieces (receiving w σ rest) = fileDeliveries σ := by
  obtain ⟨head, frame, run, -⟩ := ymodemReceive_stream σ idle
    { input := stream σ ++ rest, frame := w.frame, trace := [], client := () } rest rfl
    fun head => by rw [clientRun_idle]
  have transferred : transfer (receiving w σ rest) = ymodemReceive true (some idle.table)
      { input := stream σ ++ rest, frame := w.frame, trace := [], client := () } := by
    unfold transfer receiving
    dsimp only
    rw [port]
  rw [run] at transferred
  refine ⟨by rw [transferred]; rfl, ?_⟩
  unfold pieces
  rw [transferred]
  -- of the events only those of the data phase are deliveries
  change handed (acknowledged (fileDeliveries σ) ++ _) = _
  rw [handed_append, handed_acknowledged]
  exact List.append_nil _

theorem storePiece_deliveries (ps : List (List UInt8)) (offset : UInt32) (m : Mem)
    (fits : offset.toNat + ps.flatten.length ≤ download.size.toNat) :
    (deliveries offset ps).foldl storePiece m =
      program m (download.start.toNat + offset.toNat) ps.flatten := by
  have size : download.size.toNat = 1048576 := rfl
  induction ps generalizing offset m with
  | nil => rw [deliveries, List.foldl_nil, List.flatten_nil, program_nil]
  | cons p ps ih =>
    rw [List.flatten_cons, List.length_append] at fits
    have length : (UInt32.ofNat p.length).toNat = p.length :=
      UInt32.toNat_ofNat_of_lt' (by rw [UInt32.size]; omega)
    have next : (offset + .ofNat p.length).toNat = offset.toNat + p.length := by
      rw [UInt32.toNat_add, length]
      omega
    have here : Fits download offset (UInt32.ofNat p.length) := by
      rw [Fits, length]
      omega
    rw [deliveries, List.foldl_cons, ih _ _ (by rw [next]; omega), next, List.flatten_cons,
      ← program_append, Nat.add_assoc]
    congr 1
    unfold storePiece delivery
    dsimp only
    rw [if_pos here]

theorem delivered_receiving {w : World} (port : w.port = true) (σ : Session)
    (rest : List (Option UInt8))
    (fits : (σ.file ++ σ.padding).length ≤ download.size.toNat) :
    slice (delivered (receiving w σ rest)) download.start.toNat σ.file.length = σ.file := by
  have content : (σ.blocks.map Block.payload).flatten = σ.file ++ σ.padding := by
    rw [← List.flatMap_def, σ.content]
  have start : download.start.toNat + (0 : UInt32).toNat = download.start.toNat := rfl
  have stored := storePiece_deliveries (σ.blocks.map Block.payload) 0
    (erase (receiving w σ rest).flash download.start.toNat download.size.toNat)
    (by rw [content, UInt32.toNat_zero, Nat.zero_add]; exact fits)
  rw [content, start] at stored
  have back := slice_program (erase (receiving w σ rest).flash download.start.toNat
    download.size.toNat) download.start.toNat (σ.file ++ σ.padding)
    (fun x low high => erase_inside low (by omega))
  rw [delivered, (transfer_receiving port σ rest).2, fileDeliveries, stored]
  have cut := congrArg (List.take σ.file.length) back
  rw [take_slice _ _ _ _ (by rw [List.length_append]; omega), List.take_left' rfl] at cut
  exact cut

/-- The serial line brings a packed firmware that fits `Download` with its padding. -/
structure Sends (σ : Session) (firmware : List UInt8) (version loadAddr startAddr : UInt32) :
    Prop where
  packed : packFirmware (.bin firmware) version.toNat (some loadAddr.toNat) (some startAddr.toNat) =
    .ok σ.file
  fits : (σ.file ++ σ.padding).length ≤ download.size.toNat

section Calls

variable {w : World} {σ : Session} {firmware : List UInt8} {version loadAddr startAddr : UInt32}
  (rest : List (Option UInt8))

theorem Sends.file_eq (sends : Sends σ firmware version loadAddr startAddr) :
    σ.file = (headerFor firmware version loadAddr startAddr).encode ++ firmware :=
  packFirmware_bin sends.packed

theorem Sends.short (sends : Sends σ firmware version loadAddr startAddr) :
    32 + firmware.length ≤ download.size.toNat := by
  have fits := sends.fits
  rw [sends.file_eq, List.length_append, List.length_append, FirmwareHeader.length_encode] at fits
  omega

theorem Sends.size (sends : Sends σ firmware version loadAddr startAddr) :
    (headerFor firmware version loadAddr startAddr).size.toNat = firmware.length := by
  have short := sends.short
  have size : download.size.toNat = 1048576 := rfl
  exact UInt32.toNat_ofNat_of_lt' (by rw [UInt32.size]; omega)

theorem header_delivered (port : w.port = true)
    (sends : Sends σ firmware version loadAddr startAddr) :
    headerOf download (delivered (receiving w σ rest)) =
      headerFor firmware version loadAddr startAddr := by
  apply headerOf_encode
  have file := delivered_receiving port σ rest sends.fits
  have front := congrArg (List.take 32) file
  rw [sends.file_eq, List.length_append, FirmwareHeader.length_encode,
    take_slice _ _ _ _ (by omega), List.take_left' (FirmwareHeader.length_encode _)] at front
  exact front

theorem payload_delivered (port : w.port = true)
    (sends : Sends σ firmware version loadAddr startAddr) :
    payloadOf download (delivered (receiving w σ rest)) = firmware := by
  have file := delivered_receiving port σ rest sends.fits
  rw [sends.file_eq, List.length_append, FirmwareHeader.length_encode, slice_add] at file
  rw [payloadOf, header_delivered rest port sends, sends.size]
  exact (List.append_inj file (by rw [length_slice, FirmwareHeader.length_encode])).2

theorem verified_delivered (port : w.port = true)
    (sends : Sends σ firmware version loadAddr startAddr) :
    Verified (delivered (receiving w σ rest)) (zlibCrc32 firmware) := by
  have short := sends.short
  have record : recordSize.toNat = 32 := rfl
  refine ⟨?_, ?_, ?_, ?_⟩
  · rw [header_delivered rest port sends]
    rfl
  · rw [header_delivered rest port sends, Fits, sends.size, record]
    exact short
  · rw [header_delivered rest port sends]
    rfl
  · rw [payload_delivered rest port sends, otaCrc32_eq_zlib]

theorem otaDownloadFirmware_sends (healthy : Healthy w) (port : w.port = true)
    (sends : Sends σ firmware version loadAddr startAddr) :
    ∃ w', otaDownloadFirmware (receiving w σ rest) = (some otaOk, w') ∧ Healthy w' ∧
      w'.flash = storeParam (delivered (receiving w σ rest))
        (announced (paramOf w.flash) (zlibCrc32 firmware)) := by
  have faults : (receiving w σ rest).faults = [] := healthy.faults
  have power : (receiving w σ rest).power = none := healthy.power
  have there : Healthy (receiving w σ rest) := ⟨faults, power⟩
  have ends := otaDownloadFirmware_ends (quiet_healthy faults)
  have touched := touches_download (receiving w σ rest)
  have received := (transfer_receiving port σ rest).1
  have verified := verified_delivered rest port sends
  generalize otaDownloadFirmware (receiving w σ rest) = run at ends touched ⊢
  obtain ⟨ret, w'⟩ := run
  cases ends with
  | rejected only code arrived reason =>
    rcases reason with faulty | failed | unverified
    · exact absurd faults faulty
    · exact absurd received failed
    · rw [arrived faults power] at unverified
      exact absurd verified (unverified _)
  | @announced w₁ _ crc _ only arrived ok checked store =>
    have sum : crc = zlibCrc32 firmware := by
      rw [← checked.header, arrived faults power, verified.header]
    obtain ⟨rfl, flash⟩ := stored_healthy (there.touched only) store
    refine ⟨w', rfl, there.touched touched, ?_⟩
    rw [flash, arrived faults power, sum]
    rfl
  | cut only reason =>
    rcases reason with faulty | off | silent
    · exact absurd faults faulty
    · exact absurd power off
    · rw [received] at silent
      cases silent

theorem otaUpdateFirmware_installs (healthy : Healthy w) (matched : Matches w.flash)
    (fits : Fits download 0 (imageSize w.flash)) :
    ∃ w', otaUpdateFirmware w = (some otaOk, w') ∧ Healthy w' ∧ w'.flash = updated w.flash := by
  have ends := updateBody_ends (quiet_healthy healthy.faults)
  have touched := touches_updateBody w
  rcases run : updateBody w with ⟨ret, w'⟩
  rw [run] at ends touched
  cases ends with
  | idle magic none flash => exact absurd none matched.ready
  | @exit w₁ _ p _ faults supply exits store =>
    rw [healthy.faults, List.suffix_nil] at faults
    obtain ⟨rfl, flash⟩ := stored_healthy ⟨faults, supply healthy.power⟩ store
    have there := healthy.touched touched
    refine ⟨_, recorded_run run, ⟨there.faults, there.power⟩, ?_⟩
    dsimp only
    rw [flash]
    generalize w₁.flash = m at exits
    cases exits with
    | lost faulty => exact absurd healthy.faults faulty
    | badMagic magic => exact absurd matched.magic magic
    | kept magic ready reason =>
      rcases reason with faulty | other
      · exact absurd healthy.faults faulty
      · exact absurd matched.crc other
    | broken ready outside reason =>
      rcases reason with faulty | unfit
      · exact absurd healthy.faults faulty
      · exact absurd fits unfit
    | installed ready low => rfl
  | cut off ready outside => exact absurd healthy.power off

/-- The flash between the two calls. -/
def offered (d : Mem) (p : OtaParamers) (crc : UInt32) : Mem := storeParam d (announced p crc)

theorem matches_offered {d : Mem} {p : OtaParamers} {crc : UInt32} (verified : Verified d crc) :
    Matches (offered d p crc) ∧ Verified (offered d p crc) (paramOf (offered d p crc)).downloadCrc := by
  have there := Verified.congr verified (sameOutside_storeParam d (announced p crc))
    download_param.symm.single
  have record : paramOf (offered d p crc) = announced p crc := paramOf_store _ _
  refine ⟨⟨?_, ?_, ?_⟩, ?_⟩
  · rw [record]
    rfl
  · rw [record]
    exact (by decide : (1 : UInt32) ≠ 0)
  · rw [record]
    exact there.header.symm
  · rw [record]
    exact there

/-- From the download to the loader: both calls succeed, and the loader decides on the load address
alone. -/
theorem sends_run (healthy : Healthy w) (port : w.port = true)
    (sends : Sends σ firmware version loadAddr startAddr) :
    ∃ w₁ w₂, otaDownloadFirmware (receiving w σ rest) = (some otaOk, w₁) ∧
      otaUpdateFirmware w₁ = (some otaOk, w₂) ∧ Healthy w₂ ∧
      booted w₂.flash = (if Clear 32 loadAddr.toNat firmware.length then
        some (otherApp (paramOf w₁.flash)) else none) ∧
      headerOf (otherApp (paramOf w₁.flash)) w₂.flash =
        headerFor firmware version loadAddr startAddr ∧
      payloadOf (otherApp (paramOf w₁.flash)) w₂.flash = firmware := by
  obtain ⟨w₁, downloaded, healthy₁, flash₁⟩ := otaDownloadFirmware_sends rest healthy port sends
  have delivers := verified_delivered (w := w) rest port sends
  obtain ⟨matched, verified⟩ := matches_offered (p := paramOf w.flash) delivers
  rw [offered, ← flash₁] at matched verified
  have header : headerOf download w₁.flash = headerFor firmware version loadAddr startAddr := by
    rw [flash₁, (sameOutside_storeParam _ _).header_eq download_param.symm.single,
      header_delivered rest port sends]
  have payload : payloadOf download w₁.flash = firmware := by
    rw [flash₁, (sameOutside_storeParam _ _).payload_eq download_param.symm.single delivers.fits,
      payload_delivered rest port sends]
  obtain ⟨w₂, updates, healthy₂, flash₂⟩ :=
    otaUpdateFirmware_installs healthy₁ matched (Verified.whole verified)
  have starts := booted_updated verified
  have load : (headerFor firmware version loadAddr startAddr).loadAddr = loadAddr := rfl
  rw [header, sends.size, load] at starts
  refine ⟨w₁, w₂, downloaded, updates, healthy₂, ?_, ?_, ?_⟩
  · rw [flash₂, starts]
  · rw [flash₂, header_updated verified, header]
  · rw [flash₂, payload_updated verified, payload]

/-- The download and the update succeed, and the loader returns the start address with the firmware
in memory where it belongs. -/
def Delivers (w : World) (firmware : List UInt8) (loadAddr startAddr : UInt32) : Prop :=
  ∃ w₁ w₂ w₃, otaDownloadFirmware w = (some otaOk, w₁) ∧ otaUpdateFirmware w₁ = (some otaOk, w₂) ∧
    bootFirmware w₂ = (some startAddr, w₃) ∧
    ramWindow w₃.ram loadAddr (.ofNat firmware.length) = firmware

/-- Whatever the flash held, a firmware that is packed and sent without losses is started, if its
load address can take it. -/
theorem packed_firmware_boots (healthy : Healthy w) (port : w.port = true)
    (sends : Sends σ firmware version loadAddr startAddr)
    (clear : Clear 32 loadAddr.toNat firmware.length) :
    Delivers (receiving w σ rest) firmware loadAddr startAddr := by
  obtain ⟨w₁, w₂, downloads, updates, healthy₂, starts, header, payload⟩ :=
    sends_run rest healthy port sends
  obtain ⟨w₃, boots, window⟩ := bootFirmware_run healthy₂
  rw [if_pos clear] at starts
  have filled := window _ starts
  rw [header, payload] at filled
  rw [entryOf, starts] at boots
  dsimp only at boots
  rw [header] at boots
  exact ⟨w₁, w₂, w₃, downloads, updates, boots, filled⟩

end Calls

/-- The session that sends a packed firmware in blocks of 1024 bytes. -/
def sessionFor (firmware : List UInt8) (version loadAddr startAddr : UInt32)
    (short : firmware.length < 2147483616) : Session :=
  inBlocks ((headerFor firmware version loadAddr startAddr).encode ++ firmware)
    (List.ne_nil_of_length_pos (by
      rw [List.length_append, FirmwareHeader.length_encode]
      omega))
    (by
      rw [List.length_append, FirmwareHeader.length_encode]
      omega)

theorem sends_sessionFor {firmware : List UInt8} (version loadAddr startAddr : UInt32)
    (short : firmware.length < 2147483616) (room : 32 + firmware.length ≤ download.size.toNat) :
    Sends (sessionFor firmware version loadAddr startAddr short) firmware version loadAddr
      startAddr := by
  have size : download.size.toNat = 1048576 := rfl
  refine ⟨packFirmware_encode (by omega) version loadAddr startAddr, ?_⟩
  have filled := length_filled ((headerFor firmware version loadAddr startAddr).encode ++ firmware)
  refine Nat.le_trans (Nat.le_of_eq filled) ?_
  rw [blockCount, List.length_append, FirmwareHeader.length_encode]
  omega

/-- The session that sends a firmware of one byte. -/
def tinySession (loadAddr : UInt32) : Session := sessionFor [0] 1 loadAddr 0x41000000 (by decide)

theorem sends_tiny (loadAddr : UInt32) : Sends (tinySession loadAddr) [0] 1 loadAddr 0x41000000 :=
  sends_sessionFor 1 loadAddr 0x41000000 _ (by decide)

/-- Three thousand bytes: three blocks, and two pages of the flash. -/
def pagesFirmware : List UInt8 := (List.range 3000).map .ofNat

theorem pagesFirmware_length : pagesFirmware.length = 3000 := by
  rw [pagesFirmware, List.length_map, List.length_range]

def pagesSession : Session :=
  sessionFor pagesFirmware 7 0x41000000 0x41000040 (by
    rw [pagesFirmware_length]
    decide)

theorem sends_pages : Sends pagesSession pagesFirmware 7 0x41000000 0x41000040 :=
  sends_sessionFor 7 _ _ _ (by
    rw [pagesFirmware_length]
    decide)

theorem packed_firmware_boots_pages :
    Delivers (receiving (boardWith fun _ => 0) pagesSession []) pagesFirmware 0x41000000
      0x41000040 := by
  refine packed_firmware_boots [] (healthy_boardWith _) rfl sends_pages ?_
  rw [pagesFirmware_length]
  decide

/-- With load address 0 it is sent, stored and installed all the same, and never started. -/
theorem null_load_not_started : ∃ (w : World) (σ : Session), Healthy w ∧ w.port = true ∧
    Sends σ [0] 1 0 0x41000000 ∧ ¬ Delivers (receiving w σ []) [0] 0 0x41000000 := by
  refine ⟨boardWith fun _ => 0, tinySession 0, healthy_boardWith _, rfl, sends_tiny 0, ?_⟩
  rintro ⟨w₁, w₂, w₃, downloads, updates, boots, -⟩
  obtain ⟨w₁', w₂', downloads', updates', healthy, starts, -⟩ :=
    sends_run [] (healthy_boardWith fun _ => 0) rfl (sends_tiny 0)
  rw [downloads'] at downloads
  cases downloads
  rw [updates'] at updates
  cases updates
  obtain ⟨w₄, run, -⟩ := bootFirmware_run healthy
  rw [if_neg (by decide)] at starts
  rw [entryOf, starts, boots] at run
  have null : some (0x41000000 : UInt32) = some hgbootNull := congrArg Prod.fst run
  exact absurd null (by decide)

end T113Boot.Boot.EndToEnd
