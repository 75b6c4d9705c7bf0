/- Module: T113Boot/Ota/Pack
   layer: model
   digest: The packing script `pack.py`. -/

import T113Boot.Ota.Firmware

set_option autoImplicit false
set_option relaxedAutoImplicit false

namespace T113Boot.Ota.Pack

open T113Boot.Lib.LittleEndian
open T113Boot.Ota.Crc32

def magic : Int := 0x46574D47

/-- `p_type` of a program header. -/
inductive SegmentType
  | ptLoad
  | other (code : Nat)
deriving DecidableEq

/-- A program header as `pyelftools` yields it; `data` are the bytes that the file holds of it. -/
structure Segment where
  pType : SegmentType
  pVaddr : Nat
  data : List UInt8
deriving DecidableEq

/-- An ELF file, its program headers in file order. -/
structure ELFFile where
  eEntry : Nat
  segments : List Segment

/-- What the `IntelHex` library makes of a file. -/
structure IntelHex where
  addresses : List Nat
  eip : Option Nat
  tobinarray : List UInt8

/-- The input file, by its extension; `none` is a file that `IntelHex` cannot read. -/
inductive Input
  | elf (file : ELFFile)
  | hex (file : Option IntelHex)
  | bin (firmware : List UInt8)
  | unsupported

/-- The result, or the error that ends the script. -/
abbrev Script := Except String

/-- The first `PT_LOAD` segment gives the load address. -/
def parseElfAddresses (elf : ELFFile) : Script (Nat × Nat) :=
  match elf.segments.find? fun seg => seg.pType = .ptLoad with
  | none => .error "[ERROR] No PT_LOAD segment found in ELF"
  | some seg => .ok (seg.pVaddr, elf.eEntry)

def parseHexAddresses : Option IntelHex → Script (Nat × Nat)
  | none => .error "[ERROR] Failed to load HEX file"
  | some ih =>
    match ih.addresses.min? with
    | none => .error "[ERROR] HEX file contains no addresses"
    | some loadAddr => .ok (loadAddr, ih.eip.getD loadAddr)

/-- `struct.pack('<I', x)`. -/
def packI (x : Int) : Script (List UInt8) :=
  if 0 ≤ x ∧ x < 4294967296 then .ok (le32 (.ofNat x.toNat))
  else .error "'I' format requires 0 <= number <= 4294967295"

/-- The load address, the start address and the firmware that an input stands for. -/
def readInput (input : Input) (loadAddr startAddr : Option Int) : Script (Int × Int × List UInt8) :=
  match input with
  | .elf elf => do
    let addrs ← parseElfAddresses elf
    let firmwareChunks := (elf.segments.filter fun seg => seg.pType = .ptLoad).map (·.data)
    pure (addrs.1, addrs.2, firmwareChunks.flatten)
  | .hex file => do
    let addrs ← parseHexAddresses file
    pure (addrs.1, addrs.2, (file.map (·.tobinarray)).getD [])
  | .bin firmware =>
    match loadAddr, startAddr with
    | some loadAddr, some startAddr => pure (loadAddr, startAddr, firmware)
    | _, _ => .error "[ERROR] For .bin input, load and start addresses must be provided."
  | .unsupported => .error "[ERROR] Unsupported file format. Only .bin, .elf, .hex supported."

/-- The 32 bytes in front of the firmware. -/
def packHeader (size crc32 version loadAddr startAddr : Int) : Script (List UInt8) := do
  let words ← [magic, size, crc32, version, loadAddr, startAddr].mapM packI
  let reserved := List.replicate 8 0
  pure (words.flatten ++ reserved)

/-- `pack_firmware`: the file it writes. The option strings are given as the numbers they denote. -/
def packFirmware (input : Input) (version : Int) (loadAddr startAddr : Option Int) :
    Script (List UInt8) := do
  let (loadAddr, startAddr, firmware) ← readInput input loadAddr startAddr
  let crc32 := zlibCrc32 firmware
  let header ← packHeader firmware.length crc32.toNat version loadAddr startAddr
  pure (header ++ firmware)

/-- The load address in the header of a packed file, and the payload behind the header. -/
def headerLoadAddr (file : List UInt8) : Nat := (wordAt file 16).toNat
def payload (file : List UInt8) : List UInt8 := file.drop 32

/-- Number `x` fits the field `I`. -/
def FitsI (x : Int) : Prop := 0 ≤ x ∧ x < 4294967296

instance (x : Int) : Decidable (FitsI x) := inferInstanceAs (Decidable (_ ∧ _))

theorem bind_ok {α β : Type} {x : Script α} {f : α → Script β} {b : β} (h : x >>= f = .ok b) :
    ∃ a, x = .ok a ∧ f a = .ok b := by
  cases x with
  | error err => cases h
  | ok a => exact ⟨a, rfl, h⟩

theorem packI_ok {x : Int} {bytes : List UInt8} (h : packI x = .ok bytes) :
    FitsI x ∧ bytes = le32 (.ofNat x.toNat) := by
  unfold packI at h
  split at h
  · rename_i fits
    cases h
    exact ⟨fits, rfl⟩
  · cases h

theorem mapM_packI_ok {xs : List Int} {words : List (List UInt8)} (h : xs.mapM packI = .ok words) :
    (∀ x ∈ xs, FitsI x) ∧ words = xs.map fun x => le32 (.ofNat x.toNat) := by
  induction xs generalizing words with
  | nil =>
    rw [List.mapM_nil] at h
    cases h
    simp
  | cons x xs ih =>
    rw [List.mapM_cons] at h
    obtain ⟨bytes, first, h⟩ := bind_ok h
    obtain ⟨more, rest, h⟩ := bind_ok h
    cases h
    obtain ⟨fits, rfl⟩ := packI_ok first
    obtain ⟨all, rfl⟩ := ih rest
    exact ⟨List.forall_mem_cons.mpr ⟨fits, all⟩, rfl⟩

theorem packHeader_ok {size crc32 version loadAddr startAddr : Int} {header : List UInt8}
    (h : packHeader size crc32 version loadAddr startAddr = .ok header) :
    FitsI size ∧ FitsI version ∧ FitsI loadAddr ∧ FitsI startAddr ∧
      header = ([magic, size, crc32, version, loadAddr, startAddr].map
        fun x => UInt32.ofNat x.toNat).flatMap le32 ++ List.replicate 8 0 := by
  obtain ⟨words, packed, h⟩ := bind_ok h
  obtain ⟨fits, layout⟩ := mapM_packI_ok packed
  simp only [List.forall_mem_cons] at fits
  obtain ⟨-, size, -, version, load, start, -⟩ := fits
  refine ⟨size, version, load, start, ?_⟩
  rw [List.flatMap_map, List.flatMap_def, ← layout]
  exact (Except.ok.inj h).symm

/-- A packed file is such a header and the firmware behind it. -/
theorem packFirmware_ok {input : Input} {version : Int} {load start : Option Int} {file : List UInt8}
    (packed : packFirmware input version load start = .ok file) :
    ∃ (loadAddr startAddr : Int) (firmware header : List UInt8),
      readInput input load start = .ok (loadAddr, startAddr, firmware) ∧
      packHeader firmware.length (zlibCrc32 firmware).toNat version loadAddr startAddr =
        .ok header ∧ file = header ++ firmware := by
  obtain ⟨⟨loadAddr, startAddr, firmware⟩, read, packed⟩ := bind_ok packed
  obtain ⟨header, head, packed⟩ := bind_ok packed
  exact ⟨loadAddr, startAddr, firmware, header, read, head, (Except.ok.inj packed).symm⟩

theorem bind_of_ok {α β : Type} {x : Script α} {a : α} (f : α → Script β) (h : x = .ok a) :
    x >>= f = f a := by
  rw [h]
  rfl

theorem packI_fits {x : Int} (fits : FitsI x) : packI x = .ok (le32 (.ofNat x.toNat)) := if_pos fits

theorem mapM_packI_fits {xs : List Int} (fits : ∀ x ∈ xs, FitsI x) :
    xs.mapM packI = .ok (xs.map fun x => le32 (.ofNat x.toNat)) := by
  induction xs with
  | nil => rfl
  | cons x xs ih =>
    obtain ⟨first, rest⟩ := List.forall_mem_cons.mp fits
    rw [List.mapM_cons, bind_of_ok _ (packI_fits first), bind_of_ok _ (ih rest)]
    rfl

theorem fitsI_word (w : UInt32) : FitsI w.toNat := by
  have bound := w.toNat_lt
  unfold FitsI
  omega

/-- The script ends without an error where the input can be read and its numbers fit. -/
theorem packFirmware_fits {input : Input} {version loadAddr startAddr : Int}
    {load start : Option Int} {firmware : List UInt8}
    (read : readInput input load start = .ok (loadAddr, startAddr, firmware))
    (length : FitsI firmware.length) (versionFits : FitsI version) (loadFits : FitsI loadAddr)
    (startFits : FitsI startAddr) :
    ∃ header, packHeader firmware.length (zlibCrc32 firmware).toNat version loadAddr startAddr =
        .ok header ∧ packFirmware input version load start = .ok (header ++ firmware) := by
  have magicFits : FitsI magic := by decide
  have crcFits := fitsI_word (zlibCrc32 firmware)
  have fits : ∀ x ∈ [magic, ↑firmware.length, ↑(zlibCrc32 firmware).toNat, version, loadAddr,
      startAddr], FitsI x := by
    simp [magicFits, length, crcFits, versionFits, loadFits, startFits]
  have header := bind_of_ok (fun words => (pure (words.flatten ++ List.replicate 8 0) :
    Script (List UInt8))) (mapM_packI_fits fits)
  refine ⟨_, header, ?_⟩
  rw [packFirmware, bind_of_ok _ read]
  exact bind_of_ok _ header

end T113Boot.Ota.Pack
