/- Module: T113Boot/Ota/LoadImage
   layer: results
   digest: When a packed ELF file puts its segments at their own addresses. -/

import T113Boot.Lib.Blocks
import T113Boot.Ota.Pack

set_option autoImplicit false
set_option relaxedAutoImplicit false

namespace T113Boot.Ota.LoadImage

open T113Boot.Lib.Blocks
open T113Boot.Lib.Cells
open T113Boot.Lib.LittleEndian
open T113Boot.Ota.Crc32
open T113Boot.Ota.Pack

theorem headerLoadAddr_packed {size crc32 version loadAddr startAddr : Int}
    {header : List UInt8} (h : packHeader size crc32 version loadAddr startAddr = .ok header)
    (firmware : List UInt8) : headerLoadAddr (header ++ firmware) = loadAddr.toNat := by
  obtain ⟨-, -, fits, -, rfl⟩ := packHeader_ok h
  have word := wordAt_flatMap_le32 ([magic, size, crc32, version, loadAddr, startAddr].map
    fun x => UInt32.ofNat x.toNat) (List.replicate 8 0 ++ firmware) 4 (by simp)
  unfold headerLoadAddr
  rw [List.append_assoc, word]
  unfold FitsI at fits
  simp only [List.map_cons, List.getElem_cons_succ, List.getElem_cons_zero]
  rw [UInt32.toNat_ofNat_of_lt' (by simp only [UInt32.size]; omega)]

theorem payload_packed {size crc32 version loadAddr startAddr : Int} {header : List UInt8}
    (h : packHeader size crc32 version loadAddr startAddr = .ok header) (firmware : List UInt8) :
    payload (header ++ firmware) = firmware := by
  obtain ⟨-, -, -, -, rfl⟩ := packHeader_ok h
  have length : (([magic, size, crc32, version, loadAddr, startAddr].map
      fun x : Int => UInt32.ofNat x.toNat).flatMap le32 ++ List.replicate 8 0).length = 32 := by
    rw [List.length_append, length_flatMap_le32]
    rfl
  exact List.drop_left' length

/-- The `PT_LOAD` segments of which the file holds bytes. -/
def loads (elf : ELFFile) : List (Block UInt8) :=
  ((elf.segments.filter fun seg => seg.pType = .ptLoad).map
    fun seg => ⟨seg.pVaddr, seg.data⟩).filter fun b => b.data ≠ []

/-- Memory holds each segment's bytes at its own address once the payload lies at the load
address, whatever it held before. -/
def Preserved (file : List UInt8) (elf : ELFFile) : Prop :=
  ∀ (m : Mem), ∀ seg ∈ elf.segments, seg.pType = .ptLoad →
    slice (store m (headerLoadAddr file) (payload file)) seg.pVaddr seg.data.length = seg.data

/-- In the order of their addresses the segments follow one another without a gap, from the first
one in the file on, and they have the same bytes in this order as in the order of the file. -/
def InAddressOrder (elf : ELFFile) : Prop :=
  ∀ first, elf.segments.find? (fun seg => seg.pType = .ptLoad) = some first →
    Chained first.pVaddr (ordered (loads elf)) ∧ joined (ordered (loads elf)) = joined (loads elf)

theorem joined_loads (elf : ELFFile) : joined (loads elf) =
    ((elf.segments.filter fun seg => seg.pType = .ptLoad).map (·.data)).flatten := by
  unfold loads
  induction elf.segments.filter fun seg => seg.pType = .ptLoad with
  | nil => rfl
  | cons seg segs ih =>
    rw [List.map_cons, List.map_cons, List.flatten_cons, ← ih, List.filter_cons]
    split
    · rfl
    · rename_i empty
      have none : seg.data = [] := by simpa using empty
      rw [none, List.nil_append]

/-- A stored image has a block's bytes at the block's address, over any memory, exactly if it shows
the block. -/
theorem shows_iff_store (base : Nat) (image : List UInt8) (b : Block UInt8) :
    Shows base image b ↔
      ∀ m : Mem, slice (store m base image) b.start b.data.length = b.data := by
  constructor
  · intro shown m
    apply List.ext_getElem (length_slice _ _ _)
    intro k _ inside
    have here := shown k b.data[k] (List.getElem?_eq_getElem inside)
    unfold cell at here
    split at here
    · rename_i above
      obtain ⟨below, value⟩ := List.getElem?_eq_some_iff.mp here
      rw [getElem_slice, store, if_pos (by omega), List.getD_eq_getElem _ _ below, value]
    · cases here
  · intro stored k x at_k
    obtain ⟨inside, rfl⟩ := List.getElem?_eq_some_iff.mp at_k
    -- over a memory that holds another byte there, only the image can give this one
    have here := congrArg (·[k]?) (stored fun _ => b.data[k] + 1)
    rw [List.getElem?_eq_getElem inside, List.getElem?_eq_getElem (by simpa using inside),
      Option.some_inj, getElem_slice, store] at here
    split at here
    · rename_i range
      have below : b.start + k - base < image.length := by omega
      rw [cell, if_pos range.1, List.getElem?_eq_getElem below, ← here,
        List.getD_eq_getElem _ _ below]
    · simp at here

/-- For segments that share no address, packing preserves the load image if and only if they stand
in the order of their addresses without a gap, or have the bytes they would have so. -/
theorem preserved_iff (elf : ELFFile) (version : Int) (load start : Option Int) (file : List UInt8)
    (disjoint : NoOverlap (loads elf))
    (packed : packFirmware (.elf elf) version load start = .ok file) :
    Preserved file elf ↔ InAddressOrder elf := by
  obtain ⟨loadAddr, startAddr, firmware, header, read, head, rfl⟩ := packFirmware_ok packed
  obtain ⟨addrs, parsed, read⟩ := bind_ok read
  cases Except.ok.inj read
  obtain ⟨first, found, rfl⟩ : ∃ first, elf.segments.find? (fun seg => seg.pType = .ptLoad) =
      some first ∧ addrs = (first.pVaddr, elf.eEntry) := by
    unfold parseElfAddresses at parsed
    split at parsed
    · cases parsed
    · rename_i first found
      exact ⟨first, found, (Except.ok.inj parsed).symm⟩
  have cells : ∀ b ∈ loads elf, b.data ≠ [] := fun b member => by
    simpa using (List.mem_filter.mp member).2
  unfold Preserved
  rw [headerLoadAddr_packed head, payload_packed head, ← joined_loads]
  have order : InAddressOrder elf ↔ Chained first.pVaddr (ordered (loads elf)) ∧
      joined (ordered (loads elf)) = joined (loads elf) := by
    unfold InAddressOrder
    rw [found]
    simp
  rw [order, ← shows_joined_iff disjoint cells]
  constructor
  · intro preserved b member
    obtain ⟨seg, listed, rfl⟩ := List.mem_map.mp (List.mem_filter.mp member).1
    rw [List.mem_filter, decide_eq_true_eq] at listed
    exact (shows_iff_store _ _ _).mpr fun m => preserved m seg listed.1 listed.2
  · intro shown m seg member load
    by_cases empty : seg.data = []
    · rw [empty]
      rfl
    · refine (shows_iff_store _ _ ⟨seg.pVaddr, seg.data⟩).mp (shown _ ?_) m
      refine List.mem_filter.mpr ⟨List.mem_map.mpr ⟨seg, ?_, rfl⟩, by simpa using empty⟩
      exact List.mem_filter.mpr ⟨member, decide_eq_true load⟩

/-- Code at 8, a note, and behind the code two segments that the file lists in the opposite order. -/
def swapped (upper lower : UInt8) : ELFFile :=
  ⟨8, [⟨.ptLoad, 8, [1, 1]⟩, ⟨.other 4, 0, [9]⟩, ⟨.ptLoad, 11, [upper]⟩, ⟨.ptLoad, 10, [lower]⟩]⟩

/-- The image survives where the two hold the same byte, and nowhere else. -/
theorem preserved_iff_swapped :
    (∃ file, packFirmware (.elf (swapped 2 2)) 1 none none = .ok file ∧
      Preserved file (swapped 2 2)) ∧
    ∃ file, packFirmware (.elf (swapped 3 2)) 1 none none = .ok file ∧
      ¬ Preserved file (swapped 3 2) := by
  have disjoint (upper lower : UInt8) : NoOverlap (loads (swapped upper lower)) := by
    simp [loads, swapped, NoOverlap, Block.stop]
  have packs (upper lower : UInt8) : ∃ file,
      packFirmware (.elf (swapped upper lower)) 1 none none = .ok file := by
    have read : readInput (.elf (swapped upper lower)) none none =
        .ok (8, 8, [1, 1, upper, lower]) := rfl
    obtain ⟨header, -, packed⟩ := packFirmware_fits read (show FitsI 4 by decide)
      (show FitsI 1 by decide) (by decide) (by decide)
    exact ⟨_, packed⟩
  obtain ⟨file, packed⟩ := packs 2 2
  obtain ⟨file', packed'⟩ := packs 3 2
  refine ⟨⟨file, packed, (preserved_iff _ 1 none none file (disjoint 2 2) packed).mpr ?_⟩,
    file', packed', fun preserved => ?_⟩
  · rintro first ⟨⟩
    exact ⟨⟨rfl, rfl, rfl, trivial⟩, by decide⟩
  · have order := (preserved_iff _ 1 none none file' (disjoint 3 2) packed').mp preserved _ rfl
    exact absurd order.2 (by decide)

/-- Code at 0 and data at 2, with a gap between them: the data lands at 1. -/
def gapped : ELFFile := ⟨0, [⟨.ptLoad, 0, [1]⟩, ⟨.ptLoad, 2, [2]⟩]⟩

theorem gap_breaks_image : NoOverlap (loads gapped) ∧
    ∃ file, packFirmware (.elf gapped) 1 none none = .ok file ∧ ¬ Preserved file gapped := by
  have read : readInput (.elf gapped) none none = .ok (0, 0, [1, 2]) := rfl
  obtain ⟨header, head, packed⟩ := packFirmware_fits read (by decide) (show FitsI 1 by decide)
    (by decide) (by decide)
  refine ⟨by simp [loads, gapped, NoOverlap, Block.stop], _, packed, ?_⟩
  intro preserved
  have data := preserved (fun _ => 0) ⟨.ptLoad, 2, [2]⟩ (by simp [gapped]) rfl
  rw [headerLoadAddr_packed head, payload_packed head] at data
  revert data
  decide

end T113Boot.Ota.LoadImage
