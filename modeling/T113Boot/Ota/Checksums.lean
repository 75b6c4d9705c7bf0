/- Module: T113Boot/Ota/Checksums
   layer: results
   digest: The three CRC-32 computations agree, at once and in pieces of any size. -/

import T113Boot.Ota.Loops

set_option autoImplicit false
set_option relaxedAutoImplicit false

namespace T113Boot.Ota.Checksums

open T113Boot.Lib.Cells
open T113Boot.Lib.Stoppable
open T113Boot.Ota.Board
open T113Boot.Ota.Crc32
open T113Boot.Ota.Firmware
open T113Boot.Ota.Access
open T113Boot.Ota.Loops

/-- The CRC-32 of a byte string as the boot code computes it. -/
def bootCrc32 (data : List UInt8) : UInt32 := bootCrc32Update 0xFFFFFFFF data ^^^ 0xFFFFFFFF

theorem bootCrc32_eq_zlib (data : List UInt8) : bootCrc32 data = zlibCrc32 data := by
  rw [bootCrc32, bootCrc32Update_eq, ← otaCrc32, otaCrc32_eq_zlib]

theorem otaCrc32Update_pieces (crc : UInt32) (pieces : List (List UInt8)) :
    pieces.foldl otaCrc32Update crc = otaCrc32Update crc pieces.flatten := by
  induction pieces generalizing crc with
  | nil => rfl
  | cons piece pieces ih =>
    rw [List.foldl_cons, ih, List.flatten_cons, otaCrc32Update_append]

theorem bootCrc32Update_pieces (crc : UInt32) (pieces : List (List UInt8)) :
    pieces.foldl bootCrc32Update crc = bootCrc32Update crc pieces.flatten := by
  have same : bootCrc32Update = otaCrc32Update := by
    funext crc data
    exact bootCrc32Update_eq crc data
  rw [same, otaCrc32Update_pieces]

/-- What the loop over `Download` returns is the register after the whole payload. -/
theorem crcLoop_returns {size crc : UInt32} {w w' : World}
    (run : crcLoop size w = (some (.ok crc), w')) :
    crc = bootCrc32Update 0xFFFFFFFF (slice w.flash (download.start.toNat + 32) size.toNat) := by
  obtain ⟨-, -, sum⟩ := (wp_of_some run).mp (crcLoop_wp size w)
  rw [sum, bootCrc32Update_eq]

/-- Without faults it returns it for every payload that lies inside the partition. -/
theorem crcLoop_healthy (size : UInt32) (w : World) :
    (crcLoop size { w with faults := [] }).1 =
      some (if Fits download recordSize size then
        .ok (bootCrc32Update 0xFFFFFFFF (slice w.flash (download.start.toNat + 32) size.toNat))
      else .error otaErrPartition) := by
  obtain ⟨result, w', run, ended⟩ := wp_returns (crcLoop_wp size { w with faults := [] })
  rw [run]
  rcases result with err | crc
  · obtain ⟨-, rfl, unfit⟩ := ended
    rw [if_neg (unfit rfl)]
  · obtain ⟨-, fits, -⟩ := ended
    rw [if_pos fits, crcLoop_returns run]

/-- Both tables compute the CRC-32 of the packing script, however the bytes are cut, and the
loop over the received image forms the register that the loader forms over the same bytes. -/
theorem checksums_agree :
    (∀ data, otaCrc32 data = zlibCrc32 data ∧ bootCrc32 data = zlibCrc32 data) ∧
    (∀ pieces : List (List UInt8),
      pieces.foldl otaCrc32Update 0xFFFFFFFF ^^^ 0xFFFFFFFF = zlibCrc32 pieces.flatten ∧
      pieces.foldl bootCrc32Update 0xFFFFFFFF ^^^ 0xFFFFFFFF = zlibCrc32 pieces.flatten) ∧
    (∀ (size : UInt32) (w : World), (crcLoop size { w with faults := [] }).1 =
      some (if Fits download recordSize size then
        .ok (bootCrc32Update 0xFFFFFFFF (slice w.flash (download.start.toNat + 32) size.toNat))
      else .error otaErrPartition)) ∧
    (∀ (size crc : UInt32) (w w' : World), crcLoop size w = (some (.ok crc), w') →
      crc = bootCrc32Update 0xFFFFFFFF (slice w.flash (download.start.toNat + 32) size.toNat)) := by
  refine ⟨fun data => ⟨otaCrc32_eq_zlib data, bootCrc32_eq_zlib data⟩, fun pieces => ⟨?_, ?_⟩,
    crcLoop_healthy, fun size crc w w' run => crcLoop_returns run⟩
  · rw [otaCrc32Update_pieces]
    exact otaCrc32_eq_zlib _
  · rw [bootCrc32Update_pieces]
    exact bootCrc32_eq_zlib _

end T113Boot.Ota.Checksums
