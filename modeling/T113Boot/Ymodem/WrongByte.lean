/- Module: T113Boot/Ymodem/WrongByte
   layer: specification
   digest: A block with one wrong byte: its number, its complement or its checksum shows it. -/

import T113Boot.Lib.ShiftCrc
import T113Boot.Ymodem.Sender

set_option autoImplicit false
set_option relaxedAutoImplicit false

namespace T113Boot.Ymodem.WrongByte

open T113Boot.Lib.ShiftCrc
open T113Boot.Ymodem.Receive
open T113Boot.Ymodem.Wire
open T113Boot.Ymodem.Sender

private theorem high_bit (crc : UInt16) : crc &&& 0x8000 ≠ 0 ↔ crc.toBitVec.msb = true := by
  have one : (0x8000#16 : BitVec 16) = BitVec.twoPow 16 15 := by decide
  have bits : (crc &&& 0x8000).toBitVec = crc.toBitVec &&& BitVec.twoPow 16 15 := by
    rw [UInt16.toBitVec_and, ← one]
    rfl
  rw [ne_eq, ← UInt16.toBitVec_inj, bits, BitVec.and_twoPow, BitVec.msb_eq_getLsbD_last]
  cases crc.toBitVec.getLsbD 15 <;> decide

theorem crc16Bit_toBitVec (crc : UInt16) :
    (crc16Bit crc).toBitVec = bitStep 0x1021#16 crc.toBitVec := by
  have shifted : (crc <<< 1).toBitVec = crc.toBitVec <<< 1 := by
    rw [UInt16.toBitVec_shiftLeft]
    rfl
  unfold crc16Bit bitStep
  by_cases high : crc &&& 0x8000 ≠ 0
  · rw [if_pos high, if_pos ((high_bit crc).mp high), UInt16.toBitVec_xor, shifted]
    rfl
  · rw [if_neg high, if_neg fun top => high ((high_bit crc).mpr top), shifted]

theorem crc16Bit_injective : Function.Injective crc16Bit := by
  intro c d same
  have bits := congrArg UInt16.toBitVec same
  rw [crc16Bit_toBitVec, crc16Bit_toBitVec] at bits
  exact UInt16.toBitVec_inj.mp (bitStep_injective (by decide) bits)

private theorem eightBits_injective : Function.Injective fun crc =>
    crc16Bit (crc16Bit (crc16Bit (crc16Bit (crc16Bit (crc16Bit (crc16Bit (crc16Bit crc))))))) :=
  fun _ _ same => crc16Bit_injective (crc16Bit_injective (crc16Bit_injective (crc16Bit_injective
    (crc16Bit_injective (crc16Bit_injective (crc16Bit_injective (crc16Bit_injective same)))))))

theorem crc16Byte_keeps (b : UInt8) : Function.Injective fun crc => crc16Byte crc b := by
  intro c d same
  have before := eightBits_injective same
  simpa using before

theorem crc16Byte_tells (crc : UInt16) : Function.Injective (crc16Byte crc) := by
  intro a b same
  have before : crc ^^^ (a.toUInt16 <<< 8) = crc ^^^ (b.toUInt16 <<< 8) :=
    eightBits_injective same
  have shifted : a.toUInt16 <<< 8 = b.toUInt16 <<< 8 := by simpa using before
  have values := congrArg UInt16.toNat shifted
  simp only [UInt16.toNat_shiftLeft, UInt8.toNat_toUInt16, Nat.shiftLeft_eq] at values
  have small := a.toNat_lt
  have small' := b.toNat_lt
  have eight : (8 : UInt16).toNat % 16 = 8 := by decide
  rw [eight] at values
  exact UInt8.toNat_inj.mp (by omega)

theorem ymodemCrc16_set_ne (bs : List UInt8) (i : Nat) (v : UInt8) (wrong : ∀ c ∈ bs[i]?, v ≠ c)
    (inside : i < bs.length) : ymodemCrc16 (bs.set i v) ≠ ymodemCrc16 bs :=
  foldl_set_ne crc16Byte_keeps crc16Byte_tells bs i v 0 wrong inside

private theorem high_byte : ∀ i : Fin 256,
    (((UInt8.ofNat i).toUInt16 <<< 8) &&& 0xFF00).toNat = i.val <<< 8 := by decide +kernel

theorem recvCrc_toNat (crcH crcL : UInt8) :
    (recvCrc crcH crcL).toNat = crcH.toNat * 256 + crcL.toNat := by
  have high := high_byte ⟨crcH.toNat, crcH.toNat_lt⟩
  rw [UInt8.ofNat_toNat] at high
  have low : (crcL.toUInt16 &&& 0x00FF).toNat = crcL.toNat := by
    rw [UInt16.toNat_and, UInt8.toNat_toUInt16]
    exact (Nat.and_two_pow_sub_one_eq_mod _ 8).trans (Nat.mod_eq_of_lt crcL.toNat_lt)
  rw [recvCrc, UInt16.toNat_or, high, low, ← Nat.shiftLeft_add_eq_or_of_lt crcL.toNat_lt,
    Nat.shiftLeft_eq]

theorem recvCrc_eq_iff (crcH crcL : UInt8) (crc : UInt16) :
    recvCrc crcH crcL = crc ↔ crcH = (crc >>> 8).toUInt8 ∧ crcL = crc.toUInt8 := by
  constructor
  · intro same
    have value := recvCrc_toNat crcH crcL
    have again := recvCrc_toNat (crc >>> 8).toUInt8 crc.toUInt8
    rw [recvCrc_bytes] at again
    rw [same] at value
    have small := crcH.toNat_lt
    have small' := crcL.toNat_lt
    have small'' := (crc >>> 8).toUInt8.toNat_lt
    have small''' := crc.toUInt8.toNat_lt
    exact ⟨UInt8.toNat_inj.mp (by omega), UInt8.toNat_inj.mp (by omega)⟩
  · rintro ⟨rfl, rfl⟩
    exact recvCrc_bytes crc

theorem arriving_append (bs cs : List UInt8) : arriving (bs ++ cs) = arriving bs ++ arriving cs :=
  List.map_append

theorem readTurn_number (format : Format) {packNum packMask : UInt8}
    (mask : packNum ^^^ packMask ≠ 0xFF) (rest : Input) :
    readTurn (some format.head :: some packNum :: some packMask :: rest) = some (.again, rest) := by
  have body (n : Nat) :
      readBody n (some packNum :: some packMask :: rest) = some (.again, rest) := by
    simp only [readBody, if_neg mask]
  rcases format with _ | _
  · exact body packetSize128
  · exact body packetSize1K

theorem readTurn_payload (format : Format) {packNum packMask : UInt8}
    (mask : packNum ^^^ packMask = 0xFF) {bs : List UInt8} (sized : bs.length = format.size)
    (rest : Input) :
    readTurn (some format.head :: some packNum :: some packMask :: (arriving bs ++ rest)) =
      readChecksum bs rest := by
  have body : readBody format.size (some packNum :: some packMask :: (arriving bs ++ rest)) =
      readChecksum bs rest := by
    simp only [readBody, if_pos mask, ← sized, takeBytes_arriving]
  rcases format with _ | _
  · exact body
  · exact body

theorem readTurn_frame (format : Format) {packNum packMask : UInt8}
    (mask : packNum ^^^ packMask = 0xFF) {bs : List UInt8} (sized : bs.length = format.size)
    (crcH crcL : UInt8) (rest : Input) :
    readTurn (some format.head :: some packNum :: some packMask ::
      (arriving bs ++ some crcH :: some crcL :: rest)) =
      some (if recvCrc crcH crcL = ymodemCrc16 bs then .done (.packet bs) else .again, rest) :=
  readTurn_payload format mask sized _

/-- A byte behind the first of a block, and a wrong value for it. -/
structure Corruption (b : Block) where
  position : Nat
  value : UInt8
  later : 0 < position
  inside : position < b.wire.length
  wrong : ∀ c ∈ b.wire[position]?, value ≠ c

variable {b : Block}

/-- The block as it comes. -/
def Corruption.wire (c : Corruption b) : List UInt8 := b.wire.set c.position c.value

/-- The two bytes of a checksum. -/
def crcBytes (bs : List UInt8) : List UInt8 :=
  [(ymodemCrc16 bs >>> 8).toUInt8, (ymodemCrc16 bs).toUInt8]

theorem wire_eq (b : Block) : b.wire = b.format.head :: b.number :: (b.number ^^^ 0xFF) ::
    (b.payload ++ crcBytes b.payload) := rfl

theorem three_le_wire (b : Block) : 3 ≤ b.wire.length := by
  rw [wire_eq, List.length_cons, List.length_cons, List.length_cons]
  omega

theorem mask_eq (x : UInt8) : x ^^^ (x ^^^ 0xFF) = 0xFF := by
  rw [← UInt8.xor_assoc, UInt8.xor_self, UInt8.zero_xor]

private theorem mask_ne_left {x y : UInt8} (other : x ≠ y) : x ^^^ (y ^^^ 0xFF) ≠ 0xFF := by
  intro same
  refine other ?_
  have value : x = x ^^^ (y ^^^ 0xFF) ^^^ (y ^^^ 0xFF) := by
    rw [UInt8.xor_assoc, UInt8.xor_self, UInt8.xor_zero]
  rw [value, same, UInt8.xor_comm y, ← UInt8.xor_assoc, UInt8.xor_self, UInt8.zero_xor]

private theorem mask_ne_right {x y : UInt8} (other : y ≠ x ^^^ 0xFF) : x ^^^ y ≠ 0xFF := by
  intro same
  refine other ?_
  rw [← same, ← UInt8.xor_assoc, UInt8.xor_self, UInt8.zero_xor]

/-- With a wrong number or complement these two do not go together. -/
theorem wire_of_early (c : Corruption b) (early : c.position < 3) : ∃ packNum packMask,
    c.wire = b.format.head :: packNum :: packMask :: (b.payload ++ crcBytes b.payload) ∧
      packNum ^^^ packMask ≠ 0xFF := by
  have place : c.position = 1 ∨ c.position = 2 := by
    have later := c.later
    omega
  have wrong := c.wrong
  rw [Corruption.wire, wire_eq]
  rw [wire_eq] at wrong
  rcases place with first | second
  · rw [first] at wrong ⊢
    exact ⟨c.value, b.number ^^^ 0xFF, rfl, mask_ne_left (wrong _ rfl)⟩
  · rw [second] at wrong ⊢
    exact ⟨b.number, c.value, rfl, mask_ne_right (wrong _ rfl)⟩

/-- With a wrong byte behind the complement the checksum is not the payload's. -/
theorem wire_of_late (c : Corruption b) (late : 3 ≤ c.position) : ∃ bs crcH crcL,
    c.wire = b.format.head :: b.number :: (b.number ^^^ 0xFF) :: (bs ++ [crcH, crcL]) ∧
      bs.length = b.format.size ∧ recvCrc crcH crcL ≠ ymodemCrc16 bs := by
  obtain ⟨i, place⟩ := Nat.exists_eq_add_of_le' late
  have wrong := c.wrong
  have inside := c.inside
  rw [wire_eq, place, List.getElem?_cons_succ, List.getElem?_cons_succ,
    List.getElem?_cons_succ] at wrong
  rw [wire_eq, place] at inside
  rw [Corruption.wire, wire_eq, place, List.set_cons_succ, List.set_cons_succ, List.set_cons_succ]
  by_cases payload : i < b.payload.length
  · rw [List.getElem?_append_left payload] at wrong
    rw [List.set_append_left i _ payload]
    refine ⟨_, _, _, rfl, (List.length_set ..).trans b.sized, ?_⟩
    rw [recvCrc_bytes]
    exact (ymodemCrc16_set_ne b.payload i c.value wrong payload).symm
  · have behind : b.payload.length ≤ i := Nat.le_of_not_lt payload
    rw [List.getElem?_append_right behind] at wrong
    rw [List.set_append_right i _ behind]
    have last : i - b.payload.length = 0 ∨ i - b.payload.length = 1 := by
      simp only [List.length_cons, List.length_append, crcBytes, List.length_nil] at inside
      omega
    rcases last with high | low
    · rw [high] at wrong ⊢
      exact ⟨_, _, _, rfl, b.sized, fun same => wrong _ rfl ((recvCrc_eq_iff _ _ _).mp same).1⟩
    · rw [low] at wrong ⊢
      exact ⟨_, _, _, rfl, b.sized, fun same => wrong _ rfl ((recvCrc_eq_iff _ _ _).mp same).2⟩

end T113Boot.Ymodem.WrongByte
