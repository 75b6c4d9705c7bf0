/- Module: T113Boot/Ymodem/BurstErrors
   layer: specification
   digest: The block checksum is a remainder of polynomials, and shows every burst of sixteen bits. -/

import T113Boot.Lib.CrcPolynomial
import T113Boot.Ymodem.WrongByte

set_option autoImplicit false
set_option relaxedAutoImplicit false

namespace T113Boot.Ymodem.BurstErrors

open Polynomial
open T113Boot.Lib.ShiftCrc
open T113Boot.Lib.CrcPolynomial
open T113Boot.Ymodem.Receive
open T113Boot.Ymodem.Wire
open T113Boot.Ymodem.Sender
open T113Boot.Ymodem.WrongByte

variable {τ : Type}

/-- The bytes of a buffer as words. -/
def words (bs : List UInt8) : List (BitVec 8) := bs.map UInt8.toBitVec

theorem words_append (as bs : List UInt8) : words (as ++ bs) = words as ++ words bs :=
  List.map_append

theorem words_length (bs : List UInt8) : (words bs).length = bs.length := List.length_map _

/-- Errors flip bits. -/
def flipped (bs pattern : List UInt8) : List UInt8 := List.zipWith (· ^^^ ·) bs pattern

theorem words_flipped (bs pattern : List UInt8) :
    words (flipped bs pattern) = List.zipWith (· ^^^ ·) (words bs) (words pattern) := by
  rw [words, flipped, List.map_zipWith, words, words, List.zipWith_map]
  rfl

theorem crc16Byte_toBitVec (crc : UInt16) (b : UInt8) :
    (crc16Byte crc b).toBitVec = byteStep 0x1021#16 crc.toBitVec b.toBitVec := by
  have fed : (crc ^^^ (b.toUInt16 <<< 8)).toBitVec =
      crc.toBitVec ^^^ (b.toBitVec.setWidth 16 <<< 8) := by
    rw [UInt16.toBitVec_xor, UInt16.toBitVec_shiftLeft]
    rfl
  rw [crc16Byte, byteStep, ← fed]
  simp only [crc16Bit_toBitVec]
  rfl

theorem ymodemCrc16_toBitVec (buf : List UInt8) :
    (ymodemCrc16 buf).toBitVec = register 0x1021#16 (words buf) := by
  have onward (crc : UInt16) : (buf.foldl crc16Byte crc).toBitVec =
      (words buf).foldl (byteStep 0x1021#16) crc.toBitVec := by
    induction buf generalizing crc with
    | nil => rfl
    | cons b buf ih =>
      rw [List.foldl_cons, ih, crc16Byte_toBitVec]
      rfl
  exact onward 0

theorem generator_eq : generator 0x1021#16 = X ^ 16 + X ^ 12 + X ^ 5 + 1 := by
  have bits : ofWord 0x1021#16 = X ^ 12 + X ^ 5 + 1 := by
    simp [ofWord, Finset.sum_range_succ]
    ring
  rw [generator, bits]
  ring

theorem ymodemCrc16_remainder (buf : List UInt8) : ofWord (ymodemCrc16 buf).toBitVec =
    (message (words buf) * X ^ 16) %ₘ (X ^ 16 + X ^ 12 + X ^ 5 + 1) := by
  rw [ymodemCrc16_toBitVec, ← generator_eq]
  exact register_eq_modByMonic (by decide) _ _

/-- The nine digits. -/
example : ymodemCrc16 [0x31, 0x32, 0x33, 0x34, 0x35, 0x36, 0x37, 0x38, 0x39] = 0x31C3 := by
  decide +kernel

theorem recvCrc_toBitVec (crcH crcL : UInt8) :
    (recvCrc crcH crcL).toBitVec = crcH.toBitVec ++ crcL.toBitVec := by
  apply BitVec.eq_of_toNat_eq
  rw [BitVec.toNat_append, UInt16.toNat_toBitVec, recvCrc_toNat,
    ← Nat.shiftLeft_add_eq_or_of_lt crcL.toBitVec.isLt, Nat.shiftLeft_eq]
  rfl

theorem message_two (crcH crcL : UInt8) :
    message (words [crcH, crcL]) = ofWord (recvCrc crcH crcL).toBitVec := by
  rw [recvCrc_toBitVec, ofWord_append]
  change (0 * X ^ 8 + ofWord crcH.toBitVec) * X ^ 8 + ofWord crcL.toBitVec = _
  rw [zero_mul, zero_add]

theorem recvCrc_eq_iff_dvd (bs : List UInt8) (crcH crcL : UInt8) :
    recvCrc crcH crcL = ymodemCrc16 bs ↔
      generator 0x1021#16 ∣ message (words (bs ++ [crcH, crcL])) := by
  rw [words_append, message_append, message_two, words_length]
  change _ ↔ _ ∣ message (words bs) * X ^ 16 + _
  rw [← register_eq_iff (by decide), ← ymodemCrc16_toBitVec, UInt16.toBitVec_inj]
  exact eq_comm

theorem dvd_message_crcBytes (buf : List UInt8) :
    generator 0x1021#16 ∣ message (words (buf ++ crcBytes buf)) :=
  (recvCrc_eq_iff_dvd buf _ _).mp (recvCrc_bytes _)

theorem ymodemCrc16_appended (buf : List UInt8) : ymodemCrc16 (buf ++ crcBytes buf) = 0 := by
  have zero : register 0x1021#16 (words (buf ++ crcBytes buf)) = 0 := by
    rw [register_eq_iff (by decide), ofWord_zero, add_zero]
    exact (dvd_message_crcBytes buf).mul_right _
  rw [← ymodemCrc16_toBitVec] at zero
  exact UInt16.toBitVec_inj.mp zero

/-- Errors in `n` bytes: there are some, and they lie in sixteen consecutive bits, of which
the highest of a byte comes first. -/
structure Burst (n : Nat) where
  pattern : List UInt8
  first : Nat
  sized : pattern.length = n
  within : ∀ i, bitAt (words pattern) i = true → first ≤ i ∧ i < first + 16
  occurs : ∃ i, bitAt (words pattern) i = true

private theorem bitAt_single {n k : Nat} (inside : k < 8 * n) (i : Nat) :
    bitAt (words ((List.replicate n 0).set (k / 8) (0x80 >>> UInt8.ofNat (k % 8)))) i =
      decide (i = k) := by
  have bits : ∀ a < 8, ∀ b < 8,
      (0x80 >>> UInt8.ofNat a).toBitVec.getMsbD b = decide (b = a) := by decide
  unfold bitAt words
  rw [List.getD_eq_getElem?_getD, List.getElem?_map, List.getElem?_set, List.length_replicate]
  by_cases byte : k / 8 = i / 8
  · rw [if_pos byte, if_pos (by omega), Option.map_some, Option.getD_some,
      bits _ (Nat.mod_lt _ (by decide)) _ (Nat.mod_lt _ (by decide)), decide_eq_decide]
    omega
  · have other : i ≠ k := fun same => byte (by rw [same])
    rw [if_neg byte, List.getElem?_replicate, decide_eq_false other]
    split
    · exact (BitVec.getMsbD_zero : (0#8).getMsbD _ = false)
    · exact (BitVec.getMsbD_zero : (0#8).getMsbD _ = false)

/-- One wrong bit, anywhere. -/
def Burst.single {n k : Nat} (inside : k < 8 * n) : Burst n where
  pattern := (List.replicate n 0).set (k / 8) (0x80 >>> UInt8.ofNat (k % 8))
  first := k
  sized := by rw [List.length_set, List.length_replicate]
  within i set := by
    rw [bitAt_single inside, decide_eq_true_eq] at set
    omega
  occurs := ⟨k, by rw [bitAt_single inside, decide_eq_true_eq]⟩

theorem Burst.not_dvd {n : Nat} (e : Burst n) :
    ¬ generator 0x1021#16 ∣ message (words e.pattern) :=
  not_dvd_of_burst (by decide) (by decide) e.within e.occurs

/-- What comes of a payload and its checksum. -/
def Burst.received {b : Block} (e : Burst (b.format.size + 2)) : List UInt8 :=
  flipped (b.payload ++ crcBytes b.payload) e.pattern

/-- The packet as it comes, and the input behind it. -/
def Burst.arrival {b : Block} (e : Burst (b.format.size + 2)) (rest : Input) : Input :=
  some b.format.head :: some b.number :: some (b.number ^^^ 0xFF) ::
    (arriving e.received ++ rest)

theorem sent_length (b : Block) :
    (b.payload ++ crcBytes b.payload).length = b.format.size + 2 := by
  rw [List.length_append, b.sized]
  rfl

theorem Burst.received_wrong {b : Block} (e : Burst (b.format.size + 2)) : ∃ bs crcH crcL,
    e.received = bs ++ [crcH, crcL] ∧ bs.length = b.format.size ∧
      recvCrc crcH crcL ≠ ymodemCrc16 bs := by
  have size : e.received.length = b.format.size + 2 := by
    rw [received, flipped, List.length_zipWith, sent_length, e.sized, Nat.min_self]
  have tail : (e.received.drop b.format.size).length = 2 := by
    rw [List.length_drop, size, Nat.add_sub_cancel_left]
  obtain ⟨crcH, crcL, last⟩ := List.length_eq_two.mp tail
  have whole := List.take_append_drop b.format.size e.received
  rw [last] at whole
  refine ⟨e.received.take b.format.size, crcH, crcL, whole.symm, ?_, ?_⟩
  · rw [List.length_take, size]
    exact Nat.min_eq_left (Nat.le_add_right ..)
  · intro same
    -- What was sent is a multiple of the generator, so the errors would be one.
    have multiple := (recvCrc_eq_iff_dvd _ crcH crcL).mp same
    have lengths : (words (b.payload ++ crcBytes b.payload)).length =
        (words e.pattern).length := by
      rw [words_length, words_length, sent_length, e.sized]
    rw [whole, received, words_flipped, message_xor lengths] at multiple
    exact e.not_dvd ((dvd_add_right (dvd_message_crcBytes b.payload)).mp multiple)

theorem burst_rejected (b : Block) (e : Burst (b.format.size + 2)) (s : Receiver τ)
    (rest : Input) : ∃ s', recvTurn { s with input := e.arrival rest } = (some none, s') ∧
      s'.input = rest ∧ s'.trace = s.trace ++ [.putchar ymodemNak] := by
  obtain ⟨bs, crcH, crcL, whole, sized, wrong⟩ := e.received_wrong
  have reading := readTurn_frame b.format (mask_eq b.number) sized crcH crcL rest
  rw [if_neg wrong] at reading
  have frame : e.arrival rest = some b.format.head :: some b.number :: some (b.number ^^^ 0xFF) ::
      (arriving bs ++ some crcH :: some crcL :: rest) := by
    rw [Burst.arrival, whole, arriving_append, List.append_assoc]
    rfl
  have run := recvTurn_run { s with input := e.arrival rest }
  simp only [frame, reading] at run
  obtain ⟨s', turn, done⟩ := run
  rw [frame]
  exact ⟨s', turn, done.input, done.trace⟩

/-- The block checksum is the remainder of the message, moved up sixteen places, by
`X ^ 16 + X ^ 12 + X ^ 5 + 1`; behind its message it leaves none; and a packet with errors in
at most sixteen consecutive bits is not accepted. -/
theorem crc_finds_bursts :
    (∀ buf, ofWord (ymodemCrc16 buf).toBitVec =
      (message (words buf) * X ^ 16) %ₘ (X ^ 16 + X ^ 12 + X ^ 5 + 1)) ∧
    (∀ buf, ymodemCrc16 (buf ++ crcBytes buf) = 0) ∧
    ∀ (b : Block) (e : Burst (b.format.size + 2)) (s : Receiver τ) (rest : Input), ∃ s',
      recvTurn { s with input := e.arrival rest } = (some none, s') ∧
      s'.input = rest ∧ s'.trace = s.trace ++ [.putchar ymodemNak] :=
  ⟨ymodemCrc16_remainder, ymodemCrc16_appended, burst_rejected⟩

def fillBlock : Block where
  number := 1
  format := .soh
  payload := List.replicate 128 0x1A
  sized := List.length_replicate

/-- A block of 128 bytes in which bit 200 is wrong. -/
def wrongBit : Burst (fillBlock.format.size + 2) :=
  .single (by decide : 200 < 8 * (fillBlock.format.size + 2))

theorem crc_finds_wrongBit : ∃ s' : Receiver Unit,
    recvTurn ⟨wrongBit.arrival [], ⟨0, [], 0⟩, [], ()⟩ = (some none, s') ∧
      s'.input = [] ∧ s'.trace = [.putchar ymodemNak] :=
  crc_finds_bursts.2.2 fillBlock wrongBit ⟨[], ⟨0, [], 0⟩, [], ()⟩ []

end T113Boot.Ymodem.BurstErrors
