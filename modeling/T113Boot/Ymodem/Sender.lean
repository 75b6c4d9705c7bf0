/- Module: T113Boot/Ymodem/Sender
   layer: specification
   digest: A conforming sender: its blocks on the wire, and how it cuts a file into them. -/

import Mathlib.Data.List.TakeWhile
import T113Boot.Ymodem.Wire

set_option autoImplicit false
set_option relaxedAutoImplicit false

namespace T113Boot.Ymodem.Sender

open T113Boot.Ymodem.Receive
open T113Boot.Ymodem.Wire

/-- The two block formats. -/
inductive Format where
  | soh
  | stx
deriving DecidableEq

def Format.size : Format → Nat
  | .soh => 128
  | .stx => 1024

def Format.head : Format → UInt8
  | .soh => 0x01
  | .stx => 0x02

/-- A block carries exactly as many bytes as its format says. -/
structure Block where
  number : UInt8
  format : Format
  payload : List UInt8
  sized : payload.length = format.size

/-- The bytes of a block: format, number, complement, payload, checksum. -/
def Block.wire (b : Block) : List UInt8 :=
  b.format.head :: b.number :: (b.number ^^^ 0xFF) :: (b.payload ++
    [(ymodemCrc16 b.payload >>> 8).toUInt8, (ymodemCrc16 b.payload).toUInt8])

/-- Bytes that all come in time. -/
def arriving (bs : List UInt8) : Input := bs.map some

/-- Silence for `n` time-outs. -/
def silence (n : Nat) : Input := List.replicate n none

private theorem high_mask : ∀ i : Fin 16, (0xFF00#16).getLsbD i = decide (8 ≤ i.val) := by decide

private theorem low_mask : ∀ i : Fin 16, (0x00FF#16).getLsbD i = decide (i.val < 8) := by decide

/-- The two bytes that a sender makes of a checksum are put together again. -/
theorem recvCrc_bytes (crc : UInt16) : recvCrc (crc >>> 8).toUInt8 crc.toUInt8 = crc := by
  apply UInt16.toBitVec_inj.mp
  apply BitVec.eq_of_getLsbD_eq
  intro i hi
  have high := high_mask ⟨i, hi⟩
  have low := low_mask ⟨i, hi⟩
  have byte : ((8#16 % 16#16).toNat : Nat) = 8 := by decide
  simp only [recvCrc, UInt16.toBitVec_or, UInt16.toBitVec_and, UInt16.toBitVec_shiftLeft,
    UInt16.toBitVec_shiftRight, UInt8.toBitVec_toUInt16, UInt16.toBitVec_toUInt8,
    UInt16.toBitVec_ofNat, BitVec.shiftLeft_eq', BitVec.ushiftRight_eq', BitVec.ofNat_eq_ofNat, byte,
    BitVec.getLsbD_or, BitVec.getLsbD_and, high, low, BitVec.getLsbD_shiftLeft,
    BitVec.getLsbD_ushiftRight, BitVec.getLsbD_setWidth]
  by_cases upper : 8 ≤ i
  · rw [show 8 + (i - 8) = i by omega]
    simp only [hi, upper, show ¬ i < 8 by omega, show i - 8 < 16 by omega, show i - 8 < 8 by omega,
      decide_true, decide_false, Bool.not_false, Bool.true_and, Bool.and_true, Bool.and_false,
      Bool.or_false]
  · simp only [hi, upper, show i < 8 by omega, decide_true, decide_false, Bool.true_and,
      Bool.and_true, Bool.and_false, Bool.false_or]

theorem takeBytes_arriving (bs : List UInt8) (rest : Input) :
    takeBytes (arriving bs ++ rest) bs.length = some (bs, rest) := by
  induction bs with
  | nil => cases rest <;> rfl
  | cons c bs ih =>
    rw [arriving] at ih
    simp only [arriving, List.map_cons, List.cons_append, List.length_cons, takeBytes, ih,
      Option.map_some]

theorem readTurn_block (b : Block) (rest : Input) :
    readTurn (arriving b.wire ++ rest) = some (.done (.packet b.payload), rest) := by
  have mask : b.number ^^^ (b.number ^^^ 0xFF) = 0xFF := by
    rw [← UInt8.xor_assoc, UInt8.xor_self, UInt8.zero_xor]
  have payload : takeBytes (arriving b.payload ++
      (some (ymodemCrc16 b.payload >>> 8).toUInt8 :: some (ymodemCrc16 b.payload).toUInt8 :: rest))
      b.format.size = some (b.payload, some (ymodemCrc16 b.payload >>> 8).toUInt8 ::
        some (ymodemCrc16 b.payload).toUInt8 :: rest) := by
    rw [← b.sized, takeBytes_arriving]
  have body : readBody b.format.size (some b.number :: some (b.number ^^^ 0xFF) ::
      (arriving b.payload ++ (some (ymodemCrc16 b.payload >>> 8).toUInt8 ::
        some (ymodemCrc16 b.payload).toUInt8 :: rest))) = some (.done (.packet b.payload), rest) := by
    simp only [readBody, mask, if_true, payload, readChecksum, recvCrc_bytes]
  simp only [Block.wire, arriving, List.map_cons, List.map_append, List.map_nil, List.cons_append,
    List.append_assoc, List.nil_append] at body ⊢
  rcases b with ⟨number, _ | _, payload, sized⟩
  · exact body
  · exact body

theorem reception_silence (n k : Nat) (input : Input) :
    reception (n + k) (silence k ++ input) = reception n input := by
  induction k with
  | zero => rfl
  | succ k ih => exact ih

/-- A silence that outlasts the retries. -/
theorem reception_timeout (n : Nat) (input : Input) :
    reception n (silence n ++ input) = some (.timeout, 0, input) := by
  have spent := reception_silence 0 n input
  rw [Nat.zero_add] at spent
  exact spent

/-- A block that arrives before the retries are spent is received. -/
theorem reception_block (b : Block) {n k : Nat} (h : k < n) (rest : Input) :
    reception n (silence k ++ (arriving b.wire ++ rest)) = some (.packet b.payload, 0, rest) := by
  obtain ⟨left, rfl⟩ := Nat.exists_eq_add_of_lt h
  rw [show k + left + 1 = left + 1 + k by omega, reception_silence]
  simp only [reception, readTurn_block]

theorem reception_eot {n : Nat} (h : 0 < n) (rest : Input) :
    reception n (some ymodemEot :: rest) = some (.eot, 0, rest) := by
  obtain ⟨m, rfl⟩ := Nat.exists_eq_succ_of_ne_zero (Nat.ne_of_gt h)
  rfl

/-- The decimal notation of a number, in ASCII. -/
def decimal (n : Nat) : List UInt8 := (Nat.toDigits 10 n).map fun c => .ofNat c.toNat

private theorem digit_byte {c : Char} (h : c.isDigit = true) :
    isDigit (.ofNat c.toNat) = true ∧ (UInt8.ofNat c.toNat).toNat = c.toNat ∧ 48 ≤ c.toNat := by
  have bounds : 48 ≤ c.toNat ∧ c.toNat ≤ 57 := by
    exact Char.isDigit_iff_toNat.mp h
  have small : (UInt8.ofNat c.toNat).toNat = c.toNat := by
    rw [UInt8.toNat_ofNat']
    omega
  refine ⟨?_, small, bounds.1⟩
  simp only [isDigit, UInt8.le_iff_toNat_le, small, Bool.and_eq_true, decide_eq_true_eq]
  exact bounds

private theorem ofDigitChars_ge (l : List Char) (init : Nat) :
    init ≤ Nat.ofDigitChars 10 l init := by
  rw [Nat.ofDigitChars_eq_ofDigitChars_zero]
  have scaled : init ≤ 10 ^ l.length * init :=
    Nat.le_mul_of_pos_left init (Nat.pow_pos (by decide))
  omega

theorem int32_small {n : Nat} (h : n < 2147483648) : int32 n = n := by
  exact Int.bmod_eq_of_le (by omega) (by omega)

private theorem digits_fold (l : List Char) (digits : ∀ c ∈ l, c.isDigit = true) (init : Nat)
    (fits : Nat.ofDigitChars 10 l init < 2147483648) :
    (l.map fun c => UInt8.ofNat c.toNat).foldl
      (fun (result : Int) c => int32 (result * 10 + (c.toNat - 48 : Int))) (init : Int) =
      (Nat.ofDigitChars 10 l init : Nat) := by
  induction l generalizing init with
  | nil => simp
  | cons c l ih =>
    obtain ⟨_, byte, low⟩ := digit_byte (digits c List.mem_cons_self)
    rw [Nat.ofDigitChars_cons] at fits ⊢
    have step : int32 ((init : Int) * 10 + ((UInt8.ofNat c.toNat).toNat - 48 : Int)) =
        ((10 * init + (c.toNat - '0'.toNat) : Nat) : Int) := by
      have bound := ofDigitChars_ge l (10 * init + (c.toNat - '0'.toNat))
      rw [byte, ← int32_small (Nat.lt_of_le_of_lt bound fits)]
      congr 1
      have zero : '0'.toNat = 48 := rfl
      omega
    rw [List.map_cons, List.foldl_cons, step]
    exact ih (fun d hd => digits d (List.mem_cons_of_mem _ hd)) _ fits

theorem digitsValue_decimal {n : Nat} (h : n < 2147483648) : digitsValue (decimal n) = n := by
  have fits : Nat.ofDigitChars 10 (Nat.toDigits 10 n) 0 < 2147483648 := by
    rwa [Nat.ofDigitChars_ten_toDigits]
  have read := digits_fold (Nat.toDigits 10 n)
    (fun c hc => Nat.isDigit_of_mem_toDigits (by decide) (by decide) hc) 0 fits
  rw [Nat.ofDigitChars_ten_toDigits] at read
  exact read

theorem decimal_digits {n : Nat} {c : UInt8} (h : c ∈ decimal n) : isDigit c = true := by
  obtain ⟨d, member, rfl⟩ := List.mem_map.mp h
  exact (digit_byte (Nat.isDigit_of_mem_toDigits (by decide) (by decide) member)).1

theorem decimal_ne_nil (n : Nat) : decimal n ≠ [] := by
  unfold decimal
  rw [ne_eq, List.map_eq_nil_iff]
  exact Nat.toDigits_ne_nil

theorem isDigit_bounds {c : UInt8} (h : isDigit c = true) : 48 ≤ c.toNat ∧ c.toNat ≤ 57 := by
  simpa [isDigit, UInt8.le_iff_toNat_le] using h

theorem ymodemStrtol_decimal {n : Nat} (h : n < 2147483648) :
    ymodemStrtol (decimal n) = .ok n := by
  have taken : (decimal n).takeWhile isDigit = decimal n :=
    List.takeWhile_eq_self_iff.mpr fun c hc => decimal_digits hc
  rcases digits : decimal n with _ | ⟨c, rest⟩
  · exact absurd digits (decimal_ne_nil n)
  · have bounds := isDigit_bounds (decimal_digits (n := n) (by rw [digits]; exact List.mem_cons_self))
    have other (b : UInt8) (hb : b.toNat < 48) : c ≠ b := by
      rintro rfl
      omega
    have blank : (c :: rest).dropWhile (fun c => c = 0x20 || c = 0x09) = c :: rest := by
      rw [List.dropWhile_cons, if_neg]
      simp [other 0x20 (by decide), other 0x09 (by decide)]
    rw [digits] at taken
    have value := digitsValue_decimal h
    rw [digits] at value
    unfold ymodemStrtol
    simp only [blank, List.head?_cons, Option.some.injEq, other 0x2D (by decide),
      other 0x2B (by decide), or_self, if_false, taken, reduceCtorEq, value, Int.mul_one,
      int32_small h]

theorem findIdx?_past {p : UInt8 → Bool} {pre : List UInt8} {c : UInt8}
    (rest : List UInt8) (h : ∀ x ∈ pre, p x = false) (hc : p c = true) :
    (pre ++ c :: rest).findIdx? p = some pre.length := by
  rw [List.findIdx?_append, List.findIdx?_eq_none_iff.mpr h, List.findIdx?_cons, if_pos hc]
  simp

theorem fnameLen_block0 {name : List UInt8} (size extra : List UInt8) (noNul : 0 ∉ name) :
    fnameLen (name ++ 0x00 :: (size ++ 0x20 :: extra)) = name.length + 1 := by
  have inside : ∀ x ∈ name, (x == 0x00) = false := by
    intro x hx
    rw [beq_eq_false_iff_ne]
    rintro rfl
    exact noNul hx
  rw [fnameLen, findIdx?_past _ inside rfl]

theorem announced_block0 {name extra : List UInt8} {n : Nat} (noNul : 0 ∉ name)
    (h : n < 2147483648) :
    announced (name ++ 0x00 :: (decimal n ++ 0x20 :: extra)) = .ok n := by
  have after : (name ++ 0x00 :: (decimal n ++ 0x20 :: extra)).drop (name.length + 1) =
      decimal n ++ 0x20 :: extra := by
    rw [List.append_cons]
    exact List.drop_left' (by simp)
  have digits : ∀ x ∈ decimal n, (x == 0x20) = false := fun x hx => by
    have bounds := isDigit_bounds (decimal_digits hx)
    simp only [beq_eq_false_iff_ne, ne_eq]
    rintro rfl
    simp at bounds
  rw [announced, fsizeLen, fnameLen_block0 (decimal n) extra noNul, after,
    findIdx?_past _ digits rfl, Option.getD_some, List.take_left', ymodemStrtol_decimal h]
  rfl

/-- What a conforming sender sends for a file: block 0 with name and size, the data blocks in
order, numbered from one, the last one padded, and an empty block at the end. -/
structure Session where
  name : List UInt8
  file : List UInt8
  extra : List UInt8
  header : Block
  blocks : List Block
  padding : List UInt8
  closing : Block
  name_ne_nil : name ≠ []
  noNul : 0 ∉ name
  file_ne_nil : file ≠ []
  file_fits : file.length < 2147483648
  header_number : header.number = 0
  header_payload : header.payload = name ++ 0x00 :: (decimal file.length ++ 0x20 :: extra)
  numbered : ∀ i (h : i < blocks.length), blocks[i].number = .ofNat (i + 1)
  content : blocks.flatMap Block.payload = file ++ padding
  padded : ∀ b ∈ blocks.getLast?, padding.length < b.payload.length
  closing_number : closing.number = 0
  closing_empty : closing.payload = List.replicate closing.format.size 0

private theorem flatMap_drop_take {α : Type} (k n : Nat) (l : List α) :
    ((List.range n).flatMap fun i => (l.drop (k * i)).take k) = l.take (k * n) := by
  induction n with
  | zero => exact List.take_zero.symm
  | succ n ih =>
    rw [List.range_succ, List.flatMap_append, ih, List.flatMap_singleton, Nat.mul_succ, List.take_add]

/-- How many blocks of 1024 bytes a file takes, and what fills up the last one. -/
def blockCount (file : List UInt8) : Nat := (file.length + 1023) / 1024

def filling (file : List UInt8) : List UInt8 :=
  List.replicate (1024 * blockCount file - file.length) 0x1A

theorem length_filled (file : List UInt8) :
    (file ++ filling file).length = 1024 * blockCount file := by
  rw [List.length_append, filling, List.length_replicate, blockCount]
  omega

/-- Block `i + 1` of the file. -/
def blockAt (file : List UInt8) (i : Fin (blockCount file)) : Block where
  number := .ofNat (i + 1)
  format := .stx
  payload := ((file ++ filling file).drop (1024 * i)).take 1024
  sized := by
    have bound := i.isLt
    rw [List.length_take, List.length_drop, length_filled, Format.size]
    omega

/-- The session that sends a file in blocks of 1024 bytes. -/
def inBlocks (file : List UInt8) (nonempty : file ≠ []) (fits : file.length < 2147483648) :
    Session where
  name := [0x61]
  file := file
  extra := List.replicate (125 - (decimal file.length).length) 0x00
  header :=
    { number := 0
      format := .soh
      payload := 0x61 :: 0x00 :: (decimal file.length ++ 0x20 ::
        List.replicate (125 - (decimal file.length).length) 0x00)
      sized := by
        have digits : (decimal file.length).length ≤ 10 := by
          rw [decimal, List.length_map, Nat.length_toDigits_le_iff (by decide) (by decide)]
          omega
        simp only [List.length_cons, List.length_append, List.length_replicate, Format.size]
        omega }
  blocks := List.ofFn (blockAt file)
  padding := filling file
  closing := { number := 0, format := .soh, payload := List.replicate 128 0, sized := rfl }
  name_ne_nil := by simp
  noNul := by decide
  file_ne_nil := nonempty
  file_fits := fits
  header_number := rfl
  header_payload := rfl
  numbered := by
    intro i h
    rw [List.getElem_ofFn]
    rfl
  content := by
    have pieces : (List.ofFn (blockAt file)).map Block.payload =
        (List.range (blockCount file)).map fun i =>
          ((file ++ filling file).drop (1024 * i)).take 1024 := by
      refine List.ext_getElem (by simp) fun i h h' => ?_
      rw [List.getElem_map, List.getElem_map, List.getElem_ofFn, List.getElem_range]
      rfl
    rw [List.flatMap_def, pieces, ← List.flatMap_def, flatMap_drop_take, ← length_filled,
      List.take_length]
  padded := by
    intro b hb
    obtain ⟨i, rfl⟩ := List.mem_ofFn.mp (List.mem_of_getLast? hb)
    have size : (blockAt file i).payload.length = 1024 := (blockAt file i).sized
    rw [size, filling, List.length_replicate, blockCount]
    omega
  closing_number := rfl
  closing_empty := rfl

theorem length_inBlocks {file : List UInt8} (nonempty : file ≠ [])
    (fits : file.length < 2147483648) :
    (inBlocks file nonempty fits).blocks.length = blockCount file := List.length_ofFn

/-- One byte in one block. -/
def oneByte : Session := inBlocks [0x5A] (by decide) (by decide)

end T113Boot.Ymodem.Sender
