/- Module: T113Boot/Shell/PrintedRows
   layer: results
   digest: The characters of a printed partition, and the bytes that they spell. -/

import T113Boot.Shell.PartitionRead
import T113Boot.Shell.Printing

set_option autoImplicit false
set_option relaxedAutoImplicit false

namespace T113Boot.Shell.PrintedRows

open T113Boot.Lib.Cells
open T113Boot.Storage.Table
open T113Boot.Ota.Board
open T113Boot.Shell.XString
open T113Boot.Shell.XFormat
open T113Boot.Shell.Formats (Item printItems)
open T113Boot.Shell.Printing (xvformat_prints)
open T113Boot.Shell.PartitionRead

/-- The word that is passed for an argument; a string is passed as its place. -/
def word (place : CStr → UInt32) : Arg → UInt32
  | .byte b => b.toUInt32
  | .num n => n
  | .str s => place s

/-- The characters of one `s_printf`; the table of `show_partition_info` is not among them. -/
def characters (text : UInt32 → CStr) (place : CStr → UInt32) (p : Param) : Shown → Option CStr
  | .printf fmt args => (xvformat text p fmt (args.map (word place))).map Prod.fst
  | .partitionInfo => none

/-- What is on the screen behind some lines. -/
def onScreen (text : UInt32 → CStr) (place : CStr → UInt32) (p : Param) : List Shown → Option CStr
  | [] => some []
  | line :: lines => (characters text place p line).bind fun cs =>
    (onScreen text place p lines).map fun rest => cs ++ rest

/-- The bytes that a reader makes of the screen: two digits and a blank are a byte, and the ends of
the rows are passed over. -/
def readScreen : CStr → List UInt8
  | hi :: lo :: rest =>
    if hi = 0x0D then readScreen rest
    else
      match rest with
      | [] => []
      | _ :: rest => .ofNat (16 * (digitOf hi).getD 0 + (digitOf lo).getD 0) :: readScreen rest
  | _ => []

theorem readScreen_newline (cs : CStr) : readScreen (0x0D :: 0x0A :: cs) = readScreen cs := by
  rcases cs with _ | ⟨c, cs⟩
  · rw [readScreen, if_pos rfl]
  · rw [readScreen, if_pos rfl]

section Lines

variable {text : UInt32 → CStr} (short : ∀ w, (text w).length < 2147483648)
  (place : CStr → UInt32) (p : Param)
include short

theorem value_characters (b : UInt8) : ∃ hi lo : UInt8, hi ≠ 0x0D ∧
    characters text place p (.printf (cstr "%02x ") [.byte b]) = some [hi, lo, 0x20] ∧
    UInt8.ofNat (16 * (digitOf hi).getD 0 + (digitOf lo).getD 0) = b := by
  have items : cstr "%02x " = [Item.field ⟨[.zero], .digits [2], by decide, none, [], .integer .x⟩,
    .char 0x20 (by decide)].flatMap Item.show := rfl
  have pairs : ∀ b : Fin 256, msDigits.getD (b.val / 16) 0 ≠ 0x0D ∧
      printItems (fun _ => []) [.field ⟨[.zero], .digits [2], by decide, none, [], .integer .x⟩,
        .char 0x20 (by decide)] [(UInt8.ofNat b.val).toUInt32] =
          some [msDigits.getD (b.val / 16) 0, msDigits.getD (b.val % 16) 0, 0x20] ∧
      UInt8.ofNat (16 * (digitOf (msDigits.getD (b.val / 16) 0)).getD 0 +
        (digitOf (msDigits.getD (b.val % 16) 0)).getD 0) = .ofNat b.val := by
    decide +kernel
  obtain ⟨other, printed, value⟩ := pairs ⟨b.toNat, b.toNat_lt⟩
  rw [UInt8.ofNat_toNat] at printed value
  refine ⟨_, _, other, ?_, value⟩
  -- no string is printed, so that it does not matter where strings lie
  have same : printItems text [.field ⟨[.zero], .digits [2], by decide, none, [], .integer .x⟩,
      .char 0x20 (by decide)] [b.toUInt32] = _ := printed
  rw [characters, items, xvformat_prints short, List.map_singleton, word, same]
  rfl

theorem newline_characters : characters text place p (.printf (cstr "\r\n") []) =
    some [0x0D, 0x0A] := by
  have items : cstr "\r\n" = [Item.char 0x0D (by decide), .char 0x0A (by decide)].flatMap
    Item.show := rfl
  rw [characters, items, xvformat_prints short]
  rfl

theorem onScreen_rows {t : List Shown} (rows : ∀ line ∈ t, InRows line) :
    ∃ cs, onScreen text place p t = some cs ∧ readScreen cs = values t := by
  induction t with
  | nil => exact ⟨[], rfl, rfl⟩
  | cons line t ih =>
    obtain ⟨here, later⟩ := List.forall_mem_cons.mp rows
    obtain ⟨cs, sent, read⟩ := ih later
    rcases here with ⟨b, rfl⟩ | rfl
    · obtain ⟨hi, lo, other, value, is⟩ := value_characters short place p b
      refine ⟨hi :: lo :: 0x20 :: cs, ?_, ?_⟩
      · rw [onScreen, value, Option.bind_some, sent]
        rfl
      · have known : valueOf (.printf (cstr "%02x ") [.byte b]) = some b := by
          rw [valueOf, if_pos rfl]
        rw [readScreen, if_neg other, is, read, values, values, List.filterMap_cons_some known]
    · refine ⟨0x0D :: 0x0A :: cs, ?_, ?_⟩
      · rw [onScreen, newline_characters short, Option.bind_some, sent]
        rfl
      · rw [readScreen_newline, read]
        rfl

end Lines

/-- What `partition read` leaves on the screen spells the full rows of what it has read. -/
theorem partitonFunc_screen {text : UInt32 → CStr} (short : ∀ w, (text w).length < 2147483648)
    (place : CStr → UInt32) (p : Param) {reg : Registry World} {name : CStr} {part : Partition}
    (registered : Registered reg name part) {s : Screen} (healthy : s.world.faults = [])
    {a b : CStr} {offset len : UInt32} (first : xstrtol a = .ok offset)
    (second : xstrtol b = .ok len) (inside : offset.toNat + len.toNat ≤ part.size.toNat)
    (cmd : CStr) (stale : UInt32 × UInt32) : ∃ t cs,
      partitonFunc reg stale [cmd, cstr "read", name, a, b] s =
        (some 0, { s with shown := s.shown ++ t }) ∧
      onScreen text place p t = some cs ∧ readScreen cs =
        slice s.world.flash (part.start.toNat + offset.toNat) (len.toNat / 16 * 16) := by
  obtain ⟨t, run, bytes, rows⟩ := readRows_run registered (len.toNat + 1) offset len s
    (Nat.lt_succ_self _) healthy inside
  obtain ⟨cs, sent, read⟩ := onScreen_rows short place p rows
  exact ⟨t, cs, (partitonFunc_reads first second).trans run, sent, read.trans bytes⟩

end T113Boot.Shell.PrintedRows
