/- Module: T113Boot/Shell/PartitionRead
   layer: model
   digest: The shell command that prints a partition, and the bytes it prints. -/

import T113Boot.Ota.Access
import T113Boot.Shell.XString

set_option autoImplicit false
set_option relaxedAutoImplicit false

namespace T113Boot.Shell.PartitionRead

open T113Boot.Lib.Cells
open T113Boot.Lib.Stoppable
open Prog
open T113Boot.Nand.Chip (totalSize totalSize_eq)
open T113Boot.Nand.Port (clear_window)
open T113Boot.Storage.Table
open T113Boot.Ota.Board
open T113Boot.Ota.Firmware (objectPtr)
open T113Boot.Ota.Access
open T113Boot.Shell.XString

/-- An argument of `s_printf`. -/
inductive Arg where
  | byte (b : UInt8)
  | num (n : UInt32)
  | str (s : CStr)
deriving DecidableEq

/-- What is printed: by one `s_printf`, or by `show_partition_info`. -/
inductive Shown where
  | printf (fmt : CStr) (args : List Arg)
  | partitionInfo
deriving DecidableEq

/-- The board, and what was printed so far. -/
structure Screen where
  world : World
  shown : List Shown

abbrev ScreenM := Prog Screen

def put (line : Shown) : ScreenM Unit := modify fun s => { s with shown := s.shown ++ [line] }

def sPrintf (fmt : String) (args : List Arg) : ScreenM Unit := put (.printf (cstr fmt) args)

def onBoard {α : Type} (x : Prog World α) : ScreenM α := fun s =>
  ((x s.world).1, { s with world := (x s.world).2 })

/-- `buf`, on the stack. -/
def bufSize : UInt32 := 16

/-- Two hexadecimal digits and a blank. -/
def printValue (b : UInt8) : ScreenM Unit := sPrintf "%02x " [.byte b]

/-- The loop over the values of a row. -/
def printValues : List UInt8 → ScreenM Unit
  | [] => pure ()
  | b :: bs => printValue b >>= fun _ => printValues bs

def readFailed (name : CStr) (offset : UInt32) : ScreenM Int :=
  sPrintf "read patition %s offset %d err.\r\n" [.str name, .num offset] >>= fun _ => pure (-1)

/-- The row loop of `partiton_func`. Every turn takes of `len`, so that a fuel above it lasts. -/
def readRows (reg : Registry World) (name : CStr) : Nat → UInt32 → UInt32 → ScreenM Int
  | 0, _, _ => pure (-1)
  | fuel + 1, offset, len =>
    if len = 0 then pure 0
    else if len ≥ bufSize then do
      let answer ← onBoard (partitionRead reg (some name) objectPtr offset bufSize)
      if answer.1 ≠ 0 then readFailed name offset
      else do
        printValues (answer.2.take bufSize.toNat)
        sPrintf "\r\n" []
        readRows reg name fuel (offset + bufSize) (len - bufSize)
    else do
      let answer ← onBoard (partitionRead reg (some name) objectPtr offset len)
      if answer.1 ≠ 0 then readFailed name offset
      else do
        -- `len` is cleared before it bounds the loop over the values
        let len : UInt32 := 0
        printValues (answer.2.take len.toNat)
        sPrintf "\r\n" []
        readRows reg name fuel offset len

/-- One numeric argument; a text that is no number leaves the variable as it was. -/
def numberArg (invalid : String) (arg : CStr) (stale : UInt32) : ScreenM UInt32 :=
  match xstrtol arg with
  | .ok n => pure n
  | .error _ => sPrintf invalid [.str arg] >>= fun _ => pure stale

def showHelp : ScreenM Unit := do
  sPrintf "Usage: \r\n" []
  sPrintf " show help info     - help \r\n" []
  sPrintf " read partiton data - read <partition name> <offset> <len>\r\n" []

def showUsage : ScreenM Unit := do
  sPrintf "Usage : \r\n" []
  sPrintf "partition read <partition name> <offset> <len>\r\n" []

/-- `partiton_func`; `stale` is what the variables `offset` and `len` hold at first. -/
def partitonFunc (reg : Registry World) (stale : UInt32 × UInt32) (argv : List CStr) : ScreenM Int :=
  if argv.length < 2 then put .partitionInfo >>= fun _ => pure 0
  else
    let option := argv.getD 1 []
    (if xstrncmp option (cstr "help") 5 = 0 then showHelp else pure ()) >>= fun _ =>
      if xstrncmp option (cstr "read") 5 = 0 then
        if argv.length < 5 then showUsage >>= fun _ => pure 0
        else do
          let offset ← numberArg "Invalid offset: %s\r\n" (argv.getD 3 []) stale.1
          let len ← numberArg "Invalid len: %s\r\n" (argv.getD 4 []) stale.2
          readRows reg (argv.getD 2 []) (len.toNat + 1) offset len
      else pure 0

/-- The byte that a line is the value of. -/
def valueOf : Shown → Option UInt8
  | .printf fmt [.byte b] => if fmt = cstr "%02x " then some b else none
  | _ => none

/-- The bytes printed. -/
def values (shown : List Shown) : List UInt8 := shown.filterMap valueOf

theorem values_append (t u : List Shown) : values (t ++ u) = values t ++ values u :=
  List.filterMap_append

/-- What the rows are made of: values, and the ends of the rows. -/
def InRows (line : Shown) : Prop :=
  (∃ b, line = .printf (cstr "%02x ") [.byte b]) ∨ line = .printf (cstr "\r\n") []

/-- A name that finds a partition of the NAND device, inside the device. -/
structure Registered (reg : Registry World) (name : CStr) (part : Partition) : Prop where
  found : partitionFind reg name = some part
  device : (reg.opsOf part).bind (·.read) = some deviceRead
  inside : part.start.toNat + part.size.toNat ≤ totalSize

theorem printValues_run (bs : List UInt8) (s : Screen) : ∃ t,
    printValues bs s = (some (), { s with shown := s.shown ++ t }) ∧ values t = bs ∧
      ∀ line ∈ t, InRows line := by
  induction bs generalizing s with
  | nil => exact ⟨[], by rw [List.append_nil]; rfl, rfl, List.forall_mem_nil _⟩
  | cons b bs ih =>
    have first : printValue b s =
        (some (), { s with shown := s.shown ++ [.printf (cstr "%02x ") [.byte b]] }) := rfl
    obtain ⟨t, run, rest, rows⟩ :=
      ih { s with shown := s.shown ++ [.printf (cstr "%02x ") [.byte b]] }
    refine ⟨.printf (cstr "%02x ") [.byte b] :: t, ?_, ?_,
      List.forall_mem_cons.mpr ⟨.inl ⟨b, rfl⟩, rows⟩⟩
    · rw [printValues, bind_of_some first, run, List.append_assoc, List.singleton_append]
    · have known : valueOf (.printf (cstr "%02x ") [.byte b]) = some b := by
        rw [valueOf, if_pos rfl]
      rw [values, List.filterMap_cons_some known]
      exact congrArg (b :: ·) rest

variable {reg : Registry World} {name : CStr} {part : Partition}

theorem onBoard_read (registered : Registered reg name part) {offset len : UInt32} {s : Screen}
    (healthy : s.world.faults = []) (inside : offset.toNat + len.toNat ≤ part.size.toNat) :
    onBoard (partitionRead reg (some name) objectPtr offset len) s =
      (some (0, slice s.world.flash (part.start.toNat + offset.toNat) len.toNat), s) := by
  have total := totalSize_eq
  have device := registered.inside
  have fits : ¬ offset + len > part.size := by
    rw [gt_iff_lt, UInt32.lt_iff_toNat_lt, UInt32.toNat_add]
    omega
  have addr : (part.start + offset).toNat = part.start.toNat + offset.toNat := by
    rw [UInt32.toNat_add]
    omega
  have read := deviceRead_inside (part.start + offset) objectPtr len s.world (by omega)
    (clear_window objectPtr_ne (objectPtr_window (by omega)))
  have same : { s.world with faults := s.world.faults.tail } = s.world := by
    rw [healthy, List.tail_nil, ← healthy]
  have answer : readAnswer s.world (part.start + offset).toNat len.toNat =
      (0, slice s.world.flash (part.start.toNat + offset.toNat) len.toNat) := by
    rw [readAnswer, healthy, addr]
    rfl
  simp only [onBoard, partitionRead, if_neg objectPtr_ne, registered.found, if_neg fits,
    registered.device, read, same, answer]

private theorem newline_run (s : Screen) : sPrintf "\r\n" [] s =
    (some (), { s with shown := s.shown ++ [.printf (cstr "\r\n") []] }) := rfl

/-- The rows show every full row of bytes, and of a shorter one only its end. -/
theorem readRows_run (registered : Registered reg name part) (fuel : Nat) (offset len : UInt32)
    (s : Screen) (fueled : len.toNat < fuel) (healthy : s.world.faults = [])
    (inside : offset.toNat + len.toNat ≤ part.size.toNat) : ∃ t,
    readRows reg name fuel offset len s = (some 0, { s with shown := s.shown ++ t }) ∧
    values t = slice s.world.flash (part.start.toNat + offset.toNat) (len.toNat / 16 * 16) ∧
    ∀ line ∈ t, InRows line := by
  induction fuel generalizing offset len s with
  | zero => omega
  | succ fuel ih =>
    rw [readRows]
    by_cases done : len = 0
    · rw [if_pos done, done]
      exact ⟨[], by rw [List.append_nil]; rfl, rfl, List.forall_mem_nil _⟩
    · rw [if_neg done]
      have some : len.toNat ≠ 0 := fun zero => done (UInt32.toNat_inj.mp zero)
      have size := part.size.toNat_lt
      have row : bufSize.toNat = 16 := rfl
      by_cases full : len ≥ bufSize
      · have whole : 16 ≤ len.toNat := UInt32.le_iff_toNat_le.mp full
        have ahead : (offset + bufSize).toNat = offset.toNat + 16 := by
          rw [UInt32.toNat_add, row]
          omega
        have left : (len - bufSize).toNat = len.toNat - 16 := UInt32.toNat_sub_of_le _ _ full
        rw [if_pos full, bind_of_some (onBoard_read registered healthy (by omega))]
        rw [if_neg fun bad => bad rfl, row, List.take_of_length_le (Nat.le_of_eq (length_slice _ _ _))]
        obtain ⟨t, shown, bytes, rows⟩ := printValues_run
          (slice s.world.flash (part.start.toNat + offset.toNat) 16) s
        rw [bind_of_some shown, bind_of_some (newline_run _)]
        obtain ⟨t', run, bytes', rows'⟩ := ih (offset + bufSize) (len - bufSize)
          { s with shown := s.shown ++ t ++ [.printf (cstr "\r\n") []] } (by omega) healthy (by omega)
        refine ⟨t ++ [.printf (cstr "\r\n") []] ++ t', ?_, ?_, ?_⟩
        · rw [run, List.append_assoc, List.append_assoc, List.append_assoc]
        · have blank : values [.printf (cstr "\r\n") []] = [] := rfl
          rw [values_append, values_append, bytes, bytes', ahead, left, blank, List.append_nil,
            show len.toNat / 16 * 16 = 16 + (len.toNat - 16) / 16 * 16 by omega, slice_add,
            Nat.add_assoc]
        · exact List.forall_mem_append.mpr ⟨List.forall_mem_append.mpr
            ⟨rows, List.forall_mem_singleton.mpr (.inr rfl)⟩, rows'⟩
      · have short : len.toNat < 16 := by
          rw [ge_iff_le, UInt32.le_iff_toNat_le, row] at full
          omega
        obtain ⟨fuel, rfl⟩ := Nat.exists_eq_succ_of_ne_zero (show fuel ≠ 0 by omega)
        refine ⟨[.printf (cstr "\r\n") []], ?_, ?_, List.forall_mem_singleton.mpr (.inr rfl)⟩
        · rw [if_neg full, bind_of_some (onBoard_read registered healthy (by omega))]
          rfl
        · rw [Nat.div_eq_of_lt short, Nat.zero_mul, slice_zero]
          rfl

variable {a b : CStr} {offset len : UInt32} {s : Screen}

theorem partitonFunc_reads (first : xstrtol a = .ok offset) (second : xstrtol b = .ok len)
    {cmd : CStr} {stale : UInt32 × UInt32} :
    partitonFunc reg stale [cmd, cstr "read", name, a, b] s =
      readRows reg name (len.toNat + 1) offset len s := by
  have help : ¬ xstrncmp (cstr "read") (cstr "help") 5 = 0 := by decide
  have read : xstrncmp (cstr "read") (cstr "read") 5 = 0 := by decide
  unfold partitonFunc
  simp only [List.length_cons, List.length_nil, List.getD_cons_succ, List.getD_cons_zero]
  rw [if_neg (by omega), if_neg help, if_pos read, if_neg (by omega), numberArg, numberArg, first,
    second]
  rfl

/-- The command `partition read <name> <offset> <len>` prints all bytes exactly where they are
full rows. -/
theorem partitonFunc_prints_iff (registered : Registered reg name part)
    (healthy : s.world.faults = []) (first : xstrtol a = .ok offset) (second : xstrtol b = .ok len)
    (inside : offset.toNat + len.toNat ≤ part.size.toNat) (cmd : CStr) (stale : UInt32 × UInt32) :
    ∃ t, partitonFunc reg stale [cmd, cstr "read", name, a, b] s =
        (some 0, { s with shown := s.shown ++ t }) ∧
      (values t = slice s.world.flash (part.start.toNat + offset.toNat) len.toNat ↔
        len.toNat % 16 = 0) := by
  obtain ⟨t, run, bytes, -⟩ := readRows_run registered (len.toNat + 1) offset len s
    (Nat.lt_succ_self _) healthy inside
  refine ⟨t, ?_, ?_⟩
  · rw [partitonFunc_reads first second, run]
  · rw [bytes]
    constructor
    · intro all
      have count := congrArg List.length all
      rw [length_slice, length_slice] at count
      omega
    · intro full
      rw [show len.toNat / 16 * 16 = len.toNat by omega]

theorem registered_param : Registered registry paraPart param.entry where
  found := param.found
  device := by rw [opsOf_entry param]; rfl
  inside := by decide

/-- A board without faults. -/
def calmScreen : Screen where
  world := { flash := fun x => .ofNat x, ram := fun _ => 0, port := true, input := []
             frame := ⟨0, [], 0⟩, faults := [], power := none, trace := [], calls := [] }
  shown := []

/-- Two full rows. -/
theorem partitonFunc_prints_rows : ∃ t, partitonFunc registry (0, 0)
      [cstr "partition", cstr "read", paraPart, cstr "0x10", cstr "32"] calmScreen =
        (some 0, { calmScreen with shown := calmScreen.shown ++ t }) ∧
      values t = slice calmScreen.world.flash (5242880 + 16) 32 := by
  have first : xstrtol (cstr "0x10") = .ok 16 := rfl
  have second : xstrtol (cstr "32") = .ok 32 := rfl
  obtain ⟨t, run, printed⟩ := partitonFunc_prints_iff registered_param (s := calmScreen) rfl
    first second (by decide) (cstr "partition") (0, 0)
  exact ⟨t, run, printed.mpr rfl⟩

/-- Of five bytes none is printed. -/
theorem partitonFunc_prints_none : ∃ t, partitonFunc registry (0, 0)
      [cstr "partition", cstr "read", paraPart, cstr "0", cstr "5"] calmScreen =
        (some 0, { calmScreen with shown := calmScreen.shown ++ t }) ∧
      values t = [] ∧ slice calmScreen.world.flash 5242880 5 = [0, 1, 2, 3, 4] := by
  obtain ⟨t, run, bytes, -⟩ := readRows_run registered_param 6 0 5 calmScreen (by decide) rfl (by decide)
  refine ⟨t, ?_, bytes, by decide⟩
  have first : xstrtol (cstr "0") = .ok 0 := rfl
  have second : xstrtol (cstr "5") = .ok 5 := rfl
  rw [partitonFunc_reads first second]
  exact run

end T113Boot.Shell.PartitionRead
