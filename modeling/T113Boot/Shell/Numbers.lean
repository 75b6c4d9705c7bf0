/- Module: T113Boot/Shell/Numbers
   layer: specification
   digest: The strings that the two number parsers take, and what they make of them. -/

import T113Boot.Shell.XString
import T113Boot.Ymodem.Header

set_option autoImplicit false
set_option relaxedAutoImplicit false

namespace T113Boot.Shell.Numbers

open T113Boot.Storage.Table (CStr cstr)
open T113Boot.Shell.XString
open T113Boot.Ymodem.Receive (isDigit int32 digitsValue ymodemStrtol)
open T113Boot.Ymodem.Header (Numeral decimalValue signed blank_iff blanks_end digits_end
  numeral_head sign_read numeral_of_ok)
open T113Boot.Ymodem.Sender (isDigit_bounds)

/-- A digit of a base. -/
def digitBelow (base : Nat) (c : UInt8) : Bool := (digitOf c).any (· < base)

/-- The number that digits stand for. -/
def valueIn (base : Nat) (digits : CStr) : Nat :=
  digits.foldl (fun value c => value * base + (digitOf c).getD 0) 0

/-- Decimal digits stand alone, hexadecimal ones behind `0x` or `0X`. -/
def Body (body : CStr) (base : Nat) (digits : CStr) : Prop :=
  base = 10 ∧ body = digits ∨
    base = 16 ∧ ∃ x, (x = 0x78 ∨ x = 0x58) ∧ body = 0x30 :: x :: digits

/-- Blanks and tabs, at most one sign, and digits, possibly none. -/
def Reads (str sign : CStr) (base : Nat) (digits : CStr) : Prop := ∃ blanks body,
  str = blanks ++ (sign ++ body) ∧ (∀ c ∈ blanks, c = 0x20 ∨ c = 0x09) ∧
  (sign = [] ∨ sign = [0x2D] ∨ sign = [0x2B]) ∧ Body body base digits ∧
  ∀ c ∈ digits, digitBelow base c = true

/-- A string that is a number: there is at least one digit. -/
def IsNumber (str : CStr) (value : Int) : Prop := ∃ sign base digits,
  Reads str sign base digits ∧ digits ≠ [] ∧ value = signed sign (valueIn base digits)

/-- Everything of a number but its digits. -/
def Digitless (str : CStr) : Prop := ∃ sign base, Reads str sign base []

/-- A number is stored modulo 2^32, and anything else refused. -/
def Exact (str : CStr) : Prop :=
  (∀ value, IsNumber str value → xstrtol str = .ok (.ofInt value)) ∧
    ((¬ ∃ value, IsNumber str value) → ∃ err, xstrtol str = .error err ∧ err ≠ 0)

def signOf (str : CStr) : CStr :=
  if str.head? = some 0x2D then [0x2D] else if str.head? = some 0x2B then [0x2B] else []

def behindSign (str : CStr) : CStr :=
  if str.head? = some 0x2D ∨ str.head? = some 0x2B then str.tail else str

def isHex (number : CStr) : Bool := number.head? = some 0x30 ∧
  (number.tail.head? = some 0x78 ∨ number.tail.head? = some 0x58)

/-- The sign, the base and the digits. -/
def cut (str : CStr) : CStr × Nat × CStr :=
  let blank := str.dropWhile fun c => c = 0x20 || c = 0x09
  let number := behindSign blank
  if isHex number then (signOf blank, 16, number.drop 2) else (signOf blank, 10, number)

private theorem digitBelow_iff (base : Nat) (c : UInt8) :
    digitBelow base c = true ↔ ∃ digit, digitOf c = some digit ∧ digit < base := by
  rw [digitBelow, Option.any_eq_true]
  simp only [decide_eq_true_eq]

private theorem ofInt_natCast (n : Nat) : UInt32.ofInt (n : Int) = .ofNat n := by
  apply UInt32.toNat_inj.mp
  rw [UInt32.ofInt, UInt32.toNat_ofNat', UInt32.toNat_ofNat']
  omega

private theorem digits_ok (base : Nat) {digits : CStr}
    (all : ∀ c ∈ digits, digitBelow base c = true) (init : Nat) :
    xstrtolDigits base (.ofInt init) digits =
      .ok (.ofInt
        (digits.foldl (fun value c => value * base + (digitOf c).getD 0) init : Nat)) := by
  induction digits generalizing init with
  | nil => rfl
  | cons c digits ih =>
    obtain ⟨first, rest⟩ := List.forall_mem_cons.mp all
    obtain ⟨digit, known, below⟩ := (digitBelow_iff base c).mp first
    have step : UInt32.ofInt init * .ofNat base + .ofNat digit =
        .ofInt ((init * base + digit : Nat) : Int) := by
      rw [Int.natCast_add, Int.natCast_mul, UInt32.ofInt_add, UInt32.ofInt_mul, ofInt_natCast base,
        ofInt_natCast digit]
    rw [xstrtolDigits, known, List.foldl_cons, known, Option.getD_some]
    dsimp only
    rw [if_neg (Nat.not_le.mpr below), step]
    exact ih rest _

private theorem digits_error (base : Nat) {digits : CStr}
    (bad : ¬ ∀ c ∈ digits, digitBelow base c = true) (init : UInt32) :
    ∃ err, xstrtolDigits base init digits = .error err ∧ err ≠ 0 := by
  induction digits generalizing init with
  | nil => exact absurd (List.forall_mem_nil _) bad
  | cons c digits ih =>
    rcases known : digitOf c with _ | digit
    · exact ⟨-2, by rw [xstrtolDigits, known], by decide⟩
    · by_cases below : digit < base
      · have first : digitBelow base c = true := (digitBelow_iff base c).mpr ⟨digit, known, below⟩
        have rest : ¬ ∀ c ∈ digits, digitBelow base c = true := fun all =>
          bad (List.forall_mem_cons.mpr ⟨first, all⟩)
        obtain ⟨err, fails, nonzero⟩ := ih rest (init * .ofNat base + .ofNat digit)
        refine ⟨err, ?_, nonzero⟩
        rw [xstrtolDigits, known]
        dsimp only
        rw [if_neg (Nat.not_le.mpr below), fails]
      · refine ⟨-3, ?_, by decide⟩
        rw [xstrtolDigits, known]
        exact if_pos (Nat.not_lt.mp below)

private theorem xstrtol_cut (str : CStr) : xstrtol str =
    (xstrtolDigits (cut str).2.1 0 (cut str).2.2).map fun n =>
      if (cut str).1 = [0x2D] then 0 - n else n := by
  unfold xstrtol cut
  dsimp only
  generalize str.dropWhile (fun c => c = 0x20 || c = 0x09) = blank
  have minus : (decide (blank.head? = some 0x2D) = true) ↔ signOf blank = [0x2D] := by
    unfold signOf
    by_cases minus : blank.head? = some 0x2D
    · simp [minus]
    · by_cases plus : blank.head? = some 0x2B <;> simp [minus, plus]
  have number : (if (decide (blank.head? = some 0x2D) = true) ∨ blank.head? = some 0x2B
      then blank.tail else blank) = behindSign blank := by
    unfold behindSign
    simp only [decide_eq_true_eq]
  rw [number]
  simp only [minus]
  by_cases hex : isHex (behindSign blank) = true
  · rw [if_pos hex]
    exact congrArg (Except.map _) (if_pos hex)
  · rw [if_neg hex]
    exact congrArg (Except.map _) (if_neg hex)

private theorem sign_parts (str : CStr) : str = signOf str ++ behindSign str ∧
    (signOf str = [] ∨ signOf str = [0x2D] ∨ signOf str = [0x2B]) := by
  unfold signOf behindSign
  rcases str with _ | ⟨c, rest⟩
  · exact ⟨rfl, .inl rfl⟩
  · simp only [List.head?_cons, Option.some_inj, List.tail_cons]
    by_cases minus : c = 0x2D
    · simp [minus]
    · by_cases plus : c = 0x2B
      · simp [plus]
      · simp [minus, plus]

private theorem sign_of_append {sign body : CStr}
    (form : sign = [] ∨ sign = [0x2D] ∨ sign = [0x2B])
    (head : ∀ c ∈ body.head?, c ≠ 0x2D ∧ c ≠ 0x2B) :
    signOf (sign ++ body) = sign ∧ behindSign (sign ++ body) = body := by
  rcases form with rfl | rfl | rfl
  · rcases body with _ | ⟨c, body⟩
    · exact ⟨rfl, rfl⟩
    · obtain ⟨minus, plus⟩ := head c rfl
      simp [signOf, behindSign, minus, plus]
  · exact ⟨rfl, rfl⟩
  · exact ⟨rfl, rfl⟩

private theorem isHex_iff (number : CStr) : isHex number = true ↔
    ∃ x, (x = 0x78 ∨ x = 0x58) ∧ number = 0x30 :: x :: number.drop 2 := by
  unfold isHex
  rw [decide_eq_true_eq]
  rcases number with _ | ⟨zero, _ | ⟨x, rest⟩⟩
  · simp
  · simp
  · simp only [List.head?_cons, Option.some_inj, List.tail_cons, List.drop_succ_cons,
      List.drop_zero, List.cons.injEq, and_true]
    constructor
    · rintro ⟨hzero, hx⟩
      exact ⟨x, hx, hzero, rfl⟩
    · rintro ⟨_, hx, hzero, rfl⟩
      exact ⟨hzero, hx⟩

private theorem digitBelow_other {base : Nat} {c : UInt8} (digit : digitBelow base c = true) :
    c ≠ 0x20 ∧ c ≠ 0x09 ∧ c ≠ 0x2D ∧ c ≠ 0x2B ∧ c ≠ 0x78 ∧ c ≠ 0x58 := by
  refine ⟨?_, ?_, ?_, ?_, ?_, ?_⟩
  all_goals
    rintro rfl
    obtain ⟨_, known, -⟩ := (digitBelow_iff base _).mp digit
    change none = some _ at known
    cases known

private theorem body_head {body digits : CStr} {base : Nat} (parts : Body body base digits)
    (all : ∀ c ∈ digits, digitBelow base c = true) :
    ∀ c ∈ body.head?, (c ≠ 0x20 ∧ c ≠ 0x09) ∧ c ≠ 0x2D ∧ c ≠ 0x2B := by
  intro c first
  rcases parts with ⟨-, rfl⟩ | ⟨-, x, -, rfl⟩
  · obtain ⟨blank, tab, minus, plus, -⟩ := digitBelow_other (all c (List.mem_of_head? first))
    exact ⟨⟨blank, tab⟩, minus, plus⟩
  · cases first
    decide

private theorem reads_iff (str sign : CStr) (base : Nat) (digits : CStr) :
    Reads str sign base digits ↔ cut str = (sign, base, digits) ∧
      ∀ c ∈ digits, digitBelow base c = true := by
  constructor
  · rintro ⟨blanks, body, rfl, blank, form, parts, all⟩
    refine ⟨?_, all⟩
    have head := body_head parts all
    have behind : ∀ c ∈ (sign ++ body).head?, c ≠ 0x20 ∧ c ≠ 0x09 := by
      rcases form with rfl | rfl | rfl
      · exact fun c first => (head c first).1
      · rintro c ⟨⟩
        decide
      · rintro c ⟨⟩
        decide
    obtain ⟨signed, rest⟩ := sign_of_append form fun c first => (head c first).2
    unfold cut
    dsimp only
    rw [blanks_end blank behind, signed, rest]
    rcases parts with ⟨rfl, rfl⟩ | ⟨rfl, x, hx, rfl⟩
    · have decimal : ¬ isHex body = true := by
        intro hex
        obtain ⟨x, hx, shape⟩ := (isHex_iff body).mp hex
        have second : x ∈ body := by
          rw [shape]
          exact List.mem_cons_of_mem _ List.mem_cons_self
        obtain ⟨-, -, -, -, small, large⟩ := digitBelow_other (all x second)
        exact hx.elim small large
      rw [if_neg decimal]
    · rw [if_pos ((isHex_iff _).mpr ⟨x, hx, rfl⟩)]
      rfl
  · rintro ⟨parts, all⟩
    have split := List.takeWhile_append_dropWhile (p := fun c => c = 0x20 || c = 0x09) (l := str)
    obtain ⟨behind, form⟩ := sign_parts (str.dropWhile fun c => c = 0x20 || c = 0x09)
    have blank : ∀ c ∈ str.takeWhile (fun c => c = 0x20 || c = 0x09), c = 0x20 ∨ c = 0x09 := by
      intro c member
      have isBlank := List.mem_takeWhile_imp member
      exact (blank_iff c).mp isBlank
    rw [behind] at split
    unfold cut at parts
    dsimp only at parts
    by_cases hex : isHex (behindSign (str.dropWhile fun c => c = 0x20 || c = 0x09)) = true
    · rw [if_pos hex] at parts
      cases parts
      obtain ⟨x, hx, shape⟩ := (isHex_iff _).mp hex
      exact ⟨_, _, split.symm, blank, form, .inr ⟨rfl, x, hx, shape⟩, all⟩
    · rw [if_neg hex] at parts
      cases parts
      exact ⟨_, _, split.symm, blank, form, .inl ⟨rfl, rfl⟩, all⟩

private theorem reads_unique {str sign sign' : CStr} {base base' : Nat} {digits digits' : CStr}
    (h : Reads str sign base digits) (h' : Reads str sign' base' digits') :
    sign = sign' ∧ base = base' ∧ digits = digits' := by
  have same := ((reads_iff _ _ _ _).mp h).1.symm.trans ((reads_iff _ _ _ _).mp h').1
  simpa only [Prod.mk.injEq] using same

theorem xstrtol_reads {str sign : CStr} {base : Nat} {digits : CStr}
    (reads : Reads str sign base digits) :
    xstrtol str = .ok (.ofInt (signed sign (valueIn base digits))) := by
  obtain ⟨parts, all⟩ := (reads_iff _ _ _ _).mp reads
  have value : xstrtolDigits base 0 digits = .ok (.ofInt (valueIn base digits : Nat)) :=
    digits_ok base all 0
  rw [xstrtol_cut, parts]
  dsimp only
  rw [value, signed]
  by_cases minus : sign = [0x2D]
  · rw [if_pos minus, UInt32.ofInt_neg]
    simp only [Except.map, if_pos minus, UInt32.zero_sub]
  · rw [if_neg minus]
    simp only [Except.map, if_neg minus]

private theorem xstrtol_refuses {str : CStr}
    (unreadable : ¬ ∃ sign base digits, Reads str sign base digits) :
    ∃ err, xstrtol str = .error err ∧ err ≠ 0 := by
  have bad : ¬ ∀ c ∈ (cut str).2.2, digitBelow (cut str).2.1 c = true := fun all =>
    unreadable ⟨(cut str).1, (cut str).2.1, (cut str).2.2, (reads_iff _ _ _ _).mpr ⟨rfl, all⟩⟩
  obtain ⟨err, fails, nonzero⟩ := digits_error _ bad 0
  refine ⟨err, ?_, nonzero⟩
  rw [xstrtol_cut, fails]
  rfl

/-- `xstrtol` is exact on every string but those with no digit where there should be one. -/
theorem exact_iff (str : CStr) : Exact str ↔ ¬ Digitless str := by
  constructor
  · rintro ⟨-, refuses⟩ ⟨sign, base, reads⟩
    have none : ¬ ∃ value, IsNumber str value := by
      rintro ⟨_, _, _, digits, reads', some, -⟩
      exact some (reads_unique reads reads').2.2.symm
    obtain ⟨err, fails, -⟩ := refuses none
    rw [xstrtol_reads reads] at fails
    cases fails
  · intro some
    constructor
    · rintro value ⟨sign, base, digits, reads, -, rfl⟩
      exact xstrtol_reads reads
    · intro none
      apply xstrtol_refuses
      rintro ⟨sign, base, digits, reads⟩
      by_cases empty : digits = []
      · rw [empty] at reads
        exact some ⟨sign, base, reads⟩
      · exact none ⟨_, sign, base, digits, reads, empty, rfl⟩

/-- `while (i < n && (str[i] == ' ' || str[i] == '\t')) i++;`. A read outside the buffer is
undefined. -/
def skipBlanks (str : Nat → Option UInt8) (n i : Nat) : Option Nat :=
  if i < n then
    (str i).bind fun c => if c = 0x20 ∨ c = 0x09 then skipBlanks str n (i + 1) else some i
  else some i
termination_by n - i

/-- The sign, and the index behind it. -/
def readSign (str : Nat → Option UInt8) (n i : Nat) : Option (Int × Nat) :=
  if i < n then
    (str i).map fun c => if c = 0x2D then (-1, i + 1) else if c = 0x2B then (1, i + 1) else (1, i)
  else some (1, i)

/-- The loop over the digits: `result`, and whether there was one. -/
def readDigits (str : Nat → Option UInt8) (n i : Nat) (result : Int) (started : Bool) :
    Option (Int × Bool) :=
  if i < n then
    (str i).bind fun c =>
      if isDigit c then readDigits str n (i + 1) (int32 (result * 10 + (c.toNat - 48 : Int))) true
      else some (result, started)
  else some (result, started)
termination_by n - i

/-- `ymodem_strtol`, character by character; `str` and `out` are not null. -/
def ymodemStrtolAt (str : Nat → Option UInt8) (n : Int) : Option (Except Int Int) :=
  if n ≤ 0 then some (.error (-1))
  else
    (skipBlanks str n.toNat 0).bind fun i =>
    (readSign str n.toNat i).bind fun (sign, i) =>
    (readDigits str n.toNat i 0 false).map fun (result, started) =>
      if started then .ok (int32 (result * sign)) else .error (-2)

/-! Character by character it does what it does on the whole buffer. -/

variable {bytes : List UInt8}

private theorem drop_at {i : Nat} (inside : i < bytes.length) :
    bytes[i]? = some bytes[i] ∧ bytes.drop i = bytes[i] :: bytes.drop (i + 1) :=
  ⟨List.getElem?_eq_getElem inside, List.drop_eq_getElem_cons inside⟩

private theorem skipBlanks_drop {i : Nat} (inside : i ≤ bytes.length) : ∃ j ≤ bytes.length,
    skipBlanks (fun k => bytes[k]?) bytes.length i = some j ∧
      bytes.drop j = (bytes.drop i).dropWhile fun c => c = 0x20 || c = 0x09 := by
  induction left : bytes.length - i generalizing i with
  | zero =>
    obtain rfl : i = bytes.length := by omega
    refine ⟨bytes.length, Nat.le_refl _, ?_, ?_⟩
    · rw [skipBlanks, if_neg (Nat.lt_irrefl _)]
    · rw [List.drop_length]
      rfl
  | succ left ih =>
    have more : i < bytes.length := by omega
    obtain ⟨here, split⟩ := drop_at more
    by_cases blank : bytes[i] = 0x20 ∨ bytes[i] = 0x09
    · obtain ⟨j, bound, skipped, rest⟩ := ih (i := i + 1) more (by omega)
      refine ⟨j, bound, ?_, ?_⟩
      · rw [skipBlanks, if_pos more, here, Option.bind_some, if_pos blank, skipped]
      · rw [rest, split, List.dropWhile_cons_of_pos]
        exact (blank_iff _).mpr blank
    · refine ⟨i, inside, ?_, ?_⟩
      · rw [skipBlanks, if_pos more, here, Option.bind_some, if_neg blank]
      · rw [split, List.dropWhile_cons_of_neg]
        exact mt (blank_iff _).mp blank

private theorem readSign_drop {i : Nat} (inside : i ≤ bytes.length) : ∃ j ≤ bytes.length,
    readSign (fun k => bytes[k]?) bytes.length i =
      some (if (bytes.drop i).head? = some 0x2D then -1 else 1, j) ∧
    bytes.drop j = if (bytes.drop i).head? = some 0x2D ∨ (bytes.drop i).head? = some 0x2B
      then (bytes.drop i).tail else bytes.drop i := by
  unfold readSign
  by_cases more : i < bytes.length
  · obtain ⟨here, split⟩ := drop_at more
    dsimp only
    rw [if_pos more, here, Option.map_some, split]
    simp only [List.head?_cons, Option.some_inj, List.tail_cons]
    by_cases minus : bytes[i] = 0x2D
    · rw [if_pos minus, if_pos minus, if_pos (.inl minus)]
      exact ⟨i + 1, more, rfl, rfl⟩
    · by_cases plus : bytes[i] = 0x2B
      · rw [if_neg minus, if_neg minus, if_pos plus, if_pos (.inr plus)]
        exact ⟨i + 1, more, rfl, rfl⟩
      · rw [if_neg minus, if_neg minus, if_neg plus, if_neg (not_or.mpr ⟨minus, plus⟩)]
        exact ⟨i, inside, rfl, split⟩
  · have ended : bytes.drop i = [] := List.drop_eq_nil_of_le (by omega)
    rw [if_neg more, ended]
    exact ⟨i, inside, rfl, ended⟩

private theorem readDigits_drop {i : Nat} (inside : i ≤ bytes.length) (result : Int)
    (started : Bool) : readDigits (fun k => bytes[k]?) bytes.length i result started =
      some (((bytes.drop i).takeWhile isDigit).foldl
          (fun result c => int32 (result * 10 + (c.toNat - 48 : Int))) result,
        started || !((bytes.drop i).takeWhile isDigit).isEmpty) := by
  induction left : bytes.length - i generalizing i result started with
  | zero =>
    have ended : bytes.drop i = [] := List.drop_eq_nil_of_le (by omega)
    rw [readDigits, if_neg (by omega), ended]
    exact congrArg (fun b => some (result, b)) (Bool.or_false started).symm
  | succ left ih =>
    have more : i < bytes.length := by omega
    obtain ⟨here, split⟩ := drop_at more
    rw [readDigits, if_pos more, here, Option.bind_some, split]
    rcases digit : isDigit bytes[i] with _ | _
    · rw [if_neg Bool.false_ne_true, List.takeWhile_cons_of_neg (by simp [digit])]
      exact congrArg (fun b => some (result, b)) (Bool.or_false started).symm
    · rw [if_pos rfl, List.takeWhile_cons_of_pos digit, ih (i := i + 1) more _ _ (by omega)]
      simp

private theorem ymodemStrtolAt_eq {n : Int} (size : bytes.length = n.toNat) :
    ymodemStrtolAt (fun k => bytes[k]?) n = some (ymodemStrtol bytes) := by
  unfold ymodemStrtolAt ymodemStrtol
  by_cases absent : n ≤ 0
  · have empty : bytes = [] := List.eq_nil_of_length_eq_zero (by omega)
    rw [if_pos absent, if_pos empty]
  · have present : ¬ bytes = [] := by
      rintro rfl
      change 0 = n.toNat at size
      omega
    obtain ⟨i, hi, skipped, behind⟩ := skipBlanks_drop (Nat.zero_le bytes.length)
    obtain ⟨j, hj, sign, number⟩ := readSign_drop hi
    rw [List.drop_zero] at behind
    rw [if_neg absent, if_neg present, ← size, skipped, Option.bind_some, sign, Option.bind_some]
    dsimp only
    rw [readDigits_drop hj, Option.map_some, number, behind]
    generalize (if (bytes.dropWhile fun c => c = 0x20 || c = 0x09).head? = some 0x2D ∨
      (bytes.dropWhile fun c => c = 0x20 || c = 0x09).head? = some 0x2B then
        (bytes.dropWhile fun c => c = 0x20 || c = 0x09).tail
      else bytes.dropWhile fun c => c = 0x20 || c = 0x09) = number
    by_cases blank : number.takeWhile isDigit = []
    · rw [blank, if_pos rfl]
      rfl
    · have started : (false || !(number.takeWhile isDigit).isEmpty) = true := by
        rw [Bool.false_or, Bool.not_eq_true', List.isEmpty_eq_false_iff]
        exact blank
      dsimp only
      rw [started, if_pos rfl, if_neg blank]
      rfl

private theorem digits_fold (digits : CStr) (all : ∀ c ∈ digits, isDigit c = true) (init : Nat) :
    digits.foldl (fun (result : Int) c => int32 (result * 10 + (c.toNat - 48 : Int))) (int32 init) =
      int32 (digits.foldl (fun value c => value * 10 + (c.toNat - 48)) init : Nat) := by
  induction digits generalizing init with
  | nil => rw [List.foldl_nil, List.foldl_nil]
  | cons c digits ih =>
    obtain ⟨first, rest⟩ := List.forall_mem_cons.mp all
    have bounds := isDigit_bounds first
    have sum : (init : Int) * 10 + (c.toNat - 48 : Int) = (init * 10 + (c.toNat - 48) : Nat) := by
      omega
    have step : int32 (int32 init * 10 + (c.toNat - 48 : Int)) =
        int32 (init * 10 + (c.toNat - 48) : Nat) := by
      rw [← sum]
      unfold int32
      rw [← Int.bmod_add_bmod, Int.bmod_mul_bmod, Int.bmod_add_bmod]
    rw [List.foldl_cons, List.foldl_cons, step]
    exact ih rest _

private theorem digitsValue_int32 {digits : CStr} (all : ∀ c ∈ digits, isDigit c = true) :
    digitsValue digits = int32 (decimalValue digits) :=
  digits_fold digits all 0

private theorem numeral_found {str sign digits : CStr} (numeral : Numeral str sign digits) :
    ((str.dropWhile fun c => c = 0x20 || c = 0x09).head? = some 0x2D ↔ sign = [0x2D]) ∧
    (if (str.dropWhile fun c => c = 0x20 || c = 0x09).head? = some 0x2D ∨
        (str.dropWhile fun c => c = 0x20 || c = 0x09).head? = some 0x2B
      then (str.dropWhile fun c => c = 0x20 || c = 0x09).tail
      else str.dropWhile fun c => c = 0x20 || c = 0x09).takeWhile isDigit = digits := by
  obtain ⟨blanks, junk, rfl, blank, form, more, all, ends⟩ := numeral
  obtain ⟨minus, number⟩ := sign_read junk form more all
  rw [blanks_end blank (numeral_head junk form more all), number]
  exact ⟨minus, digits_end all ends⟩

private theorem numeral_unique {str sign sign' digits digits' : CStr}
    (numeral : Numeral str sign digits) (numeral' : Numeral str sign' digits') :
    signed sign' (decimalValue digits') = signed sign (decimalValue digits) := by
  obtain ⟨minus, found⟩ := numeral_found numeral
  obtain ⟨minus', found'⟩ := numeral_found numeral'
  rw [← found, ← found', signed, signed]
  simp only [← minus, ← minus']

private theorem ymodemStrtol_int32 {str sign digits : CStr} (numeral : Numeral str sign digits) :
    ymodemStrtol str = .ok (int32 (signed sign (decimalValue digits))) := by
  obtain ⟨minus, found⟩ := numeral_found numeral
  obtain ⟨blanks, junk, rfl, -, -, more, all, -⟩ := numeral
  have present : blanks ++ (sign ++ (digits ++ junk)) ≠ [] := by simp [more]
  unfold ymodemStrtol
  dsimp only
  rw [if_neg present, found, if_neg more, digitsValue_int32 all, signed]
  simp only [minus]
  unfold int32
  rw [Int.bmod_mul_bmod]
  by_cases negative : sign = [0x2D]
  · rw [if_pos negative, if_pos negative, Int.mul_neg_one]
  · rw [if_neg negative, if_neg negative, Int.mul_one]

/-- What an `int` holds. -/
def FitsInt (value : Int) : Prop := -2147483648 ≤ value ∧ value < 2147483648

/-- `result` is what a parser of the `n` bytes `bytes` has to return. -/
def Reported (bytes : CStr) (result : Except Int Int) : Prop :=
  (∀ value, result = .ok value → ∃ sign digits, Numeral bytes sign digits) ∧
  (∀ sign digits, Numeral bytes sign digits → FitsInt (signed sign (decimalValue digits)) →
    result = .ok (signed sign (decimalValue digits))) ∧
  ((¬ ∃ sign digits, Numeral bytes sign digits ∧ FitsInt (signed sign (decimalValue digits))) →
    ∃ err, result = .error err ∧ err ≠ 0)

/-- The parser looks at nothing but its `n` bytes, and reports their number. -/
def ExactInt (bytes : CStr) (n : Int) : Prop := ∃ result,
  ymodemStrtolAt (fun k => bytes[k]?) n = some result ∧ Reported bytes result

private theorem int32_fits {value : Int} : int32 value = value ↔ FitsInt value := by
  unfold int32 FitsInt
  constructor
  · intro same
    have low : -2147483648 ≤ value.bmod 4294967296 := Int.le_bmod (by decide)
    have high : value.bmod 4294967296 < 2147483648 := Int.bmod_lt (by decide)
    rw [same] at low high
    exact ⟨low, high⟩
  · rintro ⟨low, high⟩
    exact Int.bmod_eq_of_le low high

private theorem ymodemStrtol_error {str : CStr} {err : Int}
    (fails : ymodemStrtol str = .error err) : err ≠ 0 := by
  unfold ymodemStrtol at fails
  by_cases empty : str = []
  · rw [if_pos empty] at fails
    cases fails
    decide
  · rw [if_neg empty] at fails
    dsimp only at fails
    generalize List.takeWhile isDigit _ = digits at fails
    by_cases none : digits = []
    · rw [if_pos none] at fails
      cases fails
      decide
    · rw [if_neg none] at fails
      cases fails

/-- `ymodem_strtol` is exact on every buffer whose number, if there is one, fits an `int`. -/
theorem exactInt_iff {bytes : CStr} {n : Int} (size : bytes.length = n.toNat) :
    ExactInt bytes n ↔
      ∀ sign digits, Numeral bytes sign digits → FitsInt (signed sign (decimalValue digits)) := by
  have value : ymodemStrtolAt (fun k => bytes[k]?) n = some (ymodemStrtol bytes) :=
    ymodemStrtolAt_eq size
  constructor
  · rintro ⟨result, returned, -, fitting, refuses⟩ sign digits numeral
    have taken := ymodemStrtol_int32 numeral
    rw [value] at returned
    cases returned
    by_contra large
    have alone : ¬ ∃ sign digits, Numeral bytes sign digits ∧
        FitsInt (signed sign (decimalValue digits)) := by
      rintro ⟨sign', digits', numeral', fits⟩
      rw [numeral_unique numeral numeral'] at fits
      exact large fits
    obtain ⟨err, fails, -⟩ := refuses alone
    rw [taken] at fails
    cases fails
  · intro fits
    refine ⟨_, value, fun _ ok => numeral_of_ok ok, ?_, ?_⟩
    · intro sign digits numeral fit
      rw [ymodemStrtol_int32 numeral, int32_fits.mpr fit]
    · intro absent
      rcases returned : ymodemStrtol bytes with err | value
      · exact ⟨err, rfl, ymodemStrtol_error returned⟩
      · obtain ⟨sign, digits, numeral⟩ := numeral_of_ok returned
        exact absurd ⟨sign, digits, numeral, fits sign digits numeral⟩ absent

/-- `xstrtol` is exact but for missing digits, `ymodem_strtol` but for numbers that do not fit. -/
theorem parsers_exact_iff (str : CStr) {bytes : CStr} {n : Int} (size : bytes.length = n.toNat) :
    (Exact str ↔ ¬ Digitless str) ∧
      (ExactInt bytes n ↔
        ∀ sign digits, Numeral bytes sign digits → FitsInt (signed sign (decimalValue digits))) :=
  ⟨exact_iff str, exactInt_iff size⟩

/-- `0x` is taken for nought, and 2^32, the ten characters of it, for nought too. -/
theorem digitless_and_large_taken :
    (xstrtol [0x30, 0x78] = .ok 0 ∧ ¬ Exact [0x30, 0x78]) ∧
      (ymodemStrtol [0x34, 0x32, 0x39, 0x34, 0x39, 0x36, 0x37, 0x32, 0x39, 0x36] = .ok 0 ∧
        ¬ ExactInt [0x34, 0x32, 0x39, 0x34, 0x39, 0x36, 0x37, 0x32, 0x39, 0x36] 10) := by
  refine ⟨⟨by decide, ?_⟩, by decide, ?_⟩
  · intro exact
    refine (exact_iff _).mp exact ⟨[], 16, [], [0x30, 0x78], rfl, List.forall_mem_nil _, .inl rfl,
      .inr ⟨rfl, 0x78, .inl rfl, rfl⟩, List.forall_mem_nil _⟩
  · intro exact
    have numeral : Numeral [0x34, 0x32, 0x39, 0x34, 0x39, 0x36, 0x37, 0x32, 0x39, 0x36] []
        [0x34, 0x32, 0x39, 0x34, 0x39, 0x36, 0x37, 0x32, 0x39, 0x36] :=
      ⟨[], [], rfl, List.forall_mem_nil _, .inl rfl, List.cons_ne_nil _ _,
        List.all_eq_true.mp (by decide), fun _ head => absurd head (Option.not_mem_none _)⟩
    have fits := (exactInt_iff rfl).mp exact _ _ numeral
    revert fits
    unfold FitsInt
    decide

/-- ` -0x1F` for the one, and for the other `  -1024 7`, whose first number is the one taken. -/
theorem parsers_exact_signed : Exact [0x20, 0x2D, 0x30, 0x78, 0x31, 0x46] ∧
    ExactInt [0x20, 0x20, 0x2D, 0x31, 0x30, 0x32, 0x34, 0x20, 0x37] 9 := by
  have size : ([0x20, 0x20, 0x2D, 0x31, 0x30, 0x32, 0x34, 0x20, 0x37] : CStr).length =
    (9 : Int).toNat := rfl
  obtain ⟨unsigned, int⟩ := parsers_exact_iff [0x20, 0x2D, 0x30, 0x78, 0x31, 0x46] size
  constructor
  · apply unsigned.mpr
    rintro ⟨sign, base, reads⟩
    have parts := ((reads_iff _ _ _ _).mp reads).1
    have digits : (cut [0x20, 0x2D, 0x30, 0x78, 0x31, 0x46]).2.2 = [] := by rw [parts]
    exact absurd digits (by decide)
  · apply int.mpr
    intro sign digits numeral
    obtain ⟨minus, found⟩ := numeral_found numeral
    obtain rfl : [0x31, 0x30, 0x32, 0x34] = digits := found
    obtain rfl : sign = [0x2D] := minus.mp (by decide)
    unfold signed FitsInt
    decide

end T113Boot.Shell.Numbers
