/- Module: T113Boot/Shell/Formats
   layer: specification
   digest: Formats as lists of fields, what each field prints, and the machine that prints them. -/

import Mathlib.Data.Nat.Digits.Defs
import Mathlib.Data.Nat.Digits.Lemmas
import T113Boot.Shell.XFormat

set_option autoImplicit false
set_option relaxedAutoImplicit false

namespace T113Boot.Shell.Formats

open T113Boot.Storage.Table (CStr)
open T113Boot.Shell.XFormat

inductive Mark
  | left
  | zero
  | blank
  | sharp
  | plus
deriving DecidableEq

def Mark.char : Mark → UInt8
  | .left => 0x2D
  | .zero => 0x30
  | .blank => 0x20
  | .sharp => 0x23
  | .plus => 0x2B

/-- A width or a precision: digits, possibly none, or an argument. -/
inductive Amount
  | digits (ds : List (Fin 10))
  | star

def digitChar (d : Fin 10) : UInt8 := 0x30 + .ofNat d.val

def Amount.show : Amount → CStr
  | .digits ds => ds.map digitChar
  | .star => [0x2A]

inductive Size
  | h
  | l
  | z
deriving DecidableEq

def Size.char : Size → UInt8
  | .h => 0x68
  | .l => 0x6C
  | .z => 0x7A

/-- The conversions of integers. -/
inductive Radix
  | d
  | i
  | u
  | x
  | X
  | o
  | b
  | p
  | P
deriving DecidableEq

inductive Kind
  | integer (radix : Radix)
  | s
  | S
  | c
  | C
  | B
deriving DecidableEq

def Radix.char : Radix → UInt8
  | .d => 0x64
  | .i => 0x69
  | .u => 0x75
  | .x => 0x78
  | .X => 0x58
  | .o => 0x6F
  | .b => 0x62
  | .p => 0x70
  | .P => 0x50

def Kind.char : Kind → UInt8
  | .integer radix => radix.char
  | .s => 0x73
  | .S => 0x53
  | .c => 0x63
  | .C => 0x43
  | .B => 0x42

/-- A field of a format. The digits of a width do not begin with a zero, which is a mark. -/
structure Field where
  marks : List Mark
  width : Amount
  leading : width.show.head? ≠ some 0x30
  prec : Option Amount
  sizes : List Size
  kind : Kind

inductive Item
  | char (c : UInt8) (plain : c ≠ 0x25)
  | percent
  | field (f : Field)

def Field.show (f : Field) : CStr :=
  0x25 :: (f.marks.map Mark.char ++ (f.width.show ++
    ((f.prec.elim [] fun prec => 0x2E :: prec.show) ++
      (f.sizes.map Size.char ++ [f.kind.char]))))

def Item.show : Item → CStr
  | .char c _ => [c]
  | .percent => [0x25, 0x25]
  | .field f => f.show

/-- The number that digits stand for. -/
def valueOf (ds : List (Fin 10)) : Nat := ds.foldl (fun value d => value * 10 + d.val) 0

/-- `none`: there is no argument, or no `int` holds the number. -/
def Amount.read (args : List UInt32) : Amount → Option (Int × List UInt32)
  | .digits ds => if valueOf ds ≤ 2147483647 then some (valueOf ds, args) else none
  | .star => (vaArg args).map fun (w, args) => (signed w, args)

def Radix.base : Radix → Nat
  | .d | .i | .u => 10
  | .x | .X | .p | .P => 16
  | .o => 8
  | .b => 2

def Radix.isSigned : Radix → Bool
  | .d | .i => true
  | _ => false

def Radix.upper : Radix → Bool
  | .X | .P => true
  | _ => false

def Radix.pointer : Radix → Bool
  | .p | .P => true
  | _ => false

/-- What stands before the digits. -/
def Radix.lead (radix : Radix) (sharp : Bool) : CStr :=
  match radix with
  | .p | .P => [0x2D, 0x3E]
  | .x | .X => if sharp then [0x30, 0x78] else []
  | .o => if sharp then [0x30] else []
  | .b => if sharp then [0x30, 0x62] else []
  | _ => []

/-- The numeral of a number, with zeros up to a length. -/
def numeral (base least n : Nat) : CStr :=
  (List.replicate (least - (Nat.digits base n).length) 0 ++ (Nat.digits base n).reverse).map
    fun digit => msDigits.getD digit 0

def toUpper (upper : Bool) (cs : CStr) : CStr :=
  cs.map fun c => if upper ∧ 0x61 ≤ c ∧ c ≤ 0x7A then c - 0x20 else c

/-- The prefix comes first, and the padding stands between it and the body, or behind both. -/
def lay (marks : List Mark) (width : Int) (upper : Bool) (lead body : CStr) : Option CStr :=
  let gap := width - (body.length + lead.length)
  let fill := List.replicate gap.toNat (if .zero ∈ marks then (0x30 : UInt8) else 0x20)
  if gap < intMin then none
  else some <| toUpper upper lead ++
    if .left ∈ marks then toUpper upper body ++ fill else fill ++ toUpper upper body

def Radix.negative (radix : Radix) (w : UInt32) : Bool := radix.isSigned ∧ signed w < 0

/-- The number without its sign. -/
def Radix.magnitude (radix : Radix) (w : UInt32) : Nat :=
  if radix.negative w then 4294967296 - w.toNat else w.toNat

/-- How many digits there are at least. -/
def Radix.least (radix : Radix) (prec : Int) : Int :=
  if radix.pointer then 8 else if prec = 0 then 1 else prec

def Radix.digits (radix : Radix) (prec : Int) (w : UInt32) : CStr :=
  numeral radix.base (radix.least prec).toNat (radix.magnitude w)

/-- What stands before the digits and the padding. -/
def Radix.front (radix : Radix) (marks : List Mark) (w : UInt32) : CStr :=
  if radix.isSigned ∧ ¬ radix.negative w ∧ .blank ∈ marks then [0x20]
  else if .sharp ∈ marks ∧ w = 0 then [] else radix.lead (.sharp ∈ marks)

def Radix.sign (radix : Radix) (marks : List Mark) (w : UInt32) : Option UInt8 :=
  if radix.negative w then some 0x2D else if .plus ∈ marks then some 0x2B else none

/-- An integer: its digits have to fit into the buffer, with a sign that is not padded behind. -/
def printInteger (marks : List Mark) (width prec : Int) (radix : Radix) (w : UInt32) :
    Option CStr :=
  let digits := radix.digits prec w
  if radix.least prec - digits.length ≤ intMin ∨ bufferSize < digits.length then none
  else match radix.sign marks w with
    | none => lay marks width radix.upper (radix.front marks w) digits
    | some c =>
      if .zero ∈ marks then lay marks width radix.upper [c] digits
      else if digits.length < bufferSize then
        lay marks width radix.upper (radix.front marks w) (c :: digits)
      else none

/-- A text is cut off at the width. -/
def printText (marks : List Mark) (width : Int) (upper : Bool) (cs : CStr) : Option CStr :=
  lay marks width upper [] (if width ≠ 0 ∧ cs.length > width then cs.take width.toNat else cs)

def Kind.upper : Kind → Bool
  | .S | .C => true
  | _ => false

/-- What is printed of a value that is no integer. -/
def Kind.body (text : UInt32 → CStr) (w : UInt32) : Kind → CStr
  | .s | .S => if w = 0 then msNull else text w
  | .c | .C => [w.toUInt8]
  | .B => if w ≠ 0 then msTrue else msFalse
  | .integer _ => []

/-- The value of a field, which is its last argument. -/
def printValue (text : UInt32 → CStr) (marks : List Mark) (width prec : Int) (w : UInt32) :
    Kind → Option CStr
  | .integer radix => printInteger marks width prec radix w
  | kind => printText marks width kind.upper (kind.body text w)

def Field.print (text : UInt32 → CStr) (f : Field) (args : List UInt32) :
    Option (CStr × List UInt32) :=
  (f.width.read args).bind fun (width, args) =>
    ((f.prec.elim (some (0, args)) (Amount.read args)).bind fun (prec, args) =>
      (vaArg args).bind fun (w, args) =>
        (printValue text f.marks width prec w f.kind).map fun cs => (cs, args))

def Item.print (text : UInt32 → CStr) (item : Item) (args : List UInt32) :
    Option (CStr × List UInt32) :=
  match item with
  | .char c _ => some ([c], args)
  | .percent => some ([0x25], args)
  | .field f => f.print text args

/-- What a format prints: field after field, each with the arguments the ones before have left. -/
def printItems (text : UInt32 → CStr) : List Item → List UInt32 → Option CStr
  | [], _ => some []
  | item :: items, args => (item.print text args).bind fun (cs, args) =>
    (printItems text items args).map fun rest => cs ++ rest

/-- The arguments that are read for a width or a precision. -/
def Amount.stars : Amount → Nat
  | .digits _ => 0
  | .star => 1

/-- The arguments that a field reads before its value. -/
def Field.stars (f : Field) : Nat := f.width.stars + f.prec.elim 0 Amount.stars

def Amount.value : Amount → Nat
  | .digits ds => valueOf ds
  | .star => 0

/-- Its width and its precision stand in the format. -/
def Field.Fixed (f : Field) : Prop := f.width.stars = 0 ∧ f.prec.elim 0 Amount.stars = 0

/-- Its precision, when it stands in the format. -/
def Field.limit (f : Field) : Nat := f.prec.elim 0 Amount.value

/-- No number is too large for an `int`, and the digits of an integer fit into the buffer, with a
sign in front of them unless zeros are padded behind it. -/
def Field.Safe (f : Field) : Prop :=
  f.width.value ≤ 2147483647 ∧ f.limit ≤ 2147483647 ∧
    ∀ radix, f.kind = .integer radix → radix.least f.limit ≤
      if .zero ∈ f.marks ∨ ¬ (radix.isSigned ∨ .plus ∈ f.marks) then 33 else 32

def Item.fields : Item → Nat
  | .char _ _ => 0
  | .percent => 0
  | .field _ => 1

theorem numeral_step {base least n : Nat} (more : 1 < base) (left : 0 < least ∨ n ≠ 0) :
    numeral base least n =
      numeral base (least - 1) (n / base) ++ [msDigits.getD (n % base) 0] := by
  unfold numeral
  rcases Nat.eq_zero_or_pos n with rfl | positive
  · obtain ⟨k, rfl⟩ := Nat.exists_eq_succ_of_ne_zero (n := least) (by omega)
    simp [List.replicate_succ']
  · rw [Nat.digits_def' more positive, List.length_cons, List.reverse_cons,
      show least - ((Nat.digits base (n / base)).length + 1) =
        least - 1 - (Nat.digits base (n / base)).length by omega]
    simp

theorem numeral_done (base : Nat) : numeral base 0 0 = [] := by
  simp [numeral]

theorem base_cases (radix : Radix) : radix.base = 10 ∨ radix.base = 16 ∨ radix.base = 8 ∨
    radix.base = 2 := by
  cases radix <;> decide

theorem takeDigit_eq (radix : Radix) (v : UInt32) :
    (takeDigit radix.base v).1.toNat = v.toNat % radix.base ∧
      (takeDigit radix.base v).2.toNat = v.toNat / radix.base := by
  have low (k : Nat) : v.toNat &&& (2 ^ k - 1) = v.toNat % 2 ^ k := Nat.and_two_pow_sub_one_eq_mod ..
  have high (k : Nat) : v.toNat >>> k = v.toNat / 2 ^ k := Nat.shiftRight_eq_div_pow ..
  rcases base_cases radix with base | base | base | base <;> rw [base]
  · exact ⟨UInt32.toNat_mod v 10, UInt32.toNat_div v 10⟩
  · exact ⟨(UInt32.toNat_and v 0x0F).trans (low 4), (UInt32.toNat_shiftRight v 4).trans (high 4)⟩
  · exact ⟨(UInt32.toNat_and v 0x07).trans (low 3), (UInt32.toNat_shiftRight v 3).trans (high 3)⟩
  · exact ⟨(UInt32.toNat_and v 0x01).trans (low 1), (UInt32.toNat_shiftRight v 1).trans (high 1)⟩

theorem base_more (radix : Radix) : 1 < radix.base := by
  cases radix <;> decide

theorem numeral_left (radix : Radix) {prec : Int} {v : UInt32} (left : prec > 0 ∨ v ≠ 0) :
    numeral radix.base prec.toNat v.toNat =
      numeral radix.base (prec - 1).toNat (takeDigit radix.base v).2.toNat ++
        [msDigits.getD (takeDigit radix.base v).1.toNat 0] := by
  obtain ⟨digit, rest⟩ := takeDigit_eq radix v
  have more : 0 < prec.toNat ∨ v.toNat ≠ 0 :=
    left.imp (by omega) fun some zero => some (UInt32.toNat_inj.mp zero)
  rw [numeral_step (base_more radix) more, digit, rest,
    show (prec - 1).toNat = prec.toNat - 1 by omega]

theorem numeral_finished (radix : Radix) {prec : Int} {v : UInt32}
    (finished : ¬ (prec > 0 ∨ v ≠ 0)) :
    numeral radix.base prec.toNat v.toNat = [] := by
  obtain ⟨done, rfl⟩ : prec ≤ 0 ∧ v = 0 := by simpa using finished
  rw [Int.toNat_of_nonpos done, UInt32.toNat_zero, numeral_done]

theorem ulong2a_eq (radix : Radix) (room : Nat) (prec : Int) (v : UInt32) (out : CStr) :
    ulong2a radix.base room prec v out =
      if prec - (numeral radix.base prec.toNat v.toNat).length ≤ intMin ∨
          room < (numeral radix.base prec.toNat v.toNat).length then none
      else some (numeral radix.base prec.toNat v.toNat ++ out) := by
  induction room generalizing prec v out with
  | zero =>
    unfold ulong2a
    by_cases low : prec ≤ intMin
    · rw [if_pos low, if_pos (.inl (by omega))]
    rw [if_neg low]
    by_cases left : prec > 0 ∨ v ≠ 0
    · rw [if_pos left, numeral_left radix left, if_pos (.inr (by simp))]
    · rw [if_neg left, numeral_finished radix left, if_neg (by simpa using low), List.nil_append]
  | succ room ih =>
    unfold ulong2a
    by_cases low : prec ≤ intMin
    · rw [if_pos low, if_pos (.inl (by omega))]
    rw [if_neg low]
    by_cases left : prec > 0 ∨ v ≠ 0
    · rw [if_pos left, numeral_left radix left]
      simp only [ih, List.length_append, List.length_singleton, List.append_assoc,
        List.singleton_append]
      refine if_congr (or_congr ?_ ?_) rfl rfl <;> omega
    · rw [if_neg left, numeral_finished radix left, if_neg (by simpa using low), List.nil_append]

end T113Boot.Shell.Formats
