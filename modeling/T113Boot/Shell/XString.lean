/- Module: T113Boot/Shell/XString
   layer: model
   digest: The string functions of `xstring.c` that the shell uses. -/

import T113Boot.Lib.Moves
import T113Boot.Storage.Table

set_option autoImplicit false
set_option relaxedAutoImplicit false

namespace T113Boot.Shell.XString

open T113Boot.Lib.Cells
open T113Boot.Lib.Moves
open T113Boot.Storage.Table (CStr cstr)

/-- `xmemmove` inside one object. -/
def xmemmove (m : Mem) (dst src cnt : Nat) : Mem :=
  if dst ≤ src then copyUp m dst src cnt else copyDown m dst src cnt

def xmemset (m : Mem) (dst : Nat) (val : UInt8) (cnt : Nat) : Mem :=
  store m dst (List.replicate cnt val)

/-- The string at address `a` of an array of `size` characters. -/
def stringAt (m : Mem) (size a : Nat) : CStr := (slice m a (size - a)).takeWhile (· ≠ 0)

/-- `xstrcpy` of a string into an array. -/
def xstrcpy (m : Mem) (dst : Nat) (src : CStr) : Mem := store m dst (src ++ [0])

/-- `xstrcmp` of two strings; behind its last character a string is NUL. -/
def xstrcmp : CStr → CStr → Int
  | [], p2 => if p2.headD 0 ≠ 0 then -1 else 0
  | c1 :: p1, p2 =>
    let c2 := p2.headD 0
    if c1 ≠ c2 then (if c1 < c2 then -1 else 1)
    else if c1 = 0 then 0
    else xstrcmp p1 p2.tail

/-- `xstrncmp`, of the memories from two addresses on. -/
def xstrncmp : List UInt8 → List UInt8 → Nat → Int
  | _, _, 0 => 0
  | p1, p2, cnt + 1 =>
    let c1 := p1.headD 0
    let c2 := p2.headD 0
    if c1 ≠ c2 then (if c1 < c2 then -1 else 1)
    else if c1 = 0 then 0
    else xstrncmp p1.tail p2.tail cnt

/-- The digits of `xstrtol`; anything else ends it with an error. -/
def digitOf (c : UInt8) : Option Nat :=
  if 0x30 ≤ c ∧ c ≤ 0x39 then some (c.toNat - 0x30)
  else if 0x61 ≤ c ∧ c ≤ 0x66 then some (10 + (c.toNat - 0x61))
  else if 0x41 ≤ c ∧ c ≤ 0x46 then some (10 + (c.toNat - 0x41))
  else none

def xstrtolDigits (base : Nat) : UInt32 → CStr → Except Int UInt32
  | result, [] => .ok result
  | result, c :: str =>
    match digitOf c with
    | none => .error (-2)
    | some digit =>
      if digit ≥ base then .error (-3)
      else xstrtolDigits base (result * .ofNat base + .ofNat digit) str

/-- `xstrtol`; the `int` is given as its 32 bits. -/
def xstrtol (str : CStr) : Except Int UInt32 :=
  let blank := str.dropWhile fun c => c = 0x20 || c = 0x09
  let minus : Bool := blank.head? = some 0x2D
  let number := if minus ∨ blank.head? = some 0x2B then blank.tail else blank
  let hex : Bool := number.head? = some 0x30 ∧
    (number.tail.head? = some 0x78 ∨ number.tail.head? = some 0x58)
  let result := if hex then xstrtolDigits 16 0 (number.drop 2) else xstrtolDigits 10 0 number
  result.map fun n => if minus then 0 - n else n

theorem xmemmove_eq (m : Mem) (dst src cnt : Nat) :
    xmemmove m dst src cnt = store m dst (slice m src cnt) := by
  unfold xmemmove
  split
  · rename_i below
    exact copyUp_eq m below cnt
  · exact copyDown_eq m (by omega) cnt

private theorem sign_ne_zero (p : Prop) [Decidable p] : (if p then (-1 : Int) else 1) ≠ 0 := by
  by_cases h : p
  · rw [if_pos h]
    decide
  · rw [if_neg h]
    decide

theorem xstrcmp_eq_zero {p1 p2 : CStr} (first : 0 ∉ p1) (second : 0 ∉ p2) :
    xstrcmp p1 p2 = 0 ↔ p1 = p2 := by
  induction p1 generalizing p2 with
  | nil =>
    rcases p2 with _ | ⟨c2, p2⟩
    · simp [xstrcmp]
    · have nonzero : c2 ≠ 0 := fun zero => second (zero ▸ List.mem_cons_self)
      simp [xstrcmp, nonzero]
  | cons c1 p1 ih =>
    have nonzero : c1 ≠ 0 := fun zero => first (zero ▸ List.mem_cons_self)
    have rest1 : 0 ∉ p1 := fun member => first (List.mem_cons_of_mem _ member)
    rcases p2 with _ | ⟨c2, p2⟩
    · simp only [xstrcmp, List.headD_nil, ne_eq, nonzero, not_false_eq_true, if_true, reduceCtorEq,
        iff_false]
      exact sign_ne_zero _
    · have rest2 : 0 ∉ p2 := fun member => second (List.mem_cons_of_mem _ member)
      by_cases same : c1 = c2
      · subst same
        simp [xstrcmp, nonzero, ih rest1 rest2]
      · simp only [xstrcmp, List.headD_cons, ne_eq, same, not_false_eq_true, if_true, List.cons.injEq,
          false_and, iff_false]
        exact sign_ne_zero _

theorem xstrncmp_take (p1 p2 : List UInt8) (cnt : Nat) :
    xstrncmp p1 (p2.take cnt) cnt = xstrncmp p1 p2 cnt := by
  induction cnt generalizing p1 p2 with
  | zero => rfl
  | succ cnt ih =>
    rcases p2 with _ | ⟨c2, p2⟩
    · rfl
    · rw [List.take_succ_cons, xstrncmp, xstrncmp, List.headD_cons, List.headD_cons, List.tail_cons,
        List.tail_cons, ih]

theorem zero_notMem_stringAt (m : Mem) (size a : Nat) : 0 ∉ stringAt m size a := by
  intro nul
  have kept := List.all_eq_true.mp List.all_takeWhile 0 nul
  simp at kept

theorem length_stringAt_le (m : Mem) (size a : Nat) : (stringAt m size a).length ≤ size - a := by
  have whole := (List.takeWhile_prefix (fun b : UInt8 => b ≠ 0) (l := slice m a (size - a))).length_le
  rw [length_slice] at whole
  exact whole

theorem stringAt_eq (m : Mem) {size a n : Nat} (inside : a + n < size) (end_ : m (a + n) = 0)
    (text : ∀ i, i < n → m (a + i) ≠ 0) : stringAt m size a = slice m a n := by
  unfold stringAt
  rw [show size - a = n + (size - a - n) by omega, slice_add, List.takeWhile_append_of_pos]
  · rw [show size - a - n = size - a - n - 1 + 1 by omega, Nat.add_comm _ 1, slice_add]
    simp [slice, end_]
  · intro b member
    obtain ⟨i, inside, rfl⟩ := List.getElem_of_mem member
    rw [length_slice] at inside
    rw [getElem_slice]
    simpa using text i inside

end T113Boot.Shell.XString
