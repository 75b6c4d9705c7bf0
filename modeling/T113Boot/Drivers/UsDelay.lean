/- Module: T113Boot/Drivers/UsDelay
   layer: specification
   digest: The microsecond delay on a counter that wraps, and the delays that end too early. -/

import Mathlib.Logic.Basic

set_option autoImplicit false
set_option relaxedAutoImplicit false

namespace T113Boot.Drivers.UsDelay

/-- The ticks between two reads of the counter. -/
abbrev Gap := Fin 2147483648

/-- The down-counter of timer1, some ticks after it stood at `start`. -/
def counter (start : UInt32) : Nat → UInt32
  | 0 => start
  | n + 1 => counter start n - 1

/-- The loop of `rt_hw_us_delay`, `elapsed` ticks after the first read: the ticks that have gone by
when it ends. -/
def delayLoop (start ticks : UInt32) : Nat → List Gap → Option Nat
  | _, [] => none
  | elapsed, gap :: gaps =>
    let now := counter start (elapsed + gap)
    if start - now ≥ ticks then some (elapsed + gap)
    else delayLoop start ticks (elapsed + gap) gaps

/-- `rt_hw_us_delay` from a first read of `start`, for as many further reads as there are gaps. -/
def rtHwUsDelay (us start : UInt32) (gaps : List Gap) : Option Nat :=
  let ticks := us * 24
  delayLoop start ticks 0 gaps

theorem sub_counter (start : UInt32) (n : Nat) : start - counter start n = UInt32.ofNat n := by
  induction n with
  | zero => exact UInt32.sub_self start
  | succ n ih =>
    have onward : start - (counter start n - 1) = start - counter start n + 1 := by grind
    rw [counter, onward, ih]
    exact (UInt32.ofNat_add n 1).symm

theorem ticks_le_iff (start ticks : UInt32) (n : Nat) :
    start - counter start n ≥ ticks ↔ ticks.toNat ≤ n % 4294967296 := by
  rw [sub_counter, ge_iff_le, UInt32.le_iff_toNat_le, UInt32.toNat_ofNat']

variable {start ticks : UInt32}

/-- The loop ends at a read that has the ticks behind it. -/
theorem ticks_le_of_delayLoop {elapsed n : Nat} {gaps : List Gap}
    (ended : delayLoop start ticks elapsed gaps = some n) : ticks.toNat ≤ n % 4294967296 := by
  induction gaps generalizing elapsed with
  | nil => cases ended
  | cons gap gaps ih =>
    rw [delayLoop] at ended
    by_cases enough : start - counter start (elapsed + gap) ≥ ticks
    · rw [if_pos enough] at ended
      rw [← Option.some_inj.mp ended]
      exact (ticks_le_iff start ticks _).mp enough
    · rw [if_neg enough] at ended
      exact ih ended

/-- It can end as soon as the ticks are over, with a read shortly before where they are many. -/
theorem delayLoop_exact (start ticks : UInt32) (below : ticks.toNat < 4294967295) :
    ∃ gaps, delayLoop start ticks 0 gaps = some ticks.toNat := by
  have small : ticks.toNat % 4294967296 = ticks.toNat := Nat.mod_eq_of_lt ticks.toNat_lt
  have reached : start - counter start ticks.toNat ≥ ticks :=
    (ticks_le_iff start ticks _).mpr (Nat.le_of_eq small.symm)
  by_cases few : ticks.toNat < 2147483648
  · refine ⟨[⟨ticks.toNat, few⟩], ?_⟩
    rw [delayLoop, Nat.zero_add, if_pos reached]
  · have early : ¬ start - counter start 2147483647 ≥ ticks := by
      rw [ticks_le_iff]
      omega
    have sum : 2147483647 + (ticks.toNat - 2147483647) = ticks.toNat := by omega
    refine ⟨[⟨2147483647, by decide⟩, ⟨ticks.toNat - 2147483647, by omega⟩], ?_⟩
    rw [delayLoop, Nat.zero_add, if_neg early, delayLoop, sum, if_pos reached]

/-- The delay never ends before its ticks have gone by exactly if they can be counted. -/
theorem rtHwUsDelay_not_early_iff (us start : UInt32) :
    (∀ gaps elapsed, rtHwUsDelay us start gaps = some elapsed → 24 * us.toNat ≤ elapsed) ↔
      24 * us.toNat < 4294967296 := by
  have ticks : (us * 24).toNat = us.toNat * 24 % 4294967296 := UInt32.toNat_mul us 24
  constructor
  · intro late
    obtain ⟨gaps, ended⟩ := delayLoop_exact start (us * 24) (by omega)
    have enough := late gaps _ ended
    omega
  · intro counted gaps elapsed ended
    have enough := ticks_le_of_delayLoop ended
    omega

/-- Of nearly three minutes eight ticks are waited. -/
theorem rtHwUsDelay_wraps :
    rtHwUsDelay 178956971 0 [8] = some 8 ∧ ¬ 24 * (178956971 : UInt32).toNat ≤ 8 := by
  constructor
  · decide
  · decide

end T113Boot.Drivers.UsDelay
