/- Module: T113Boot/Drivers/TransmitTimeOut
   layer: proof
   digest: When the time-outs of the UART drivers tell what the polls have shown. -/

import T113Boot.Drivers.Uart

set_option autoImplicit false
set_option relaxedAutoImplicit false

namespace T113Boot.Drivers.TransmitTimeOut

open T113Boot.Drivers.Uart

/-- The call answers `ok` and writes the character once if a poll has shown the transmitter ready,
and otherwise answers `failed` and writes nothing. -/
def Honest (ok failed : Int) (c : UInt8) (call : Call) : Prop :=
  ((∀ v ∈ call.seen, transmitReady v = false) → call.ret = failed ∧ call.thr = []) ∧
    ((∃ v ∈ call.seen, transmitReady v = true) → call.ret = ok ∧ call.thr = [c.toUInt32])

/-- The call fails exactly if each poll has seen the halt bit set. -/
def InitHonest (call : Call) : Prop := call.ret = -1 ↔ ∀ v ∈ call.seen, haltBusy v = true

section Poll

variable (busy : UInt32 → Bool) (status : Nat → UInt32)

private theorem toNat_pred {timeOut : UInt32} (nonzero : timeOut ≠ 0) :
    timeOut.toNat = (timeOut - 1).toNat + 1 := by
  have positive : timeOut.toNat ≠ 0 := fun is => nonzero (UInt32.toNat_inj.mp is)
  have bound := timeOut.toNat_lt
  rw [UInt32.toNat_sub]
  change _ = (4294967296 - 1 + timeOut.toNat) % 4294967296 + 1
  omega

private theorem forall_lt_succ {P : Nat → Prop} (k n : Nat) :
    (∀ i < n + 1, P (k + i)) ↔ P k ∧ ∀ i < n, P (k + 1 + i) := by
  constructor
  · intro all
    refine ⟨all 0 (Nat.succ_pos _), fun i inside => ?_⟩
    have later := all (i + 1) (Nat.succ_lt_succ inside)
    rwa [show k + (i + 1) = k + 1 + i by omega] at later
  · rintro ⟨first, rest⟩ i inside
    cases i with
    | zero => exact first
    | succ i =>
      have later := rest i (Nat.lt_of_succ_lt_succ inside)
      rwa [show k + 1 + i = k + (i + 1) by omega] at later

theorem poll_seen (k : Nat) (timeOut : UInt32) :
    (∀ v ∈ (poll busy status k timeOut).seen, busy v = true) ↔
      ∀ i < timeOut.toNat + 1, busy (status (k + i)) = true := by
  induction k, timeOut using poll.induct busy status with
  | case1 k set =>
    rw [poll, if_pos set, dif_pos rfl]
    constructor
    · intro _ i inside
      rw [Nat.lt_one_iff.mp inside]
      exact set
    · intro _ v seen
      rw [List.mem_singleton.mp seen]
      exact set
  | case2 k timeOut set nonzero ih =>
    rw [poll, if_pos set, dif_neg nonzero]
    dsimp only
    rw [List.forall_mem_cons, ih, toNat_pred nonzero,
      forall_lt_succ (P := fun i => busy (status i) = true) k]
  | case3 k timeOut clear =>
    rw [poll, if_neg clear, List.forall_mem_singleton]
    refine iff_of_false clear fun all => ?_
    exact clear (all 0 (Nat.succ_pos _))

theorem poll_zero (k : Nat) (timeOut : UInt32) :
    (poll busy status k timeOut).timeOut = 0 ↔
      (∀ i < timeOut.toNat, busy (status (k + i)) = true) ∧
        busy (status (k + timeOut.toNat)) = false := by
  induction k, timeOut using poll.induct busy status with
  | case1 k set =>
    rw [poll, if_pos set, dif_pos rfl]
    refine iff_of_false (show ¬ (0 - 1 : UInt32) = 0 by decide) fun is => ?_
    have clear : busy (status k) = false := is.2
    rw [set] at clear
    cases clear
  | case2 k timeOut set nonzero ih =>
    rw [poll, if_pos set, dif_neg nonzero]
    dsimp only
    rw [ih, toNat_pred nonzero, forall_lt_succ (P := fun i => busy (status i) = true),
      and_iff_right set, show k + ((timeOut - 1).toNat + 1) = k + 1 + (timeOut - 1).toNat by omega]
  | case3 k timeOut clear =>
    rw [poll, if_neg clear]
    constructor
    · rintro rfl
      exact ⟨fun i inside => absurd inside (Nat.not_lt_zero i), Bool.eq_false_iff.mpr clear⟩
    · intro is
      by_contra nonzero
      refine clear (is.1 0 ?_)
      rw [toNat_pred nonzero]
      exact Nat.succ_pos _

theorem poll_tells_iff (timeOut : UInt32) :
    ((poll busy status 0 timeOut).timeOut = 0 ↔
        ∀ v ∈ (poll busy status 0 timeOut).seen, busy v = true) ↔
      ∃ k < timeOut.toNat, busy (status k) = false := by
  rw [poll_seen, poll_zero]
  simp only [Nat.zero_add]
  constructor
  · intro tells
    by_contra none
    have before : ∀ i < timeOut.toNat, busy (status i) = true := by
      intro i inside
      by_contra clear
      exact none ⟨i, inside, Bool.eq_false_iff.mpr clear⟩
    rcases last : busy (status timeOut.toNat) with _ | _
    · have all := tells.mp ⟨before, last⟩ _ (Nat.lt_succ_self _)
      rw [last] at all
      cases all
    · have all : ∀ i < timeOut.toNat + 1, busy (status i) = true := by
        intro i inside
        rcases Nat.lt_or_eq_of_le (Nat.le_of_lt_succ inside) with earlier | rfl
        · exact before i earlier
        · exact last
      have zero := (tells.mpr all).2
      rw [last] at zero
      cases zero
  · rintro ⟨k, inside, clear⟩
    refine iff_of_false (fun zero => ?_) fun all => ?_
    · rw [zero.1 k inside] at clear
      cases clear
    · rw [all k (Nat.lt_succ_of_lt inside)] at clear
      cases clear

end Poll

private theorem honest_iff {ok failed : Int} (apart : ok ≠ failed) (c : UInt8)
    (usr : Nat → UInt32) (timeOut : UInt32) :
    let p := poll (fun v => !transmitReady v) usr 0 timeOut
    Honest ok failed c
        (if p.timeOut = 0 then ⟨failed, p.seen, []⟩ else ⟨ok, p.seen, [c.toUInt32]⟩) ↔
      ∃ k < timeOut.toNat, transmitReady (usr k) = true := by
  intro p
  have tells := poll_tells_iff (fun v => !transmitReady v) usr timeOut
  simp only [Bool.not_eq_true', Bool.not_eq_false'] at tells
  rw [← tells]
  constructor
  · rintro ⟨never, some_⟩
    constructor
    · intro zero v seen
      rcases shown : transmitReady v with _ | _
      · rfl
      · have answer := (some_ ⟨v, by rwa [if_pos zero], shown⟩).1
        rw [if_pos zero] at answer
        exact absurd answer.symm apart
    · intro all
      by_contra left
      have answer := (never (by rwa [if_neg left])).1
      rw [if_neg left] at answer
      exact absurd answer apart
  · intro tells
    by_cases zero : p.timeOut = 0
    · rw [if_pos zero]
      refine ⟨fun _ => ⟨rfl, rfl⟩, fun ⟨v, seen, shown⟩ => ?_⟩
      rw [tells.mp zero v seen] at shown
      cases shown
    · rw [if_neg zero]
      exact ⟨fun all => absurd (tells.mpr all) zero, fun _ => ⟨rfl, rfl⟩⟩

private theorem honest_unseen (ok failed : Int) (c : UInt8) : Honest ok failed c ⟨failed, [], []⟩ :=
  ⟨fun _ => ⟨rfl, rfl⟩, fun ⟨_, seen, _⟩ => absurd seen (List.not_mem_nil)⟩

theorem bootUartPutc_honest_iff (uart : UInt32) (c : UInt8) (usr : Nat → UInt32) :
    Honest 0 (-1) c (bootUartPutc uart c usr) ↔
      uart = 0 ∨ ∃ k < 1000, transmitReady (usr k) = true := by
  unfold bootUartPutc
  by_cases null : uart = 0
  · rw [if_pos null]
    exact iff_of_true (honest_unseen 0 (-1) c) (.inl null)
  · rw [if_neg null, or_iff_right null]
    exact honest_iff (by decide) c usr 1000

theorem appUartPutc_honest_iff (c : UInt8) (usr : Nat → UInt32) :
    Honest 1 0 c (appUartPutc c usr) ↔ ∃ k < 1000, transmitReady (usr k) = true :=
  honest_iff (by decide) c usr 1000

theorem uartInit_honest_iff (uart : UInt32) (cfg : UartConfigure) (halt : Nat → UInt32) :
    InitHonest (uartInit uart cfg halt) ↔
      uart = 0 ∨ ¬ cfg.Known ∨ ∃ k < 1000, haltBusy (halt k) = false := by
  have unseen : InitHonest ⟨-1, [], []⟩ :=
    iff_of_true rfl fun v seen => absurd seen List.not_mem_nil
  unfold uartInit
  by_cases null : uart = 0
  · rw [if_pos null]
    exact iff_of_true unseen (.inl null)
  · rw [if_neg null, or_iff_right null]
    by_cases known : cfg.Known
    · rw [if_neg (not_not.mpr known), or_iff_right (not_not.mpr known)]
      have tells := poll_tells_iff haltBusy halt 1000
      refine Iff.trans ?_ tells
      dsimp only
      split
      · rename_i zero
        exact iff_congr (iff_of_true rfl zero) Iff.rfl
      · rename_i left
        exact iff_congr (iff_of_false (show ¬ (0 : Int) = -1 by decide) left) Iff.rfl
    · rw [if_pos known]
      exact iff_of_true unseen (.inl known)

/-- The time-outs are told apart from answers exactly where one of the first 1000 polls shows what
is waited for, so that the counter has not come down to zero. -/
theorem timeOut_honest_iff (uart : UInt32) (cfg : UartConfigure) (c : UInt8)
    (status : Nat → UInt32) :
    (Honest 0 (-1) c (bootUartPutc uart c status) ↔
        uart = 0 ∨ ∃ k < 1000, transmitReady (status k) = true) ∧
      (Honest 1 0 c (appUartPutc c status) ↔ ∃ k < 1000, transmitReady (status k) = true) ∧
      (InitHonest (uartInit uart cfg status) ↔
        uart = 0 ∨ ¬ cfg.Known ∨ ∃ k < 1000, haltBusy (status k) = false) :=
  ⟨bootUartPutc_honest_iff uart c status, appUartPutc_honest_iff c status,
    uartInit_honest_iff uart cfg status⟩

/-- A transmitter that is never ready is written to all the same, and the call answers that it has
succeeded; so does the one that has waited for the halt bit, which is never cleared. -/
theorem timeOut_unreported :
    ¬ Honest 0 (-1) 0x41 (bootUartPutc 0x40080000 0x41 fun _ => 0) ∧
      ¬ Honest 1 0 0x41 (appUartPutc 0x41 fun _ => 0) ∧
      ¬ InitHonest (uartInit 0x40080000 ⟨8, 1, 0⟩ fun _ => 4) := by
  refine ⟨fun honest => ?_, fun honest => ?_, fun honest => ?_⟩
  · rcases (bootUartPutc_honest_iff _ _ _).mp honest with null | ⟨_, _, ready⟩
    · exact absurd null (by decide)
    · exact absurd ready (by decide)
  · obtain ⟨_, _, ready⟩ := (appUartPutc_honest_iff _ _).mp honest
    exact absurd ready (by decide)
  · rcases (uartInit_honest_iff _ _ _).mp honest with null | unknown | ⟨_, _, clear⟩
    · exact absurd null (by decide)
    · exact absurd (by decide) unknown
    · exact absurd clear (by decide)

end T113Boot.Drivers.TransmitTimeOut
