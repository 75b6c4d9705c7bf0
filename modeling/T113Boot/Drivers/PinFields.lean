/- Module: T113Boot/Drivers/PinFields
   layer: specification
   digest: What a sequence of accepted calls makes of the fields of every pin. -/

import T113Boot.Lib.Runs
import T113Boot.Drivers.Iomux

set_option autoImplicit false
set_option relaxedAutoImplicit false

namespace T113Boot.Drivers.PinFields

open T113Boot.Lib.BitFields
open T113Boot.Lib.Runs (view_foldl_last view_foldl_merge)
open T113Boot.Drivers.Iomux

/-- The call is about the pin. -/
def Names (port pin : BitVec 32) (c : IomuxCfg) : Prop := c.port = port ∧ c.pin = pin

instance (port pin : BitVec 32) (c : IomuxCfg) : Decidable (Names port pin c) :=
  inferInstanceAs (Decidable (_ ∧ _))

/-- The call is about the pin and asks for a pull. -/
def AsksPull (port pin : BitVec 32) (c : IomuxCfg) : Prop :=
  Names port pin c ∧ c.pull ≠ ioPullReserve

instance (port pin : BitVec 32) (c : IomuxCfg) : Decidable (AsksPull port pin c) :=
  inferInstanceAs (Decidable (_ ∧ _))

def afterCalls (regs : Regs) (calls : List IomuxCfg) : Regs :=
  calls.foldl (fun regs c => (iomuxSetSel regs c).2) regs

def lastNaming (port pin : BitVec 32) (calls : List IomuxCfg) : Option IomuxCfg :=
  (calls.filter fun c => decide (Names port pin c)).getLast?

def lastPull (port pin : BitVec 32) (calls : List IomuxCfg) : Option IomuxCfg :=
  (calls.filter fun c => decide (AsksPull port pin c)).getLast?

/-- The last call wins on every pin, and what no call names is left alone: the fields of the other
pins, and every register but those of functions and pulls. -/
structure LastCallWins (regs : Regs) (calls : List IomuxCfg) : Prop where
  mux : ∀ port pin c, lastNaming port pin calls = some c →
    (muxField (afterCalls regs calls) port pin).toNat = c.mux.toNat
  pull : ∀ port pin c, lastPull port pin calls = some c →
    (pullField (afterCalls regs calls) port pin).toNat = c.pull.toNat
  others : ∀ port pin, OnChip port pin → (∀ c ∈ calls, ¬ Names port pin c) →
    muxField (afterCalls regs calls) port pin = muxField regs port pin ∧
    pullField (afterCalls regs calls) port pin = pullField regs port pin
  registers : ∀ addr, (∀ port pin, OnChip port pin → addr ≠ muxAddr port pin ∧
    addr ≠ pullAddr port pin) → afterCalls regs calls addr = regs addr

/-- For every pin, neither its first pull nor one that was asked for has a bit that the last one
asked for has not. -/
def PullsCovered (regs : Regs) (calls : List IomuxCfg) : Prop :=
  ∀ port pin c, lastPull port pin calls = some c →
    Within (pullField regs port pin) (field c.pull 0 2) ∧
    ∀ c' ∈ calls, AsksPull port pin c' → Within (field c'.pull 0 2) (field c.pull 0 2)

private theorem writel_same (regs : Regs) (val addr : BitVec 32) :
    writel regs val addr addr = val := if_pos rfl

private theorem writel_other (regs : Regs) (val : BitVec 32) {addr a : BitVec 32} (h : a ≠ addr) :
    writel regs val addr a = regs a := if_neg h

private theorem setMux_merge (regs : Regs) (c : IomuxCfg) :
    setMux regs c = writel regs (merge (regs (muxAddr c.port c.pin))
      (0xf#32 <<< (muxShift c.port c.pin).toNat)
      ((c.mux &&& 0xf) <<< (muxShift c.port c.pin).toNat)) (muxAddr c.port c.pin) := rfl

private theorem setPull_merge (regs : Regs) (c : IomuxCfg) (v : BitVec 32) :
    setPull regs c v = writel regs (merge (regs (pullAddr c.port c.pin))
      (v <<< (pullShift c.port c.pin).toNat) (v <<< (pullShift c.port c.pin).toNat))
      (pullAddr c.port c.pin) := rfl

private theorem muxAddr_ne_pullAddr {port pin port' pin' : BitVec 32} (h : OnChip port pin)
    (h' : OnChip port' pin') : muxAddr port pin ≠ pullAddr port' pin' := by
  intro same
  have values := congrArg BitVec.toNat same
  rw [muxAddr_toNat h, pullAddr_toNat h'] at values
  obtain ⟨-, pin_le⟩ := h
  obtain ⟨-, pin_le'⟩ := h'
  omega

private theorem field_writel_merge (regs : Regs) {mask v addr a : BitVec 32} {i len : Nat}
    (inside : i + len ≤ 32) (apart : a = addr → field mask i len = 0 ∧ field v i len = 0) :
    field (writel regs (merge (regs addr) mask v) addr a) i len = field (regs a) i len := by
  by_cases same : a = addr
  · obtain ⟨maskApart, vApart⟩ := apart same
    rw [same, writel_same, field_merge_kept _ inside maskApart vApart]
  · rw [writel_other _ _ same]

variable {c : IomuxCfg} {port pin : BitVec 32}

private theorem distinct_of_unnamed (unnamed : ¬ Names port pin c) :
    port.toNat = c.port.toNat → pin.toNat ≠ c.pin.toNat := fun hport hpin =>
  unnamed ⟨(BitVec.eq_of_toNat_eq hport).symm, (BitVec.eq_of_toNat_eq hpin).symm⟩

private theorem muxShift_apart (onChip : OnChip port pin) (named : OnChip c.port c.pin)
    (unnamed : ¬ Names port pin c) (same : muxAddr port pin = muxAddr c.port c.pin) :
    (muxShift port pin).toNat + 4 ≤ (muxShift c.port c.pin).toNat ∨
      (muxShift c.port c.pin).toNat + 4 ≤ (muxShift port pin).toNat := by
  have distinct := distinct_of_unnamed unnamed
  have values := congrArg BitVec.toNat same
  rw [muxAddr_toNat onChip, muxAddr_toNat named] at values
  rw [muxShift_toNat onChip, muxShift_toNat named]
  have inside := onChip.2
  have inside' := named.2
  omega

private theorem pullShift_apart (onChip : OnChip port pin) (named : OnChip c.port c.pin)
    (unnamed : ¬ Names port pin c) (same : pullAddr port pin = pullAddr c.port c.pin) :
    (pullShift port pin).toNat + 2 ≤ (pullShift c.port c.pin).toNat ∨
      (pullShift c.port c.pin).toNat + 2 ≤ (pullShift port pin).toNat := by
  have distinct := distinct_of_unnamed unnamed
  have values := congrArg BitVec.toNat same
  rw [pullAddr_toNat onChip, pullAddr_toNat named] at values
  rw [pullShift_toNat onChip, pullShift_toNat named]
  have inside := onChip.2
  have inside' := named.2
  omega

theorem muxField_setMux (regs : Regs) (named : OnChip c.port c.pin) (onChip : OnChip port pin) :
    muxField (setMux regs c) port pin =
      if decide (Names port pin c) then field c.mux 0 4 else muxField regs port pin := by
  have inside := onChip.2
  have shift := muxShift_toNat onChip
  have width : (muxShift port pin).toNat + 4 ≤ 32 := by omega
  have small : (c.mux &&& 0xf).toNat < 2 ^ 4 := by
    rw [BitVec.toNat_and]
    exact Nat.lt_of_le_of_lt Nat.and_le_right (by decide)
  unfold muxField
  rw [setMux_merge]
  by_cases names : Names port pin c
  · obtain ⟨rfl, rfl⟩ := names
    have ones : field (0xf#32) 0 4 = BitVec.allOnes 4 := by decide
    rw [if_pos (decide_eq_true ⟨rfl, rfl⟩), writel_same, field_merge_covered _ _ width
      (by rw [field_shift _ width, ones]), field_shift _ width, field_and]
    exact (congrArg _ ones).trans (BitVec.and_allOnes)
  · rw [if_neg (by simpa using names)]
    refine field_writel_merge regs width fun same => ?_
    have apart := muxShift_apart onChip named names same
    exact ⟨field_shift_other (by decide : (0xf#32).toNat < 2 ^ 4) apart,
      field_shift_other small apart⟩

theorem pullField_setPull (regs : Regs) {v : BitVec 32} (small : v.toNat < 2 ^ 2)
    (named : OnChip c.port c.pin) (onChip : OnChip port pin) :
    pullField (setPull regs c v) port pin =
      if decide (Names port pin c) then pullField regs port pin ||| field v 0 2
      else pullField regs port pin := by
  have inside := onChip.2
  have shift := pullShift_toNat onChip
  have width : (pullShift port pin).toNat + 2 ≤ 32 := by omega
  unfold pullField
  rw [setPull_merge]
  by_cases names : Names port pin c
  · obtain ⟨rfl, rfl⟩ := names
    rw [if_pos (decide_eq_true ⟨rfl, rfl⟩), writel_same, field_merge _ _ _ width,
      field_shift _ width, clear_or_self]
  · rw [if_neg (by simpa using names)]
    refine field_writel_merge regs width fun same => ?_
    have apart := pullShift_apart onChip named names same
    exact ⟨field_shift_other small apart, field_shift_other small apart⟩

theorem muxField_setPull (regs : Regs) (v : BitVec 32) (named : OnChip c.port c.pin)
    (onChip : OnChip port pin) : muxField (setPull regs c v) port pin = muxField regs port pin := by
  unfold muxField
  rw [setPull_merge, writel_other _ _ (muxAddr_ne_pullAddr onChip named)]

theorem pullField_setMux (regs : Regs) (named : OnChip c.port c.pin) (onChip : OnChip port pin) :
    pullField (setMux regs c) port pin = pullField regs port pin := by
  unfold pullField
  rw [setMux_merge, writel_other _ _ (muxAddr_ne_pullAddr named onChip).symm]

theorem muxField_setSel (regs : Regs) (accepted : Accepted c) (onChip : OnChip port pin) :
    muxField (iomuxSetSel regs c).2 port pin =
      if decide (Names port pin c) then field c.mux 0 4 else muxField regs port pin := by
  rw [iomuxSetSel_accepted regs accepted, ← muxField_setMux regs accepted.onChip onChip]
  by_cases reserve : c.pull = ioPullReserve
  · rw [if_pos reserve]
  · rw [if_neg reserve]
    exact muxField_setPull _ _ accepted.onChip onChip

theorem pullField_setSel (regs : Regs) (accepted : Accepted c) (onChip : OnChip port pin) :
    pullField (iomuxSetSel regs c).2 port pin =
      if decide (AsksPull port pin c) then pullField regs port pin ||| field c.pull 0 2
      else pullField regs port pin := by
  rw [iomuxSetSel_accepted regs accepted]
  by_cases reserve : c.pull = ioPullReserve
  · have none : ¬ AsksPull port pin c := fun asks => asks.2 reserve
    rw [if_pos reserve, if_neg (by simpa using none)]
    exact pullField_setMux _ accepted.onChip onChip
  · have asks : AsksPull port pin c ↔ Names port pin c := and_iff_left reserve
    rw [if_neg reserve, decide_eq_decide.mpr asks, ← pullField_setMux regs accepted.onChip onChip]
    exact pullField_setPull _ (Nat.lt_succ_of_le accepted.pull) accepted.onChip onChip

theorem setSel_elsewhere (regs : Regs) (accepted : Accepted c) {addr : BitVec 32}
    (elsewhere : addr ≠ muxAddr c.port c.pin ∧ addr ≠ pullAddr c.port c.pin) :
    (iomuxSetSel regs c).2 addr = regs addr := by
  rw [iomuxSetSel_accepted regs accepted]
  have muxed : setMux regs c addr = regs addr := by
    rw [setMux_merge, writel_other _ _ elsewhere.1]
  by_cases reserve : c.pull = ioPullReserve
  · rw [if_pos reserve]
    exact muxed
  · rw [if_neg reserve]
    change setPull _ c c.pull addr = _
    rw [setPull_merge, writel_other _ _ elsewhere.2]
    exact muxed

variable {regs : Regs} {calls : List IomuxCfg}

private theorem lastOf_spec {f : IomuxCfg → Bool} (last : (calls.filter f).getLast? = some c) :
    c ∈ calls ∧ f c = true :=
  List.mem_filter.mp (List.mem_of_getLast? last)

theorem muxField_afterCalls (accepted : ∀ c ∈ calls, Accepted c) (onChip : OnChip port pin) :
    muxField (afterCalls regs calls) port pin =
      ((lastNaming port pin calls).map fun c => field c.mux 0 4).getD (muxField regs port pin) :=
  view_foldl_last (fun regs => muxField regs port pin) regs fun regs c here =>
    muxField_setSel regs (accepted c here) onChip

theorem pullField_afterCalls (accepted : ∀ c ∈ calls, Accepted c) (onChip : OnChip port pin) :
    pullField (afterCalls regs calls) port pin =
      ((calls.filter fun c => decide (AsksPull port pin c)).map fun c => field c.pull 0 2).foldl
        (· ||| ·) (pullField regs port pin) :=
  view_foldl_merge (fun regs => pullField regs port pin) regs (· ||| ·) fun regs c here =>
    pullField_setSel regs (accepted c here) onChip

theorem afterCalls_elsewhere (accepted : ∀ c ∈ calls, Accepted c) {addr : BitVec 32}
    (elsewhere : ∀ port pin, OnChip port pin → addr ≠ muxAddr port pin ∧ addr ≠ pullAddr port pin) :
    afterCalls regs calls addr = regs addr := by
  induction calls generalizing regs with
  | nil => rfl
  | cons c calls ih =>
    obtain ⟨first, rest⟩ := List.forall_mem_cons.mp accepted
    exact (ih rest).trans (setSel_elsewhere regs first (elsewhere _ _ first.onChip))

private theorem pull_last_iff (accepted : ∀ c ∈ calls, Accepted c)
    (last : lastPull port pin calls = some c) :
    (pullField (afterCalls regs calls) port pin).toNat = c.pull.toNat ↔
      Within (pullField regs port pin) (field c.pull 0 2) ∧
      ∀ c' ∈ calls, AsksPull port pin c' → Within (field c'.pull 0 2) (field c.pull 0 2) := by
  obtain ⟨here, asks⟩ := lastOf_spec last
  have asks : AsksPull port pin c := of_decide_eq_true asks
  have onChip : OnChip port pin := by
    rw [← asks.1.1, ← asks.1.2]
    exact (accepted c here).onChip
  have value : (field c.pull 0 2).toNat = c.pull.toNat :=
    toNat_field_small (Nat.lt_succ_of_le (accepted c here).pull)
  have among : field c.pull 0 2 ∈ (calls.filter fun c => decide (AsksPull port pin c)).map
      fun c => field c.pull 0 2 := List.mem_map_of_mem (List.mem_of_getLast? last)
  rw [← value, BitVec.toNat_inj, pullField_afterCalls accepted onChip, foldl_or_eq_iff among,
    List.forall_mem_map]
  simp only [List.mem_filter, decide_eq_true_eq, and_imp]

/-- Functions always follow the last call, and a pull does exactly where no bit of an earlier one is
outside it: the setter clears only the bits that it is about to set. -/
theorem iomux_lastCallWins_iff (regs : Regs) (calls : List IomuxCfg)
    (accepted : ∀ c ∈ calls, Accepted c) : LastCallWins regs calls ↔ PullsCovered regs calls := by
  constructor
  · intro wins port pin c last
    exact (pull_last_iff accepted last).mp (wins.pull port pin c last)
  · intro covered
    refine ⟨?_, ?_, ?_, ?_⟩
    · intro port pin c last
      obtain ⟨here, names⟩ := lastOf_spec last
      obtain ⟨rfl, rfl⟩ : Names port pin c := of_decide_eq_true names
      rw [muxField_afterCalls accepted (accepted c here).onChip, last]
      exact toNat_field_small (Nat.lt_succ_of_le (accepted c here).mux)
    · exact fun port pin c last => (pull_last_iff accepted last).mpr (covered port pin c last)
    · intro port pin onChip unnamed
      have naming : calls.filter (fun c => decide (Names port pin c)) = [] :=
        List.filter_eq_nil_iff.mpr fun c here => by simpa using unnamed c here
      have asking : calls.filter (fun c => decide (AsksPull port pin c)) = [] :=
        List.filter_eq_nil_iff.mpr fun c here => by
          simpa using fun asks : AsksPull port pin c => unnamed c here asks.1
      constructor
      · rw [muxField_afterCalls accepted onChip, lastNaming, naming]
        rfl
      · rw [pullField_afterCalls accepted onChip, asking]
        rfl
    · exact fun addr elsewhere => afterCalls_elsewhere accepted elsewhere

/-- PB0 with a pull-up, then with a pull-down. -/
def upThenDown : List IomuxCfg := [⟨0, 0, 0, ioPullUp⟩, ⟨0, 0, 0, ioPullDown⟩]

private theorem upThenDown_accepted : ∀ c ∈ upThenDown, Accepted c := by
  have up : Accepted ⟨0, 0, 0, ioPullUp⟩ := ⟨⟨by decide, by decide⟩, by decide, by decide⟩
  have down : Accepted ⟨0, 0, 0, ioPullDown⟩ := ⟨⟨by decide, by decide⟩, by decide, by decide⟩
  exact List.forall_mem_cons.mpr ⟨up, List.forall_mem_singleton.mpr down⟩

/-- Both bits of the pull are left set. -/
theorem iomux_pulls_add_up : ¬ ∀ (regs : Regs) (calls : List IomuxCfg),
    (∀ c ∈ calls, Accepted c) → LastCallWins regs calls := by
  intro claimed
  have wins := claimed (fun _ => 0) upThenDown upThenDown_accepted
  exact absurd (wins.pull 0 0 ⟨0, 0, 0, ioPullDown⟩ rfl) (by decide)

/-- PB0 with a pull-up, and PB1 first without a pull, then with another function and a pull-down. -/
def pinByPin : List IomuxCfg :=
  [⟨0, 0, 2, ioPullUp⟩, ⟨0, 1, 2, ioPullNone⟩, ⟨0, 1, 6, ioPullDown⟩]

private theorem pinByPin_accepted : ∀ c ∈ pinByPin, Accepted c := by
  have first : Accepted ⟨0, 0, 2, ioPullUp⟩ := ⟨⟨by decide, by decide⟩, by decide, by decide⟩
  have second : Accepted ⟨0, 1, 2, ioPullNone⟩ := ⟨⟨by decide, by decide⟩, by decide, by decide⟩
  have third : Accepted ⟨0, 1, 6, ioPullDown⟩ := ⟨⟨by decide, by decide⟩, by decide, by decide⟩
  exact List.forall_mem_cons.mpr
    ⟨first, List.forall_mem_cons.mpr ⟨second, List.forall_mem_singleton.mpr third⟩⟩

/-- On registers that hold functions and pulls already: every even pin has a pull-up. -/
theorem iomux_pinByPin : LastCallWins (fun _ => 0x11111111) pinByPin := by
  refine (iomux_lastCallWins_iff _ _ pinByPin_accepted).mpr ?_
  intro port pin c last
  obtain ⟨here, asks⟩ := lastOf_spec last
  obtain ⟨⟨rfl, rfl⟩, -⟩ : AsksPull port pin c := of_decide_eq_true asks
  rcases here with _ | ⟨_, _ | ⟨_, _ | ⟨_, here⟩⟩⟩
  · decide
  · exact absurd (congrArg (Option.map IomuxCfg.pull) last) (by decide)
  · decide
  · cases here

end T113Boot.Drivers.PinFields
