/- Module: T113Boot/Drivers/TransmitRing
   layer: results
   digest: The frames sent are those of the successful calls, and nothing queued is overwritten. -/

import Mathlib.Data.List.GetD
import T113Boot.Drivers.EmacTransmit
import T113Boot.Lib.Runs

set_option autoImplicit false
set_option relaxedAutoImplicit false

namespace T113Boot.Drivers.TransmitRing

open T113Boot.Lib.Runs
open T113Boot.Drivers.Emac (DmaDesc ownBit)
open T113Boot.Drivers.EmacTransmit
open T113Boot.Drivers.EmacTransmit.EmacTx (base)

variable {s s' : EmacTx} {p : Chain}

/-- What has to be sent of a chain: its bytes, as the first and the last part of a frame. -/
def frameOf (p : Chain) : Frame := ⟨0x60000000, p.bufs.flatten⟩

/-- The frames of the calls that returned `RT_EOK`. -/
def accepted (s : EmacTx) : List Frame :=
  (s.returned.filter fun call => call.2 = 0).map fun call => frameOf call.1

/-- The same with the call that is about to return it. -/
def transmitted (s : EmacTx) : List Frame :=
  match s.pc with
  | .ret p => accepted s ++ [frameOf p]
  | _ => accepted s

/-- The DMA touches nothing. -/
def Quiet (phase : Phase) : Prop := phase = .stopped ∨ phase = .suspended

/-- A statement writes nothing to a descriptor with OWN set nor to its buffer. -/
def NoOverwrite (s s' : EmacTx) : Prop := ∀ i < emacDmaTxDescNum, (s.pool i).owned = true →
  s'.pool i = s.pool i ∧
    ∀ a, base i ≤ a → a < base (i + 1) → s'.mem a = s.mem a ∧ s'.cache a = s.cache a

/-- The statements that write the second word of the descriptor whose OWN the call has just set. -/
def completes : Pc → Bool
  | .setFlags _ _ | .setLength _ _ => true
  | _ => false

/-- It writes nothing there, unless the descriptor is the one that the call is about to hand over to
the DMA, which does not touch it yet; and of that only the second word. -/
def Careful (s s' : EmacTx) : Prop := ∀ i < emacDmaTxDescNum, (s.pool i).owned = true →
  (s'.pool i = s.pool i ∨ completes s.pc = true ∧ i = s.index ∧ Quiet s.phase ∧
    s'.pool i = { s.pool i with desc1 := (s'.pool i).desc1 }) ∧
    ∀ a, base i ≤ a → a < base (i + 1) → s'.mem a = s.mem a ∧ s'.cache a = s.cache a

/-- A statement leaves the ring, the buffers and the index alone. -/
def Leaves (s s' : EmacTx) : Prop :=
  s'.pool = s.pool ∧ s'.mem = s.mem ∧ s'.cache = s.cache ∧ s'.index = s.index

/-- These descriptors have OWN set. -/
def OwnedOnly (s : EmacTx) (j : Option Nat) : Prop :=
  ∀ i < emacDmaTxDescNum, (s.pool i).owned = true ↔ j = some i

/-- The second word of a complete descriptor. -/
def desc1Of (p : Chain) : UInt32 := 0x60000000 ||| (.ofNat p.totLen &&& 0x7FF)

/-- The bytes of a chain lie in memory, in a buffer. -/
def Written (s : EmacTx) (j : Nat) (p : Chain) : Prop := p.totLen ≤ txBufSize ∧
  ∀ k < p.totLen, s.cache (base j + k) = none ∧ s.mem (base j + k) = p.bufs.flatten.getD k 0

/-- How far the DMA can be with a frame. -/
def Sends (p : Chain) : Phase → Prop
  | .stopped | .suspended => False
  | .fetch => True
  | .reading desc1 got => desc1 = desc1Of p ∧ got.length ≤ p.totLen ∧
      got = p.bufs.flatten.take got.length
  | .close desc1 got => desc1 = desc1Of p ∧ got = p.bufs.flatten

/-- All frames have been sent. -/
structure Rest (s : EmacTx) (frames : List Frame) : Prop where
  owned : OwnedOnly s none
  dma : s.dma = s.index
  phase : s.phase.fresh = true
  sent : s.sent = frames

/-- The last frame has not yet been sent. -/
structure Pending (s : EmacTx) (p : Chain) (frames : List Frame) : Prop where
  owned : OwnedOnly s (some s.dma)
  inside : s.dma < emacDmaTxDescNum
  index : s.index = (s.dma + 1) % emacDmaTxDescNum
  desc1 : (s.pool s.dma).desc1 = desc1Of p
  written : Written s s.dma p
  phase : Sends p s.phase
  sent : s.sent ++ [frameOf p] = frames

def Settled (s : EmacTx) (frames : List Frame) : Prop :=
  Rest s frames ∨ ∃ p, Pending s p frames

/-- A call is filling a descriptor while the DMA does nothing. -/
structure Filling (s : EmacTx) (owned : Option Nat) : Prop where
  quiet : Quiet s.phase
  owned : OwnedOnly s owned
  sent : s.sent = accepted s

/-- What holds before a statement. -/
def Stage (s : EmacTx) : Pc → Prop
  | .idle | .limit _ | .fail _ => Settled s (accepted s)
  | .readStatus p | .poll p _ => Settled s (accepted s) ∧ p.totLen ≤ txBufSize
  | .check p regVal _ => Settled s (accepted s) ∧ p.totLen ≤ txBufSize ∧
      (regVal = 0x00 ∨ regVal = 0x06 → Quiet s.phase)
  | .copy p q offset => Filling s none ∧ s.dma = s.index ∧ p.totLen ≤ txBufSize ∧
      ∃ done, p.bufs = done ++ q ∧ offset = done.flatten.length ∧
        ∀ k < offset, s.view (base s.index + k) = done.flatten.getD k 0
  | .flush p offset => Filling s none ∧ s.dma = s.index ∧ p.totLen ≤ txBufSize ∧
      offset = p.totLen ∧ ∀ k < offset, s.view (base s.index + k) = p.bufs.flatten.getD k 0
  | .setOwn p offset => Filling s none ∧ s.dma = s.index ∧ offset = p.totLen ∧
      Written s s.index p
  | .setFlags p offset => Filling s (some s.index) ∧ s.dma = s.index ∧ offset = p.totLen ∧
      Written s s.index p
  | .setLength p offset => Filling s (some s.index) ∧ s.dma = s.index ∧ offset = p.totLen ∧
      Written s s.index p ∧ (s.pool s.index).desc1 = 0x60000000
  | .advance p => Filling s (some s.index) ∧ s.dma = s.index ∧ Written s s.index p ∧
      (s.pool s.index).desc1 = desc1Of p
  | .readCtl p | .writeCtl p _ => Filling s (some s.dma) ∧ s.dma < emacDmaTxDescNum ∧
      s.index = (s.dma + 1) % emacDmaTxDescNum ∧ Written s s.dma p ∧
      (s.pool s.dma).desc1 = desc1Of p
  | .ret p => Settled s (accepted s ++ [frameOf p])

structure Inv (s : EmacTx) : Prop where
  index : s.index < emacDmaTxDescNum
  wired : ∀ i < emacDmaTxDescNum, (s.pool i).desc2 = base i ∧
    (s.pool i).desc3 = (i + 1) % emacDmaTxDescNum
  stage : Stage s s.pc

theorem inv_started (mem : Nat → UInt8) (cache : Nat → Option UInt8) (ctl1 : UInt32)
    {phase : Phase} (fresh : phase.fresh = true) : Inv (started mem cache ctl1 phase) := by
  refine ⟨Nat.succ_pos 127, fun i inside => ⟨rfl, ?_⟩, .inl ⟨fun i _ => ?_, rfl, fresh, rfl⟩⟩
  · change (if i + 1 < emacDmaTxDescNum then i + 1 else 0) = (i + 1) % emacDmaTxDescNum
    by_cases more : i + 1 < emacDmaTxDescNum
    · rw [if_pos more, Nat.mod_eq_of_lt more]
    · rw [if_neg more, show i + 1 = emacDmaTxDescNum by omega, Nat.mod_self]
  · refine iff_of_false ?_ (Option.some_ne_none i).symm
    change ¬ ((0 : UInt32) &&& ownBit != 0) = true
    decide

private theorem or_mask (a x m : UInt32) : (a ||| x) &&& m = (a &&& m) ||| (x &&& m) := by
  apply UInt32.toBitVec_inj.mp
  ext i inside
  simp [Bool.and_or_distrib_right]

private theorem desc1Of_length (small : p.totLen ≤ txBufSize) :
    (desc1Of p &&& 0x7FF).toNat = p.totLen := by
  have low : (0x60000000 : UInt32) &&& 0x7FF = 0 := by decide
  have same : (0x7FF : UInt32) &&& 0x7FF = 0x7FF := by decide
  have mask : (0x7FF : UInt32).toNat = 2 ^ 11 - 1 := by decide
  rw [desc1Of, or_mask, UInt32.and_assoc, low, same, UInt32.zero_or, UInt32.toNat_and,
    UInt32.toNat_ofNat', mask, Nat.and_two_pow_sub_one_eq_mod]
  unfold txBufSize at small
  omega

private theorem desc1Of_flags (p : Chain) : desc1Of p &&& 0xFFFFF800 = 0x60000000 := by
  have high : (0x60000000 : UInt32) &&& 0xFFFFF800 = 0x60000000 := by decide
  have none : (0x7FF : UInt32) &&& 0xFFFFF800 = 0 := by decide
  rw [desc1Of, or_mask, UInt32.and_assoc, high, none, UInt32.and_zero, UInt32.or_zero]

private theorem length_flatten (p : Chain) : p.bufs.flatten.length = p.totLen := by
  rw [List.length_flatten, p.sum]

private theorem setDesc_self (s : EmacTx) (i : Nat) (desc : DmaDesc) : s.setDesc i desc i = desc :=
  if_pos rfl

private theorem setDesc_other (s : EmacTx) {i j : Nat} (desc : DmaDesc) (other : j ≠ i) :
    s.setDesc i desc j = s.pool j := if_neg other

private theorem wired_setDesc (inv : Inv s) {i : Nat} {desc : DmaDesc}
    (desc2 : desc.desc2 = (s.pool i).desc2) (desc3 : desc.desc3 = (s.pool i).desc3) :
    ∀ j < emacDmaTxDescNum, (s.setDesc i desc j).desc2 = base j ∧
      (s.setDesc i desc j).desc3 = (j + 1) % emacDmaTxDescNum := by
  intro j inside
  by_cases same : j = i
  · subst same
    rw [setDesc_self, desc2, desc3]
    exact inv.wired j inside
  · rw [setDesc_other s desc same]
    exact inv.wired j inside

private theorem settled_written {frames : List Frame} (settled : Settled s frames)
    (ring : s'.pool = s.pool ∧ s'.index = s.index)
    (dma : s'.dma = s.dma ∧ s'.phase = s.phase ∧ s'.sent = s.sent)
    (written : ∀ j p, Written s j p → Written s' j p) : Settled s' frames := by
  obtain ⟨pool, index⟩ := ring
  obtain ⟨dma, phase, sent⟩ := dma
  rcases settled with rest | ⟨p, pending⟩
  · refine .inl ⟨?_, by rw [dma, index, rest.dma], by rw [phase, rest.phase],
      by rw [sent, rest.sent]⟩
    unfold OwnedOnly
    rw [pool]
    exact rest.owned
  · refine .inr ⟨p, ?_, by rw [dma]; exact pending.inside, by rw [index, dma, pending.index],
      by rw [pool, dma, pending.desc1], ?_, by rw [phase]; exact pending.phase,
      by rw [sent, pending.sent]⟩
    · unfold OwnedOnly
      rw [pool, dma]
      exact pending.owned
    · rw [dma]
      exact written s.dma p pending.written

private theorem settled_congr {frames : List Frame} (settled : Settled s frames)
    (ring : Leaves s s') (dma : s'.dma = s.dma ∧ s'.phase = s.phase ∧ s'.sent = s.sent) :
    Settled s' frames := by
  obtain ⟨pool, mem, cache, index⟩ := ring
  refine settled_written settled ⟨pool, index⟩ dma fun j p written => ?_
  unfold Written
  rw [mem, cache]
  exact written

private theorem rest_of_quiet {frames : List Frame} (settled : Settled s frames)
    (quiet : Quiet s.phase) : Rest s frames := by
  rcases settled with rest | ⟨p, pending⟩
  · exact rest
  · have phase := pending.phase
    rcases quiet with quiet | quiet
    · rw [quiet] at phase
      exact phase.elim
    · rw [quiet] at phase
      exact phase.elim

private theorem quiet_of_reads {regVal : UInt32} (reads : s.reads regVal = true)
    (idle : regVal = 0x00 ∨ regVal = 0x06) : Quiet s.phase := by
  unfold EmacTx.reads at reads
  unfold Quiet
  rcases phase : s.phase with _ | _ | _ | _ | _
  · exact .inl rfl
  · exact .inr rfl
  all_goals
    rw [phase] at reads
    obtain ⟨zero, six⟩ := of_decide_eq_true reads
    exact absurd idle (not_or.mpr ⟨zero, six⟩)

private theorem ownBit_set : ((0x80000000 : UInt32) &&& ownBit != 0) = true := by decide

private theorem ownedOnly_setDesc {owned : Option Nat} (only : OwnedOnly s owned) {i : Nat}
    {desc : DmaDesc} (pool : s'.pool = s.setDesc i desc)
    (desc0 : desc.desc0 = (s.pool i).desc0) : OwnedOnly s' owned := by
  intro j inside
  have same : (s.setDesc i desc j).owned = (s.pool j).owned := by
    by_cases here : j = i
    · rw [here, setDesc_self]
      exact congrArg (fun word : UInt32 => word &&& ownBit != 0) desc0
    · rw [setDesc_other s desc here]
  rw [pool, same]
  exact only j inside

private theorem ownedOnly_setOwn (only : OwnedOnly s none) {i : Nat}
    (pool : s'.pool = s.setDesc i { s.pool i with desc0 := 0x80000000 }) :
    OwnedOnly s' (some i) := by
  intro j inside
  rw [pool]
  by_cases here : j = i
  · rw [here, setDesc_self]
    exact iff_of_true ownBit_set rfl
  · rw [setDesc_other s _ here, only j inside]
    exact iff_of_false (Option.some_ne_none j).symm fun same => here (Option.some_inj.mp same).symm

section Driver

variable {regVal : UInt32}

private theorem inv_copy {q : List UInt8} {rest : List (List UInt8)} {offset : Nat} (inv : Inv s)
    (pc : s.pc = .copy p (q :: rest) offset) (step : s.driver regVal = some s') : Inv s' := by
  have stage := inv.stage
  rw [pc] at stage
  obtain ⟨filling, dma, small, done, split, length, copied⟩ := stage
  unfold EmacTx.driver at step
  rw [pc] at step
  cases step
  refine ⟨inv.index, inv.wired, ⟨filling.quiet, filling.owned, filling.sent⟩, dma, small,
    done ++ [q], ?_, ?_, ?_⟩
  · rw [split, List.append_assoc, List.singleton_append]
  · rw [List.flatten_append, List.length_append, length, List.flatten_singleton]
  · intro k inside
    rw [List.flatten_append, List.flatten_singleton]
    unfold EmacTx.view
    dsimp only
    by_cases before : k < offset
    · rw [if_neg (by omega), List.getD_append _ _ _ _ (length ▸ before)]
      exact copied k before
    · rw [if_pos (by omega), List.getD_append_right _ _ _ _ (by omega), ← length, Option.getD_some]
      congr 1
      omega

private theorem inv_copied {offset : Nat} (inv : Inv s) (pc : s.pc = .copy p [] offset)
    (step : s.driver regVal = some s') : Inv s' := by
  have stage := inv.stage
  rw [pc] at stage
  obtain ⟨filling, dma, small, done, split, length, copied⟩ := stage
  unfold EmacTx.driver at step
  rw [pc] at step
  cases step
  rw [List.append_nil] at split
  refine ⟨inv.index, inv.wired, ⟨filling.quiet, filling.owned, filling.sent⟩, dma, small, ?_, ?_⟩
  · rw [length, ← split, length_flatten]
  · rw [split]
    exact copied

private theorem inv_flush {offset : Nat} (inv : Inv s) (pc : s.pc = .flush p offset)
    (step : s.driver regVal = some s') : Inv s' := by
  have stage := inv.stage
  rw [pc] at stage
  obtain ⟨filling, dma, small, length, copied⟩ := stage
  unfold EmacTx.driver at step
  rw [pc] at step
  cases step
  refine ⟨inv.index, inv.wired, ⟨filling.quiet, filling.owned, filling.sent⟩, dma, length, small,
    fun k inside => ?_⟩
  dsimp only
  rw [if_pos (by omega), if_pos (by omega)]
  exact ⟨rfl, copied k (by omega)⟩

private theorem inv_setOwn {offset : Nat} (inv : Inv s) (pc : s.pc = .setOwn p offset)
    (step : s.driver regVal = some s') : Inv s' := by
  have stage := inv.stage
  rw [pc] at stage
  obtain ⟨filling, dma, length, written⟩ := stage
  unfold EmacTx.driver at step
  rw [pc] at step
  cases step
  exact ⟨inv.index, wired_setDesc inv rfl rfl,
    ⟨filling.quiet, ownedOnly_setOwn filling.owned rfl, filling.sent⟩, dma, length, written⟩

private theorem inv_setFlags {offset : Nat} (inv : Inv s) (pc : s.pc = .setFlags p offset)
    (step : s.driver regVal = some s') : Inv s' := by
  have stage := inv.stage
  rw [pc] at stage
  obtain ⟨filling, dma, length, written⟩ := stage
  unfold EmacTx.driver at step
  rw [pc] at step
  cases step
  refine ⟨inv.index, wired_setDesc inv rfl rfl,
    ⟨filling.quiet, ownedOnly_setDesc filling.owned rfl rfl, filling.sent⟩, dma, length, written,
    ?_⟩
  dsimp only
  rw [setDesc_self]

private theorem inv_setLength {offset : Nat} (inv : Inv s) (pc : s.pc = .setLength p offset)
    (step : s.driver regVal = some s') : Inv s' := by
  have stage := inv.stage
  rw [pc] at stage
  obtain ⟨filling, dma, length, written, flags⟩ := stage
  unfold EmacTx.driver at step
  rw [pc] at step
  cases step
  refine ⟨inv.index, wired_setDesc inv rfl rfl,
    ⟨filling.quiet, ownedOnly_setDesc filling.owned rfl rfl, filling.sent⟩, dma, written, ?_⟩
  dsimp only
  rw [setDesc_self, flags, length]
  rfl

private theorem inv_advance (inv : Inv s) (pc : s.pc = .advance p)
    (step : s.driver regVal = some s') : Inv s' := by
  have stage := inv.stage
  rw [pc] at stage
  obtain ⟨filling, dma, written, desc1⟩ := stage
  unfold EmacTx.driver at step
  rw [pc] at step
  cases step
  rw [← dma] at written desc1
  refine ⟨Nat.mod_lt _ (Nat.succ_pos 127), inv.wired, ⟨filling.quiet, ?_, filling.sent⟩,
    dma ▸ inv.index, ?_, written, desc1⟩
  · have owned := filling.owned
    rw [← dma] at owned
    exact owned
  · dsimp only
    rw [dma]

private theorem inv_readCtl (inv : Inv s) (pc : s.pc = .readCtl p)
    (step : s.driver regVal = some s') : Inv s' := by
  have stage := inv.stage
  rw [pc] at stage
  obtain ⟨filling, rest⟩ := stage
  unfold EmacTx.driver at step
  rw [pc] at step
  cases step
  exact ⟨inv.index, inv.wired, ⟨filling.quiet, filling.owned, filling.sent⟩, rest⟩

private theorem inv_writeCtl {value : UInt32} (inv : Inv s) (pc : s.pc = .writeCtl p value)
    (step : s.driver regVal = some s') : Inv s' := by
  have stage := inv.stage
  rw [pc] at stage
  obtain ⟨filling, inside, index, written, desc1⟩ := stage
  unfold EmacTx.driver at step
  rw [pc] at step
  cases step
  have going : EmacTx.doorbell s.phase = .fetch := by
    rcases filling.quiet with quiet | quiet
    · rw [quiet]
      rfl
    · rw [quiet]
      rfl
  refine ⟨inv.index, inv.wired, .inr ⟨p, filling.owned, inside, index, desc1, written, ?_, ?_⟩⟩
  · dsimp only
    rw [going]
    exact trivial
  · exact congrArg (· ++ [frameOf p]) filling.sent

private theorem inv_limit (inv : Inv s) (pc : s.pc = .limit p)
    (step : s.driver regVal = some s') : Inv s' := by
  have stage := inv.stage
  rw [pc] at stage
  unfold EmacTx.driver at step
  rw [pc] at step
  by_cases large : p.totLen > txBufSize
  · dsimp only at step
    rw [if_pos large] at step
    cases step
    exact ⟨inv.index, inv.wired, settled_congr stage ⟨rfl, rfl, rfl, rfl⟩ ⟨rfl, rfl, rfl⟩⟩
  · dsimp only at step
    rw [if_neg large] at step
    cases step
    exact ⟨inv.index, inv.wired, settled_congr stage ⟨rfl, rfl, rfl, rfl⟩ ⟨rfl, rfl, rfl⟩,
      Nat.not_lt.mp large⟩

private theorem inv_read {timeOut : Nat} (inv : Inv s)
    (stage : Settled s (accepted s) ∧ p.totLen ≤ txBufSize)
    (step : (if s.reads regVal then some { s with pc := .check p regVal timeOut } else none) =
      some s') : Inv s' := by
  by_cases reads : s.reads regVal = true
  · rw [if_pos reads] at step
    cases step
    exact ⟨inv.index, inv.wired, settled_congr stage.1 ⟨rfl, rfl, rfl, rfl⟩ ⟨rfl, rfl, rfl⟩,
      stage.2, fun idle => quiet_of_reads reads idle⟩
  · rw [if_neg reads] at step
    cases step

private theorem inv_check {value : UInt32} {timeOut : Nat} (inv : Inv s)
    (pc : s.pc = .check p value timeOut) (step : s.driver regVal = some s') : Inv s' := by
  have stage := inv.stage
  rw [pc] at stage
  obtain ⟨settled, small, idle⟩ := stage
  unfold EmacTx.driver at step
  rw [pc] at step
  dsimp only at step
  by_cases busy : (s.pool s.index).owned = true ∨ (value ≠ 0x00 ∧ value ≠ 0x06)
  · rw [if_pos busy] at step
    by_cases more : timeOut > 0
    · rw [if_pos more] at step
      cases step
      exact ⟨inv.index, inv.wired, settled_congr settled ⟨rfl, rfl, rfl, rfl⟩ ⟨rfl, rfl, rfl⟩,
        small⟩
    · rw [if_neg more] at step
      cases step
      exact ⟨inv.index, inv.wired, settled_congr settled ⟨rfl, rfl, rfl, rfl⟩ ⟨rfl, rfl, rfl⟩⟩
  · rw [if_neg busy] at step
    cases step
    have quiet : Quiet s.phase := by
      by_cases zero : value = 0x00
      · exact idle (.inl zero)
      · exact idle (.inr (not_not.mp fun six => busy (.inr ⟨zero, six⟩)))
    have rest := rest_of_quiet settled quiet
    exact ⟨inv.index, inv.wired, ⟨quiet, rest.owned, rest.sent⟩, rest.dma, small, [],
      (List.nil_append _).symm, rfl, fun k inside => absurd inside (Nat.not_lt_zero k)⟩

private theorem inv_return {ret : Int} {frames : List Frame} (inv : Inv s)
    (settled : Settled s frames)
    (same : frames = accepted s ++ if ret = 0 then [frameOf p] else []) :
    Inv { s with returned := s.returned ++ [(p, ret)], pc := .idle } := by
  have all : accepted { s with returned := s.returned ++ [(p, ret)], pc := .idle } = frames := by
    rw [same, accepted, accepted, List.filter_append, List.map_append]
    congr 1
    by_cases ok : ret = 0
    · rw [if_pos ok, List.filter_cons, if_pos (decide_eq_true ok)]
      rfl
    · rw [if_neg ok, List.filter_cons, if_neg (by simpa using ok)]
      rfl
  refine ⟨inv.index, inv.wired, ?_⟩
  change Settled _ (accepted _)
  rw [all]
  exact settled_congr settled ⟨rfl, rfl, rfl, rfl⟩ ⟨rfl, rfl, rfl⟩

theorem inv_driver (inv : Inv s) (step : s.driver regVal = some s') : Inv s' := by
  have stage := inv.stage
  rcases pc : s.pc with _ | p | p | ⟨p, value, timeOut⟩ | ⟨p, timeOut⟩ |
    ⟨p, _ | ⟨q, rest⟩, offset⟩ | ⟨p, offset⟩ | ⟨p, offset⟩ | ⟨p, offset⟩ | ⟨p, offset⟩ |
    p | p | ⟨p, value⟩ | p | p
  · unfold EmacTx.driver at step
    rw [pc] at step
    cases step
  · exact inv_limit inv pc step
  · unfold EmacTx.driver at step
    rw [pc] at step stage
    exact inv_read inv stage step
  · exact inv_check inv pc step
  · unfold EmacTx.driver at step
    rw [pc] at step stage
    exact inv_read inv stage step
  · exact inv_copied inv pc step
  · exact inv_copy inv pc step
  · exact inv_flush inv pc step
  · exact inv_setOwn inv pc step
  · exact inv_setFlags inv pc step
  · exact inv_setLength inv pc step
  · exact inv_advance inv pc step
  · exact inv_readCtl inv pc step
  · exact inv_writeCtl inv pc step
  · unfold EmacTx.driver at step
    rw [pc] at step stage
    cases step
    exact inv_return inv stage rfl
  · unfold EmacTx.driver at step
    rw [pc] at step stage
    cases step
    exact inv_return inv stage (List.append_nil _).symm

end Driver

/-- What the DMA leaves alone. -/
private structure Beside (s s' : EmacTx) : Prop where
  pc : s'.pc = s.pc
  index : s'.index = s.index
  returned : s'.returned = s.returned
  wired : ∀ i < emacDmaTxDescNum, (s'.pool i).desc2 = base i ∧
    (s'.pool i).desc3 = (i + 1) % emacDmaTxDescNum

private theorem rest_transmit {desc0 : UInt32} {frames : List Frame} (inv : Inv s)
    (rest : Rest s frames) (step : s.transmit desc0 = some s') :
    Rest s' frames ∧ Beside s s' := by
  have fresh := rest.phase
  unfold EmacTx.transmit at step
  rcases phase : s.phase with _ | _ | _ | _ | _
  · rw [phase] at step
    cases step
  · rw [phase] at step
    cases step
  · have free : ¬ (s.pool s.dma).owned = true := by
      intro owned
      have none := (rest.owned s.dma (rest.dma ▸ inv.index)).mp owned
      cases none
    rw [phase] at step
    dsimp only at step
    rw [if_neg free] at step
    cases step
    exact ⟨⟨rest.owned, rest.dma, rfl, rest.sent⟩, rfl, rfl, rfl, inv.wired⟩
  · rw [phase] at fresh
    cases fresh
  · rw [phase] at fresh
    cases fresh

private theorem pending_fetch {desc0 : UInt32} {frames : List Frame} (inv : Inv s)
    (pending : Pending s p frames) (phase : s.phase = .fetch)
    (step : s.transmit desc0 = some s') : Pending s' p frames ∧ Beside s s' := by
  have owned : (s.pool s.dma).owned = true := (pending.owned s.dma pending.inside).mpr rfl
  unfold EmacTx.transmit at step
  rw [phase] at step
  dsimp only at step
  rw [if_pos owned] at step
  cases step
  exact ⟨⟨pending.owned, pending.inside, pending.index, pending.desc1, pending.written,
    ⟨pending.desc1, Nat.zero_le _, rfl⟩, pending.sent⟩, rfl, rfl, rfl, inv.wired⟩

private theorem pending_reading {desc0 desc1 : UInt32} {got : List UInt8} {frames : List Frame}
    (inv : Inv s) (pending : Pending s p frames) (phase : s.phase = .reading desc1 got)
    (step : s.transmit desc0 = some s') : Pending s' p frames ∧ Beside s s' := by
  have sends := pending.phase
  rw [phase] at sends
  obtain ⟨word, bound, taken⟩ := sends
  obtain ⟨small, bytes⟩ := pending.written
  have size := length_flatten p
  unfold EmacTx.transmit at step
  rw [phase] at step
  dsimp only at step
  rw [word, desc1Of_length small] at step
  by_cases more : got.length < p.totLen
  · rw [if_pos more] at step
    cases step
    have next : s.mem ((s.pool s.dma).desc2 + got.length) = p.bufs.flatten[got.length] := by
      rw [(inv.wired s.dma pending.inside).1, (bytes got.length more).2,
        List.getD_eq_getElem _ _ (size ▸ more)]
    refine ⟨⟨pending.owned, pending.inside, pending.index, pending.desc1, pending.written,
      ⟨rfl, ?_, ?_⟩, pending.sent⟩, rfl, rfl, rfl, inv.wired⟩
    · rw [List.length_append]
      exact more
    · rw [List.length_append, List.length_singleton, List.take_succ_eq_append_getElem (size ▸ more),
        ← taken, next]
  · rw [if_neg more] at step
    cases step
    refine ⟨⟨pending.owned, pending.inside, pending.index, pending.desc1, pending.written,
      ⟨rfl, ?_⟩, pending.sent⟩, rfl, rfl, rfl, inv.wired⟩
    have all : got.length = p.bufs.flatten.length := by omega
    rw [taken, all, List.take_length]

private theorem pending_close {desc0 desc1 : UInt32} {got : List UInt8} {frames : List Frame}
    (inv : Inv s) (pending : Pending s p frames) (phase : s.phase = .close desc1 got)
    (step : s.transmit desc0 = some s') : Rest s' frames ∧ Beside s s' := by
  have sends := pending.phase
  rw [phase] at sends
  obtain ⟨word, all⟩ := sends
  unfold EmacTx.transmit at step
  rw [phase] at step
  dsimp only at step
  by_cases given : desc0 &&& ownBit = 0
  · rw [if_pos given] at step
    cases step
    refine ⟨⟨fun i inside => ?_, ?_, rfl, ?_⟩, rfl, rfl, rfl, wired_setDesc inv rfl rfl⟩
    · by_cases here : i = s.dma
      · subst here
        dsimp only
        rw [setDesc_self]
        refine iff_of_false ?_ (Option.some_ne_none _).symm
        change ¬ (desc0 &&& ownBit != 0) = true
        rw [given]
        decide
      · dsimp only
        rw [setDesc_other s _ here, pending.owned i inside]
        exact iff_of_false (fun same => here (Option.some_inj.mp same).symm)
          (Option.some_ne_none _).symm
    · dsimp only
      rw [(inv.wired s.dma pending.inside).2, pending.index]
    · dsimp only
      rw [word, desc1Of_flags, all]
      exact pending.sent
  · rw [if_neg given] at step
    cases step

private theorem settled_transmit {desc0 : UInt32} {frames : List Frame} (inv : Inv s)
    (settled : Settled s frames) (step : s.transmit desc0 = some s') :
    Settled s' frames ∧ Beside s s' := by
  rcases settled with rest | ⟨p, pending⟩
  · obtain ⟨rest, beside⟩ := rest_transmit inv rest step
    exact ⟨.inl rest, beside⟩
  · rcases phase : s.phase with _ | _ | _ | ⟨desc1, got⟩ | ⟨desc1, got⟩
    · have sends := pending.phase
      rw [phase] at sends
      exact sends.elim
    · have sends := pending.phase
      rw [phase] at sends
      exact sends.elim
    · obtain ⟨pending, beside⟩ := pending_fetch inv pending phase step
      exact ⟨.inr ⟨p, pending⟩, beside⟩
    · obtain ⟨pending, beside⟩ := pending_reading inv pending phase step
      exact ⟨.inr ⟨p, pending⟩, beside⟩
    · obtain ⟨rest, beside⟩ := pending_close inv pending phase step
      exact ⟨.inl rest, beside⟩

private theorem not_quiet {desc0 : UInt32} (step : s.transmit desc0 = some s') :
    ¬ Quiet s.phase := by
  unfold EmacTx.transmit at step
  rintro (quiet | quiet)
  · rw [quiet] at step
    cases step
  · rw [quiet] at step
    cases step

private theorem inv_dma {desc0 : UInt32} (inv : Inv s) (step : s.transmit desc0 = some s') :
    Inv s' := by
  have stage := inv.stage
  have moving := not_quiet step
  -- a call that fills a descriptor has found the DMA quiet
  have busy {owned : Option Nat} (filling : Filling s owned) : False := moving filling.quiet
  have moved {frames : List Frame} (settled : Settled s frames) := settled_transmit inv settled step
  suffices beside : Beside s s' ∧ Stage s' s.pc by
    obtain ⟨beside, after⟩ := beside
    refine ⟨beside.index ▸ inv.index, beside.wired, ?_⟩
    rw [beside.pc]
    exact after
  have frames (beside : Beside s s') : accepted s' = accepted s := by
    rw [accepted, beside.returned]
    rfl
  rcases pc : s.pc with _ | _ | _ | _ | _ | _ | _ | _ | _ | _ | _ | _ | _ | p | _
  all_goals rw [pc] at stage
  · obtain ⟨settled, beside⟩ := moved stage
    exact ⟨beside, by rw [Stage, frames beside]; exact settled⟩
  · obtain ⟨settled, beside⟩ := moved stage
    exact ⟨beside, by rw [Stage, frames beside]; exact settled⟩
  · obtain ⟨settled, beside⟩ := moved stage.1
    exact ⟨beside, by rw [Stage, frames beside]; exact ⟨settled, stage.2⟩⟩
  · obtain ⟨settled, beside⟩ := moved stage.1
    refine ⟨beside, ?_⟩
    rw [Stage, frames beside]
    exact ⟨settled, stage.2.1, fun idle => absurd (stage.2.2 idle) moving⟩
  · obtain ⟨settled, beside⟩ := moved stage.1
    exact ⟨beside, by rw [Stage, frames beside]; exact ⟨settled, stage.2⟩⟩
  · exact (busy stage.1).elim
  · exact (busy stage.1).elim
  · exact (busy stage.1).elim
  · exact (busy stage.1).elim
  · exact (busy stage.1).elim
  · exact (busy stage.1).elim
  · exact (busy stage.1).elim
  · exact (busy stage.1).elim
  · obtain ⟨settled, beside⟩ := moved stage
    refine ⟨beside, ?_⟩
    rw [Stage, frames beside]
    exact settled
  · obtain ⟨settled, beside⟩ := moved stage
    exact ⟨beside, by rw [Stage, frames beside]; exact settled⟩

private theorem inv_writeBack (inv : Inv s) {a : Nat} (s' : EmacTx) (same : s' = { s with
    mem := fun b => if b = a then s.view a else s.mem b
    cache := fun b => if b = a then none else s.cache b }) : Inv s' := by
  have stage := inv.stage
  have view : ∀ b, s'.view b = s.view b := by
    intro b
    rw [same]
    unfold EmacTx.view
    dsimp only
    by_cases here : b = a
    · rw [if_pos here, if_pos here, Option.getD_none, here]
    · rw [if_neg here, if_neg here]
  have written : ∀ j p, Written s j p → Written s' j p := by
    rintro j p ⟨small, bytes⟩
    refine ⟨small, fun k inside => ?_⟩
    obtain ⟨clean, byte⟩ := bytes k inside
    rw [same]
    dsimp only
    by_cases here : base j + k = a
    · rw [if_pos here, if_pos here, ← here, ← byte]
      refine ⟨rfl, ?_⟩
      rw [EmacTx.view, clean, Option.getD_none]
    · rw [if_neg here, if_neg here]
      exact ⟨clean, byte⟩
  have settled {frames : List Frame} (settled : Settled s frames) : Settled s' frames :=
    settled_written settled (by rw [same]; exact ⟨rfl, rfl⟩) (by rw [same]; exact ⟨rfl, rfl, rfl⟩)
      written
  have filling {owned : Option Nat} (filling : Filling s owned) : Filling s' owned := by
    rw [same]
    exact ⟨filling.quiet, filling.owned, filling.sent⟩
  suffices after : Stage s' s.pc by
    refine ⟨?_, ?_, ?_⟩
    · rw [same]
      exact inv.index
    · rw [same]
      exact inv.wired
    · have pc : s'.pc = s.pc := by rw [same]
      rw [pc]
      exact after
  have frames : accepted s' = accepted s := by rw [same]; rfl
  have index : s'.index = s.index := by rw [same]
  have dma : s'.dma = s.dma := by rw [same]
  have pool : s'.pool = s.pool := by rw [same]
  have phase : s'.phase = s.phase := by rw [same]
  rcases pc : s.pc with _ | _ | _ | _ | _ | _ | _ | _ | _ | _ | _ | _ | _ | _ | _
  all_goals rw [pc] at stage
  all_goals simp only [Stage, frames, index, dma, pool, phase, view] at stage ⊢
  · exact settled stage
  · exact settled stage
  · exact ⟨settled stage.1, stage.2⟩
  · exact ⟨settled stage.1, stage.2⟩
  · exact ⟨settled stage.1, stage.2⟩
  · exact ⟨filling stage.1, stage.2⟩
  · exact ⟨filling stage.1, stage.2⟩
  · exact ⟨filling stage.1, stage.2.1, stage.2.2.1, written _ _ stage.2.2.2⟩
  · exact ⟨filling stage.1, stage.2.1, stage.2.2.1, written _ _ stage.2.2.2⟩
  · exact ⟨filling stage.1, stage.2.1, stage.2.2.1, written _ _ stage.2.2.2.1, stage.2.2.2.2⟩
  · exact ⟨filling stage.1, stage.2.1, written _ _ stage.2.2.1, stage.2.2.2⟩
  · exact ⟨filling stage.1, stage.2.1, stage.2.2.1, written _ _ stage.2.2.2.1, stage.2.2.2.2⟩
  · exact ⟨filling stage.1, stage.2.1, stage.2.2.1, written _ _ stage.2.2.2.1, stage.2.2.2.2⟩
  · exact settled stage
  · exact settled stage

theorem inv_step {e : Event} (inv : Inv s) (step : s.step e = some s') : Inv s' := by
  cases e with
  | call p =>
    have stage := inv.stage
    unfold EmacTx.step at step
    rcases pc : s.pc with _ | _ | _ | _ | _ | _ | _ | _ | _ | _ | _ | _ | _ | _ | _
    all_goals rw [pc] at step stage
    · cases step
      exact ⟨inv.index, inv.wired, settled_congr stage ⟨rfl, rfl, rfl, rfl⟩ ⟨rfl, rfl, rfl⟩⟩
    all_goals cases step
  | driver regVal => exact inv_driver inv step
  | dma desc0 => exact inv_dma inv step
  | writeBack a =>
    cases step
    exact inv_writeBack inv _ rfl

section Writes

variable {regVal : UInt32}

/-- The statements from which a call can still fail. -/
def Open : Pc → Prop
  | .limit _ | .readStatus _ | .check .. | .poll .. | .fail _ => True
  | _ => False

theorem leaves_open (step : s.driver regVal = some s') (opens : Open s.pc) : Leaves s s' := by
  unfold EmacTx.driver at step
  rcases pc : s.pc with _ | _ | _ | _ | _ | _ | _ | _ | _ | _ | _ | _ | _ | _ | _
  all_goals rw [pc] at step opens
  all_goals try exact opens.elim
  · cases step
    exact ⟨rfl, rfl, rfl, rfl⟩
  · dsimp only at step
    split at step
    · cases step
      exact ⟨rfl, rfl, rfl, rfl⟩
    · cases step
  · cases step
    exact ⟨rfl, rfl, rfl, rfl⟩
  · dsimp only at step
    split at step
    · cases step
      exact ⟨rfl, rfl, rfl, rfl⟩
    · cases step
  · cases step
    exact ⟨rfl, rfl, rfl, rfl⟩

theorem open_back (step : s.driver regVal = some s') (opens : Open s'.pc) : Open s.pc := by
  unfold EmacTx.driver at step
  rcases pc : s.pc with _ | _ | _ | _ | _ | ⟨_, _ | _, _⟩ | _ | _ | _ | _ | _ | _ | _ | _ | _
  all_goals rw [pc] at step
  all_goals try exact trivial
  all_goals
    cases step
    try exact opens.elim

private theorem careful_leaves (pool : s'.pool = s.pool) (mem : s'.mem = s.mem)
    (cache : s'.cache = s.cache) : Careful s s' := by
  intro i _ _
  rw [pool, mem, cache]
  exact ⟨.inl rfl, fun _ _ _ => ⟨rfl, rfl⟩⟩

private theorem careful_none (filling : Filling s none) : Careful s s' := by
  intro i inside owned
  have none := (filling.owned i inside).mp owned
  cases none

private theorem careful_own {desc1 : UInt32} (filling : Filling s (some s.index))
    (sets : completes s.pc = true)
    (pool : s'.pool = s.setDesc s.index { s.pool s.index with desc1 := desc1 })
    (mem : s'.mem = s.mem) (cache : s'.cache = s.cache) : Careful s s' := by
  intro i inside owned
  obtain rfl : s.index = i := Option.some_inj.mp ((filling.owned i inside).mp owned)
  rw [mem, cache]
  refine ⟨.inr ⟨sets, rfl, filling.quiet, ?_⟩, fun _ _ _ => ⟨rfl, rfl⟩⟩
  rw [pool, setDesc_self]

theorem careful_driver (inv : Inv s) (step : s.driver regVal = some s') : Careful s s' := by
  have stage := inv.stage
  by_cases opens : Open s.pc
  · obtain ⟨pool, mem, cache, -⟩ := leaves_open step opens
    exact careful_leaves pool mem cache
  · unfold EmacTx.driver at step
    rcases pc : s.pc with _ | _ | _ | _ | _ | ⟨_, _ | _, _⟩ | _ | _ | _ | _ | _ | _ | _ | _ | _
    all_goals rw [pc] at step stage opens
    all_goals try exact absurd trivial opens
    · cases step
    · exact careful_none stage.1
    · exact careful_none stage.1
    · exact careful_none stage.1
    · exact careful_none stage.1
    · cases step
      exact careful_own stage.1 (by rw [pc]; rfl) rfl rfl rfl
    · cases step
      exact careful_own stage.1 (by rw [pc]; rfl) rfl rfl rfl
    · cases step
      exact careful_leaves rfl rfl rfl
    · cases step
      exact careful_leaves rfl rfl rfl
    · cases step
      exact careful_leaves rfl rfl rfl
    · cases step
      exact careful_leaves rfl rfl rfl

end Writes

/-- No other call begins. -/
def InCall : Event → Prop
  | .call _ => False
  | _ => True

/-- What holds in every state: where the index is, which frames have been sent, what the next
statement may write, and that a call that comes to its error return has written nothing. -/
structure Correct (s : EmacTx) : Prop where
  index : s.index < emacDmaTxDescNum
  sent : ∃ queue, queue.length ≤ 1 ∧ s.sent ++ queue = transmitted s ∧
    (Quiet s.phase → queue = [])
  careful : ∀ regVal s', s.driver regVal = some s' → Careful s s'
  failing : ∀ events s', (∀ e ∈ events, InCall e) → run EmacTx.step s events = some s' →
    (∃ p, s'.pc = .fail p) → Along EmacTx.step (fun t e => ∀ regVal t',
      e = .driver regVal → t.driver regVal = some t' → Leaves t t') s events

private theorem sent_settled {frames : List Frame} (settled : Settled s frames) :
    ∃ queue, queue.length ≤ 1 ∧ s.sent ++ queue = frames ∧ (Quiet s.phase → queue = []) := by
  rcases settled with rest | ⟨p, pending⟩
  · exact ⟨[], Nat.zero_le 1, by rw [List.append_nil, rest.sent], fun _ => rfl⟩
  · refine ⟨[frameOf p], Nat.le_refl 1, pending.sent, fun quiet => ?_⟩
    have phase := pending.phase
    rcases quiet with quiet | quiet
    · rw [quiet] at phase
      exact phase.elim
    · rw [quiet] at phase
      exact phase.elim

private theorem sent_filling {owned : Option Nat} (filling : Filling s owned) :
    ∃ queue, queue.length ≤ 1 ∧ s.sent ++ queue = accepted s ∧ (Quiet s.phase → queue = []) :=
  ⟨[], Nat.zero_le 1, by rw [List.append_nil, filling.sent], fun _ => rfl⟩

private theorem sent_of_inv (inv : Inv s) : ∃ queue, queue.length ≤ 1 ∧
    s.sent ++ queue = transmitted s ∧ (Quiet s.phase → queue = []) := by
  have stage := inv.stage
  unfold transmitted
  rcases pc : s.pc with _ | _ | _ | _ | _ | _ | _ | _ | _ | _ | _ | _ | _ | _ | _
  all_goals rw [pc] at stage
  · exact sent_settled stage
  · exact sent_settled stage
  · exact sent_settled stage.1
  · exact sent_settled stage.1
  · exact sent_settled stage.1
  · exact sent_filling stage.1
  · exact sent_filling stage.1
  · exact sent_filling stage.1
  · exact sent_filling stage.1
  · exact sent_filling stage.1
  · exact sent_filling stage.1
  · exact sent_filling stage.1
  · exact sent_filling stage.1
  · exact sent_settled stage
  · exact sent_settled stage

private theorem open_step {e : Event} (step : s.step e = some s') (inside : InCall e)
    (opens : Open s'.pc) : Open s.pc := by
  cases e with
  | call p => exact inside.elim
  | driver regVal => exact open_back step opens
  | dma desc0 =>
    have same : s'.pc = s.pc := by
      change s.transmit desc0 = some s' at step
      unfold EmacTx.transmit at step
      split at step
      · cases step
      · cases step
      · cases step
        rfl
      · split at step
        · cases step
          rfl
        · cases step
          rfl
      · split at step
        · cases step
          rfl
        · cases step
    exact same ▸ opens
  | writeBack a =>
    cases step
    exact opens

private theorem open_run {events : List Event} (inside : ∀ e ∈ events, InCall e)
    (reached : run EmacTx.step s events = some s') (opens : Open s'.pc) : Open s.pc := by
  induction events generalizing s with
  | nil =>
    cases reached
    exact opens
  | cons e events ih =>
    obtain ⟨mid, first, rest⟩ := Option.bind_eq_some_iff.mp reached
    obtain ⟨here, later⟩ := List.forall_mem_cons.mp inside
    exact open_step first here (ih later rest)

private theorem failing_run {events : List Event} (inside : ∀ e ∈ events, InCall e)
    (reached : run EmacTx.step s events = some s') (opens : Open s'.pc) :
    Along EmacTx.step (fun t e => ∀ regVal t',
      e = .driver regVal → t.driver regVal = some t' → Leaves t t') s events := by
  induction events generalizing s with
  | nil => exact trivial
  | cons e events ih =>
    have here := open_run inside reached opens
    obtain ⟨mid, first, rest⟩ := Option.bind_eq_some_iff.mp reached
    refine ⟨fun regVal t' _ step => leaves_open step here, fun mid' again => ?_⟩
    rw [first] at again
    cases again
    exact ih (List.forall_mem_cons.mp inside).2 rest

theorem correct_of_inv (inv : Inv s) : Correct s where
  index := inv.index
  sent := sent_of_inv inv
  careful _ _ step := careful_driver inv step
  failing events s' inside reached fails := by
    obtain ⟨p, pc⟩ := fails
    exact failing_run inside reached (by rw [pc]; exact trivial)

/-- Whatever calls there are and whatever the DMA and the cache do in between. -/
theorem transmit_correct (mem : Nat → UInt8) (cache : Nat → Option UInt8) (ctl1 : UInt32)
    {phase : Phase} (fresh : phase.fresh = true) (events : List Event) :
    Always EmacTx.step Correct (started mem cache ctl1 phase) events := by
  intro n s reached
  exact correct_of_inv (run_invariant Inv inv_step (inv_started mem cache ctl1 fresh) reached)

/-- A chain of one byte. -/
def oneByte : Chain := ⟨[[0x55]], 1, rfl⟩

/-- The driver behind its initialisation, with zeros in the buffers and a DMA that is stopped. -/
def blank : EmacTx := started (fun _ => 0) (fun _ => none) 0 .stopped

/-- A call with one byte, up to before its statement that writes the flags. -/
def called : List Event := [.call oneByte, .driver 0, .driver 0, .driver 0, .driver 0, .driver 0,
  .driver 0, .driver 0]

/-- The rest of the call, and the DMA. -/
def completed : List Event := [.driver 0, .driver 0, .driver 0, .driver 0, .driver 0, .driver 0,
  .dma 0, .dma 0, .dma 0, .dma 0, .dma 0]

theorem transmit_correct_oneByte : ∃ s, run EmacTx.step blank (called ++ completed) = some s ∧
    s.sent = [frameOf oneByte] ∧ Correct s := by
  have all : (run EmacTx.step blank (called ++ completed)).map EmacTx.sent =
      some [frameOf oneByte] := by decide +kernel
  obtain ⟨s, reached, sent⟩ := Option.map_eq_some_iff.mp all
  have fresh : Phase.stopped.fresh = true := rfl
  have correct := transmit_correct (fun _ => 0) (fun _ => none) 0 fresh (called ++ completed)
  refine ⟨s, reached, sent, correct (called ++ completed).length s ?_⟩
  rw [List.take_length]
  exact reached

/-- The call sets OWN and then writes the flags into the same descriptor. -/
theorem flags_behind_own : ∃ s s', run EmacTx.step blank called = some s ∧
    s.driver 0 = some s' ∧ (s.pool 0).owned = true ∧ (s.pool 0).desc1 = 0 ∧
    (s'.pool 0).desc1 = 0x60000000 ∧ ¬ NoOverwrite s s' := by
  refine ⟨_, _, rfl, rfl, rfl, rfl, rfl, ?_⟩
  intro kept
  have word := congrArg DmaDesc.desc1 (kept 0 (Nat.succ_pos 127) rfl).1
  revert word
  decide

end T113Boot.Drivers.TransmitRing
