/- Module: T113Boot/Drivers/SpiInvariant
   layer: results
   digest: What holds in every state of an SPI transfer, whoever takes the next step. -/

import T113Boot.Drivers.SpiTransfer
import T113Boot.Lib.Flags
import T113Boot.Lib.Runs

set_option autoImplicit false
set_option relaxedAutoImplicit false

namespace T113Boot.Drivers.SpiInvariant

open T113Boot.Lib.Cells
open T113Boot.Lib.Flags
open T113Boot.Lib.Runs
open T113Boot.Drivers.SpiTransfer

variable {s s' : Spi}

/-- A message that the driver may be given. -/
structure WellFormed (msg : TransMsg) : Prop where
  tx : msg.txBuf ≠ 0
  rx : 0 < msg.rxLen → msg.rxBuf ≠ 0
  fits : msg.txLen.toNat + msg.rxLen.toNat + msg.dummylen.toNat < 2 ^ 24

/-- The bytes to be sent of a message. -/
def txBytes (m : Mem) (msg : TransMsg) : List UInt8 := slice m msg.txBuf msg.txLen.toNat

/-- The call has returned, with this value. -/
def Returns (s : Spi) (r : Int) : Prop := s.pc = .ret r

/-- The receive FIFO has overflowed. -/
def Lost (s : Spi) : Prop := Has s.isr spiRxOvf

def Erring (s : Spi) : Prop := Has s.isr irqErrors

/-- The transfer has ended, and all its bytes are there. -/
def AllIn (s : Spi) : Prop := Has s.isr spiTc ∧ ¬ Lost s

theorem Lost.erring (lost : Lost s) : Erring s :=
  Has.of_within (by decide) lost

/-- A call: the memory that it finds, the bytes it has to send, the buffer it has to fill, and how
many bytes the controller will receive. -/
structure Plan where
  mem : Mem
  goal : List UInt8
  rxBuf : Nat
  rxLen : Nat
  total : Nat
  enough : rxLen ≤ total

variable {P : Plan}

/-- The buffer holds `k` bytes, and unless one was lost they are the first to have arrived. -/
def Stored (P : Plan) (s : Spi) (k : Nat) : Prop := k ≤ P.rxLen ∧
  (∀ a, a < P.rxBuf ∨ P.rxBuf + k ≤ a → s.mem a = P.mem a) ∧
  (¬ Lost s → s.received = slice s.mem P.rxBuf k ++ s.rxFifo)

/-- The counter and the pointer agree with it, but for the steps that are still to be done. -/
def At (P : Plan) (s : Spi) (count move : Nat) : Prop := ∃ k, Stored P s k ∧
  s.rxLen.toNat + k = P.rxLen + count ∧ s.rxOffset + move = P.rxBuf + k

/-- What the handler knows by the flags it has read. -/
def Snapshot (s : Spi) (irqState : UInt32) : Prop :=
  ¬ Has irqState irqErrors ∧ (Has irqState spiTc → AllIn s)

/-- Of the bytes counted so many are left, and of the whole message, if it has ended, not more. -/
def Left (s : Spi) (irqState : UInt32) (fifo missing : Nat) : Prop :=
  fifo ≤ s.rxFifo.length ∧ (Has irqState spiTc → s.rxLen.toNat ≤ missing)

/-- What holds before a statement of the handler. -/
def Handles (P : Plan) (s : Spi) : Option Irq → Prop
  | none | some .busy | some .readIsr => At P s 0 0
  | some .fail => At P s 0 0 ∧ Erring s
  | some (.readCount irqState) => At P s 0 0 ∧ Snapshot s irqState
  | some (.loop irqState byteCnt i) => At P s 0 0 ∧ Snapshot s irqState ∧
      Left s irqState (byteCnt - i) (byteCnt - i)
  | some (.poll irqState byteCnt i pollTime) => At P s 0 0 ∧ Snapshot s irqState ∧
      Left s irqState (byteCnt - i) (byteCnt - i) ∧ i < byteCnt ∧ s.rxLen > 0 ∧ 0 < pollTime
  | some (.take irqState byteCnt i) => At P s 0 0 ∧ Snapshot s irqState ∧
      Left s irqState (byteCnt - i) (byteCnt - i) ∧ i < byteCnt ∧ s.rxLen > 0
  | some (.shrink irqState byteCnt i) => At P s 1 1 ∧ Snapshot s irqState ∧
      Left s irqState (byteCnt - (i + 1)) (byteCnt - i) ∧ i < byteCnt
  | some (.advance irqState byteCnt i) => At P s 0 1 ∧ Snapshot s irqState ∧
      Left s irqState (byteCnt - (i + 1)) (byteCnt - (i + 1))
  | some (.finish irqState) => At P s 0 0 ∧ Snapshot s irqState ∧ Left s irqState 0 0

/-- The messages still to be sent. -/
def later (m : Mem) (msgs : List TransMsg) : List UInt8 := msgs.flatMap (txBytes m)

/-- The same before the start: with no message to be loaded, the buffer that is already set. -/
def todo (m : Mem) (txOffset : Nat) (txLen : UInt32) : List TransMsg → List UInt8
  | [] => slice m txOffset txLen.toNat
  | msg :: rest => later m (msg :: rest)

/-- What is pushed and what is left is the goal. -/
def Sends (P : Plan) (s : Spi) : Pc → Prop
  | .umask msgs | .setBusy msgs | .startXfer msgs =>
      s.pushed ++ todo P.mem s.txOffset s.txLen msgs = P.goal
  | .load msg rest => s.pushed ++ later P.mem (msg :: rest) = P.goal
  | .write rest =>
      s.pushed ++ (slice P.mem s.txOffset s.txLen.toNat ++ later P.mem rest) = P.goal
  | .poll rest _ =>
      s.pushed ++ (slice P.mem s.txOffset s.txLen.toNat ++ later P.mem rest) = P.goal ∧
        s.txLen ≠ 0
  | .push rest =>
      s.pushed ++ (slice P.mem s.txOffset s.txLen.toNat ++ later P.mem rest) = P.goal ∧
        s.txLen ≠ 0 ∧ s.txFifo.length < fifoSize
  | .shrink rest =>
      s.pushed ++ (slice P.mem (s.txOffset + 1) (s.txLen - 1).toNat ++ later P.mem rest) = P.goal
  | .advance rest =>
      s.pushed ++ (slice P.mem (s.txOffset + 1) s.txLen.toNat ++ later P.mem rest) = P.goal
  | .wait | .disable | .mask | .check => s.pushed = P.goal
  | .abort | .abortMask => True
  | .ret r => r = 0 ∧ s.pushed = P.goal ∨ r = -1

/-- The transfer has ended and every byte of it is stored. -/
def Finished (s : Spi) : Prop := AllIn s ∧ s.rxLen = 0

/-- `spi_state` says nothing untrue. -/
def Honest (s : Spi) : Prop :=
  (s.spiState = .idle → Finished s) ∧ (s.spiState = .error → Erring s)

/-- `spi_state` is the error, or will be when a handler that stands here is done. -/
def Fails (spiState : SpiState) : Option Irq → Prop
  | none | some .busy => spiState = .error
  | some .readIsr | some .fail => True
  | _ => False

def Failing (s : Spi) : Prop := Erring s ∧ Fails s.spiState s.handler

/-- What the caller can rely on. -/
def Watch (s : Spi) : Pc → Prop
  | .umask _ | .setBusy _ => True
  | .disable | .mask | .check => Honest s ∧ (Finished s ∨ Failing s)
  | .ret r => r = 0 → Finished s
  | _ => Honest s

/-- The interrupt and the controller as the call sets them. -/
def Armed (s : Spi) : Pc → Prop
  | .umask _ => Has s.ier spiRxOvf ∧ s.xch = false ∧ ¬ Lost s ∧ ¬ Has s.isr spiTc
  | .setBusy _ | .startXfer _ => s.masked = false ∧ Has s.ier spiRxOvf ∧ s.xch = false ∧
      ¬ Lost s ∧ ¬ Has s.isr spiTc
  | .mask | .abortMask => True
  | .check | .ret _ => s.masked = true ∧ s.handler = none
  | _ => s.masked = false ∧ Has s.ier spiRxOvf

/-- What holds wherever the caller stands. -/
structure Core (P : Plan) (s : Spi) : Prop where
  total : s.rxTotal = P.total
  first : 0 < P.rxLen → P.goal.length ≤ burst s.mtc
  early : s.rxFifo ≠ [] ∨ Lost s → burst s.mtc ≤ s.pushed.length
  untouched : s.mem = P.mem ∨ P.goal.length ≤ s.pushed.length
  ended : Has s.isr spiTc → s.xch = false ∧ s.received.length = s.rxTotal
  handles : Handles P s s.handler

structure Inv (P : Plan) (s : Spi) : Prop where
  core : Core P s
  sends : Sends P s s.pc
  watch : Watch s s.pc
  armed : Armed s s.pc

/-- A step that is none of the handler: bytes may arrive and flags be raised. -/
structure Grows (s s' : Spi) : Prop where
  handler : s'.handler = s.handler
  mem : s'.mem = s.mem
  rxLen : s'.rxLen = s.rxLen
  rxOffset : s'.rxOffset = s.rxOffset
  fifo : s.rxFifo.length ≤ s'.rxFifo.length
  kept : ¬ Lost s' → ¬ Lost s ∧ ∃ more,
    s'.received = s.received ++ more ∧ s'.rxFifo = s.rxFifo ++ more
  erring : Erring s → Erring s'
  allIn : AllIn s → AllIn s'

private theorem kept_still (whole : ¬ Lost s) : ¬ Lost s ∧ ∃ more,
    s.received = s.received ++ more ∧ s.rxFifo = s.rxFifo ++ more :=
  ⟨whole, [], (List.append_nil _).symm, (List.append_nil _).symm⟩

private theorem at_grows (grows : Grows s s') {count move : Nat} (h : At P s count move) :
    At P s' count move := by
  obtain ⟨k, ⟨small, outside, kept⟩, counter, pointer⟩ := h
  refine ⟨k, ⟨small, ?_, ?_⟩, ?_, ?_⟩
  · rw [grows.mem]
    exact outside
  · intro whole
    obtain ⟨before, more, received, fifo⟩ := grows.kept whole
    rw [received, fifo, kept before, grows.mem, List.append_assoc]
  · rw [grows.rxLen]
    exact counter
  · rw [grows.rxOffset]
    exact pointer

private theorem snapshot_grows (grows : Grows s s') {irqState : UInt32}
    (h : Snapshot s irqState) : Snapshot s' irqState :=
  ⟨h.1, fun ended => grows.allIn (h.2 ended)⟩

private theorem left_grows (grows : Grows s s') {irqState : UInt32} {fifo missing : Nat}
    (h : Left s irqState fifo missing) : Left s' irqState fifo missing := by
  refine ⟨Nat.le_trans h.1 grows.fifo, fun ended => ?_⟩
  rw [grows.rxLen]
  exact h.2 ended

theorem handles_grows (grows : Grows s s') {h : Option Irq} (handles : Handles P s h) :
    Handles P s' h := by
  have keep {irqState : UInt32} {fifo missing count move : Nat}
      (before : At P s count move ∧ Snapshot s irqState ∧ Left s irqState fifo missing) :
      At P s' count move ∧ Snapshot s' irqState ∧ Left s' irqState fifo missing :=
    ⟨at_grows grows before.1, snapshot_grows grows before.2.1, left_grows grows before.2.2⟩
  match h with
  | none | some .busy | some .readIsr => exact at_grows grows handles
  | some .fail => exact ⟨at_grows grows handles.1, grows.erring handles.2⟩
  | some (.readCount irqState) =>
    exact ⟨at_grows grows handles.1, snapshot_grows grows handles.2⟩
  | some (.loop irqState byteCnt i) => exact keep handles
  | some (.advance irqState byteCnt i) => exact keep handles
  | some (.finish irqState) => exact keep handles
  | some (.poll irqState byteCnt i pollTime) =>
    obtain ⟨place, snapshot, left, inside, open_, time⟩ := handles
    obtain ⟨place, snapshot, left⟩ := keep ⟨place, snapshot, left⟩
    exact ⟨place, snapshot, left, inside, by rw [grows.rxLen]; exact open_, time⟩
  | some (.take irqState byteCnt i) =>
    obtain ⟨place, snapshot, left, inside, open_⟩ := handles
    obtain ⟨place, snapshot, left⟩ := keep ⟨place, snapshot, left⟩
    exact ⟨place, snapshot, left, inside, by rw [grows.rxLen]; exact open_⟩
  | some (.shrink irqState byteCnt i) =>
    obtain ⟨place, snapshot, left, inside⟩ := handles
    obtain ⟨place, snapshot, left⟩ := keep ⟨place, snapshot, left⟩
    exact ⟨place, snapshot, left, inside⟩

private theorem finished_grows (grows : Grows s s') (h : Finished s) : Finished s' := by
  refine ⟨grows.allIn h.1, ?_⟩
  rw [grows.rxLen]
  exact h.2

private theorem honest_grows (grows : Grows s s') (same : s'.spiState = s.spiState)
    (h : Honest s) : Honest s' := by
  unfold Honest
  rw [same]
  exact ⟨fun idle => finished_grows grows (h.1 idle), fun error => grows.erring (h.2 error)⟩

private theorem failing_grows (grows : Grows s s') (same : s'.spiState = s.spiState)
    (h : Failing s) : Failing s' := by
  unfold Failing
  rw [grows.handler, same]
  exact ⟨grows.erring h.1, h.2⟩

theorem watch_imp (honest : Honest s → Honest s') (finished : Finished s → Finished s')
    (failing : Failing s → Failing s') {pc : Pc} (watch : Watch s pc) : Watch s' pc := by
  cases pc with
  | umask | setBusy => trivial
  | disable | mask | check => exact ⟨honest watch.1, watch.2.imp finished failing⟩
  | ret r => exact fun zero => finished (watch zero)
  | startXfer | load | write | poll | push | shrink | advance | wait | abort | abortMask =>
    exact honest watch

theorem watch_grows (grows : Grows s s') (same : s'.spiState = s.spiState) {pc : Pc}
    (watch : Watch s pc) : Watch s' pc :=
  watch_imp (honest_grows grows same) (finished_grows grows) (failing_grows grows same) watch

theorem sends_congr (pushed : s'.pushed = s.pushed)
    (handle : s'.txOffset = s.txOffset ∧ s'.txLen = s.txLen)
    (room : s'.txFifo.length ≤ s.txFifo.length) {pc : Pc} (sends : Sends P s pc) :
    Sends P s' pc := by
  unfold Sends at sends ⊢
  rw [pushed, handle.1, handle.2]
  cases pc with
  | push rest => exact ⟨sends.1, sends.2.1, Nat.lt_of_le_of_lt room sends.2.2⟩
  | _ => exact sends

theorem armed_congr (same : s'.masked = s.masked ∧ s'.ier = s.ier)
    (gone : s.masked = true → s.handler = none → s'.handler = none)
    (rest : s.xch = false →
      s'.xch = false ∧ (Lost s' → Lost s) ∧ (Has s'.isr spiTc → Has s.isr spiTc))
    {pc : Pc} (armed : Armed s pc) : Armed s' pc := by
  have quiet (h : s.xch = false ∧ ¬ Lost s ∧ ¬ Has s.isr spiTc) :
      s'.xch = false ∧ ¬ Lost s' ∧ ¬ Has s'.isr spiTc :=
    ⟨(rest h.1).1, fun lost => h.2.1 ((rest h.1).2.1 lost),
      fun ended => h.2.2 ((rest h.1).2.2 ended)⟩
  unfold Armed at armed ⊢
  rw [same.1, same.2]
  cases pc with
  | umask => exact ⟨armed.1, quiet armed.2⟩
  | setBusy | startXfer => exact ⟨armed.1, armed.2.1, quiet armed.2.2⟩
  | check | ret => exact ⟨armed.1, gone armed.1 armed.2⟩
  | _ => exact armed

private theorem inv_controller (inv : Inv P s) (grows : Grows s s')
    (caller : s'.pc = s.pc ∧ s'.spiState = s.spiState ∧ s'.txOffset = s.txOffset ∧
      s'.txLen = s.txLen ∧ s'.masked = s.masked)
    (registers : s'.ier = s.ier ∧ s'.mbc = s.mbc ∧ s'.mtc = s.mtc ∧ s'.dummylen = s.dummylen)
    (pushed : s'.pushed = s.pushed) (room : s'.txFifo.length ≤ s.txFifo.length)
    (early : s'.rxFifo ≠ [] ∨ Lost s' → burst s.mtc ≤ s.pushed.length)
    (ended : Has s'.isr spiTc → s'.xch = false ∧ s'.received.length = s.rxTotal)
    (rest : s.xch = false →
      s'.xch = false ∧ (Lost s' → Lost s) ∧ (Has s'.isr spiTc → Has s.isr spiTc)) : Inv P s' := by
  obtain ⟨core, sends, watch, armed⟩ := inv
  obtain ⟨pc, state, txOffset, txLen, masked⟩ := caller
  obtain ⟨ier, mbc, mtc, dummylen⟩ := registers
  have total : s'.rxTotal = s.rxTotal := by
    unfold Spi.rxTotal
    rw [mbc, mtc, dummylen]
  refine ⟨⟨?_, ?_, ?_, ?_, ?_, ?_⟩, ?_, ?_, ?_⟩
  · rw [total]
    exact core.total
  · rw [mtc]
    exact core.first
  · rw [mtc, pushed]
    exact early
  · rw [grows.mem, pushed]
    exact core.untouched
  · rw [total]
    exact ended
  · rw [grows.handler]
    exact handles_grows grows core.handles
  · rw [pc]
    exact sends_congr pushed ⟨txOffset, txLen⟩ room sends
  · rw [pc]
    exact watch_grows grows state watch
  · rw [pc]
    exact armed_congr ⟨masked, ier⟩ (fun _ gone => grows.handler.trans gone) rest armed

theorem inv_send (inv : Inv P s) (step : s.send = some s') : Inv P s' := by
  unfold Spi.send at step
  rcases fifo : s.txFifo with _ | ⟨byte, rest⟩
  · rw [fifo] at step
    cases step
  rw [fifo] at step
  dsimp only at step
  split at step
  · cases step
    refine inv_controller inv ⟨rfl, rfl, rfl, rfl, Nat.le_refl _, kept_still, id, id⟩
      ⟨rfl, rfl, rfl, rfl, rfl⟩ ⟨rfl, rfl, rfl, rfl⟩ ?_ ?_ inv.core.early inv.core.ended
      (fun still => ⟨still, id, id⟩)
    · unfold Spi.pushed
      rw [fifo, List.append_assoc, List.singleton_append]
    · rw [fifo]
      exact Nat.le_succ _
  · cases step

theorem inv_arrive (inv : Inv P s) {byte : UInt8} (step : s.arrive byte = some s') :
    Inv P s' := by
  unfold Spi.arrive at step
  split at step
  · rename_i comes
    obtain ⟨running, accepted, more⟩ := comes
    have going : ¬ Has s.isr spiTc := by
      intro ended
      exact Bool.noConfusion (running.symm.trans (inv.core.ended ended).1)
    split at step
    · cases step
      refine inv_controller inv ⟨rfl, rfl, rfl, rfl, ?_, ?_, id, fun allIn => ?_⟩
        ⟨rfl, rfl, rfl, rfl, rfl⟩ ⟨rfl, rfl, rfl, rfl⟩ rfl (Nat.le_refl _) (fun _ => accepted)
        (fun ended => absurd ended going) (fun still => ?_)
      · rw [List.length_append]
        exact Nat.le_add_right _ _
      · exact fun whole => ⟨whole, [byte], rfl, rfl⟩
      · exact absurd allIn.1 going
      · exact Bool.noConfusion (still.symm.trans running)
    · cases step
      have same : Has (s.isr ||| spiRxOvf) spiTc ↔ Has s.isr spiTc := has_or_apart (by decide)
      have lost : Has (s.isr ||| spiRxOvf) spiRxOvf := has_or.mpr (.inr (by decide))
      refine inv_controller inv ⟨rfl, rfl, rfl, rfl, Nat.le_refl _, fun whole => absurd lost whole,
        Has.or_left, fun allIn => absurd allIn.1 going⟩
        ⟨rfl, rfl, rfl, rfl, rfl⟩ ⟨rfl, rfl, rfl, rfl⟩ rfl (Nat.le_refl _) (fun _ => accepted)
        (fun ended => absurd (same.mp ended) going) (fun still => ?_)
      exact Bool.noConfusion (still.symm.trans running)
  · cases step

theorem inv_complete (inv : Inv P s) (step : s.complete = some s') : Inv P s' := by
  unfold Spi.complete at step
  split at step
  · rename_i ends
    obtain ⟨running, -, received⟩ := ends
    cases step
    have same : Has (s.isr ||| spiTc) spiRxOvf ↔ Has s.isr spiRxOvf := has_or_apart (by decide)
    refine inv_controller inv ⟨rfl, rfl, rfl, rfl, Nat.le_refl _, fun whole => ?_, Has.or_left,
        fun allIn => ?_⟩
      ⟨rfl, rfl, rfl, rfl, rfl⟩ ⟨rfl, rfl, rfl, rfl⟩ rfl (Nat.le_refl _) ?_
      (fun _ => ⟨rfl, received⟩) (fun still => ?_)
    · exact kept_still fun lost => whole (same.mpr lost)
    · exact ⟨allIn.1.or_left, fun lost => allIn.2 (same.mp lost)⟩
    · exact fun h => inv.core.early (h.imp_right same.mp)
    · exact Bool.noConfusion (still.symm.trans running)
  · cases step

theorem inv_fault (inv : Inv P s) (flags : UInt32) : Inv P (s.fault flags) := by
  have apart (k : UInt32) (other : (spiTfUdf ||| spiTfOvf ||| spiRxUdf) &&& k = 0) :
      Has (s.fault flags).isr k ↔ Has s.isr k := by
    apply has_or_apart
    rw [UInt32.and_assoc, other, UInt32.and_zero]
  have lost : Lost (s.fault flags) ↔ Lost s := apart spiRxOvf (by decide)
  have ended : Has (s.fault flags).isr spiTc ↔ Has s.isr spiTc := apart spiTc (by decide)
  refine inv_controller inv ⟨rfl, rfl, rfl, rfl, Nat.le_refl _, fun whole => ?_, Has.or_left,
      fun allIn => ?_⟩
    ⟨rfl, rfl, rfl, rfl, rfl⟩ ⟨rfl, rfl, rfl, rfl⟩ rfl (Nat.le_refl _) ?_
    (fun done => inv.core.ended (ended.mp done)) (fun still => ⟨still, lost.mp, ended.mp⟩)
  · exact kept_still fun before => whole (lost.mpr before)
  · exact ⟨ended.mpr allIn.1, fun after => allIn.2 (lost.mp after)⟩
  · exact fun h => inv.core.early (h.imp_right lost.mp)

private theorem grows_caller (s : Spi) (pc : Pc) (txOffset : Nat) (txLen : UInt32)
    (spiState : SpiState) (masked : Bool) (ier : UInt32) (xch : Bool) :
    Grows s { s with pc, txOffset, txLen, spiState, masked, ier, xch } :=
  ⟨rfl, rfl, rfl, rfl, Nat.le_refl _, kept_still, id, id⟩

private theorem core_caller (core : Core P s) (pc : Pc) (txOffset : Nat) (txLen : UInt32)
    (spiState : SpiState) (masked : Bool) (ier : UInt32) :
    Core P { s with pc, txOffset, txLen, spiState, masked, ier } :=
  ⟨core.total, core.first, core.early, core.untouched, core.ended,
    handles_grows (grows_caller s _ _ _ _ _ _ s.xch) core.handles⟩

private theorem honest_caller (honest : Honest s) (pc : Pc) (txOffset : Nat) (txLen : UInt32)
    (masked : Bool) (ier : UInt32) (xch : Bool) :
    Honest { s with pc, txOffset, txLen, masked, ier, xch } :=
  honest_grows (grows_caller s _ _ _ s.spiState _ _ _) rfl honest

private theorem toNat_pred {n : UInt32} (some_ : n ≠ 0) : n.toNat = (n - 1).toNat + 1 := by
  have positive : n.toNat ≠ 0 := fun zero => some_ (UInt32.toNat_inj.mp zero)
  have one : (1 : UInt32) ≤ n := by
    rw [UInt32.le_iff_toNat_le]
    exact Nat.one_le_iff_ne_zero.mpr positive
  rw [UInt32.toNat_sub_of_le _ _ one]
  change n.toNat = n.toNat - 1 + 1
  omega

private theorem slice_succ (m : Mem) (a n : Nat) :
    slice m a (n + 1) = m a :: slice m (a + 1) n := by
  rw [Nat.add_comm n 1, slice_add]
  rfl

private theorem push_byte (core : Core P s) {rest : List TransMsg}
    (sends : Sends P s (.push rest)) : s.pushed ++ (s.mem s.txOffset ::
      (slice P.mem (s.txOffset + 1) (s.txLen - 1).toNat ++ later P.mem rest)) = P.goal := by
  obtain ⟨whole, more, -⟩ := sends
  rw [toNat_pred more, slice_succ, List.cons_append] at whole
  rcases core.untouched with same | all
  · rw [same]
    exact whole
  · rw [← whole, List.length_append, List.length_cons] at all
    omega

private theorem inv_push (inv : Inv P s) {rest : List TransMsg} (pc : s.pc = .push rest) :
    Inv P { s.writeTxd (s.mem s.txOffset) with pc := .shrink rest } := by
  obtain ⟨core, sends, watch, armed⟩ := inv
  rw [pc] at sends watch armed
  have byte := push_byte core sends
  have accepted : s.sent ++ (s.txFifo ++ [s.mem s.txOffset]) = s.pushed ++ [s.mem s.txOffset] :=
    (List.append_assoc _ _ _).symm
  have longer : s.pushed.length ≤ (s.sent ++ (s.txFifo ++ [s.mem s.txOffset])).length := by
    rw [accepted, List.length_append]
    exact Nat.le_add_right _ _
  unfold Spi.writeTxd
  rw [if_pos sends.2.2]
  refine ⟨⟨core.total, core.first, ?_, ?_, core.ended, ?_⟩, ?_, ?_, armed⟩
  · exact fun h => Nat.le_trans (core.early h) longer
  · exact core.untouched.imp_right fun all => Nat.le_trans all longer
  · exact handles_grows ⟨rfl, rfl, rfl, rfl, Nat.le_refl _, kept_still, id, id⟩ core.handles
  · change (s.sent ++ (s.txFifo ++ [s.mem s.txOffset])) ++
      (slice P.mem (s.txOffset + 1) (s.txLen - 1).toNat ++ later P.mem rest) = P.goal
    rw [accepted, List.append_assoc, List.singleton_append]
    exact byte
  · exact honest_grows ⟨rfl, rfl, rfl, rfl, Nat.le_refl _, kept_still, id, id⟩ rfl watch

private theorem inv_startXfer (inv : Inv P s) {msgs : List TransMsg}
    (pc : s.pc = .startXfer msgs) :
    Inv P { s with xch := true, pc := Spi.begins msgs } := by
  obtain ⟨core, sends, watch, armed⟩ := inv
  rw [pc] at sends watch armed
  obtain ⟨open_, enabled, -, -, going⟩ := armed
  have honest := honest_caller watch (Spi.begins msgs) s.txOffset s.txLen s.masked s.ier true
  refine ⟨⟨core.total, core.first, core.early, core.untouched, fun ended => absurd ended going,
    handles_grows (grows_caller s _ _ _ _ _ _ _) core.handles⟩, ?_, ?_, ?_⟩
  · cases msgs with
    | nil =>
      change s.pushed ++ (slice P.mem s.txOffset s.txLen.toNat ++ []) = P.goal
      rw [List.append_nil]
      exact sends
    | cons msg rest => exact sends
  · cases msgs with
    | nil => exact honest
    | cons msg rest => exact honest
  · cases msgs with
    | nil => exact ⟨open_, enabled⟩
    | cons msg rest => exact ⟨open_, enabled⟩

private theorem inv_written (inv : Inv P s) {rest : List TransMsg} (pc : s.pc = .write rest)
    (done : s.txLen = 0) : Inv P { s with pc := Spi.next rest } := by
  obtain ⟨core, sends, watch, armed⟩ := inv
  rw [pc] at sends watch armed
  have honest := honest_caller watch (Spi.next rest) s.txOffset s.txLen s.masked s.ier s.xch
  have sent : s.pushed ++ later P.mem rest = P.goal := by
    have whole : s.pushed ++ (slice P.mem s.txOffset s.txLen.toNat ++ later P.mem rest) = P.goal :=
      sends
    rw [done] at whole
    exact whole
  refine ⟨core_caller core _ _ _ _ _ _, ?_, ?_, ?_⟩
  · cases rest with
    | nil =>
      change s.pushed = P.goal
      rw [← sent]
      exact (List.append_nil _).symm
    | cons msg rest => exact sent
  · cases rest with
    | nil => exact honest
    | cons msg rest => exact honest
  · cases rest with
    | nil => exact armed
    | cons msg rest => exact armed

theorem inv_caller (inv : Inv P s) (stands : s.handler = none) (step : s.caller = some s') :
    Inv P s' := by
  have whole := inv
  obtain ⟨core, sends, watch, armed⟩ := inv
  unfold Spi.caller at step
  cases pc : s.pc with
  | umask msgs =>
    rw [pc] at step sends armed
    cases step
    exact ⟨core_caller core _ _ _ _ _ _, sends, trivial, rfl, armed⟩
  | setBusy msgs =>
    rw [pc] at step sends armed
    cases step
    exact ⟨core_caller core _ _ _ _ _ _, sends, ⟨SpiState.noConfusion, SpiState.noConfusion⟩, armed⟩
  | startXfer msgs =>
    rw [pc] at step
    cases step
    exact inv_startXfer whole pc
  | load msg rest =>
    rw [pc] at step sends watch armed
    cases step
    exact ⟨core_caller core _ _ _ _ _ _, sends, honest_caller watch _ _ _ _ _ _, armed⟩
  | write rest =>
    rw [pc] at step
    cases step
    by_cases more : s.txLen ≠ 0
    · rw [if_pos more]
      rw [pc] at sends watch armed
      exact ⟨core_caller core _ _ _ _ _ _, ⟨sends, more⟩, honest_caller watch _ _ _ _ _ _, armed⟩
    · rw [if_neg more]
      exact inv_written whole pc (not_not.mp more)
  | poll rest pollTime =>
    rw [pc] at step sends watch armed
    cases step
    split
    · split
      · exact ⟨core_caller core _ _ _ _ _ _, sends, honest_caller watch _ _ _ _ _ _, armed⟩
      · rename_i room
        have space : s.txFifo.length < fifoSize := Nat.lt_succ_of_le (Nat.not_lt.mp room)
        exact ⟨core_caller core _ _ _ _ _ _, ⟨sends.1, sends.2, space⟩,
          honest_caller watch _ _ _ _ _ _, armed⟩
    · exact ⟨core_caller core _ _ _ _ _ _, trivial, honest_caller watch _ _ _ _ _ _, armed⟩
  | push rest =>
    rw [pc] at step
    cases step
    exact inv_push whole pc
  | shrink rest | advance rest =>
    rw [pc] at step sends watch armed
    cases step
    exact ⟨core_caller core _ _ _ _ _ _, sends, honest_caller watch _ _ _ _ _ _, armed⟩
  | wait =>
    rw [pc] at step sends watch armed
    cases step
    by_cases waits : s.spiState = .busy
    · rw [if_pos waits]
      exact ⟨core_caller core _ _ _ _ _ _, sends, honest_caller watch _ _ _ _ _ _, armed⟩
    · rw [if_neg waits]
      have honest := honest_caller watch .disable s.txOffset s.txLen s.masked s.ier s.xch
      refine ⟨core_caller core _ _ _ _ _ _, sends, ⟨honest, ?_⟩, armed⟩
      cases state : s.spiState with
      | busy => exact absurd state waits
      | idle => exact .inl (honest.1 state)
      | error =>
        refine .inr ⟨honest.2 state, ?_⟩
        rw [stands]
        rfl
  | disable =>
    rw [pc] at step sends watch
    cases step
    exact ⟨core_caller core _ _ _ _ _ _, sends,
      watch_grows (grows_caller s _ _ _ _ _ _ s.xch) rfl (show Watch s .mask from watch), trivial⟩
  | mask =>
    rw [pc] at step sends watch
    cases step
    exact ⟨core_caller core _ _ _ _ _ _, sends,
      watch_grows (grows_caller s _ _ _ _ _ _ s.xch) rfl (show Watch s .check from watch),
      rfl, stands⟩
  | check =>
    rw [pc] at step sends watch armed
    cases step
    have pushed : s.pushed = P.goal := sends
    by_cases failed : s.spiState = .error
    · rw [if_pos failed]
      exact ⟨core_caller core _ _ _ _ _ _, .inr rfl, fun zero => absurd zero (by decide), armed⟩
    · rw [if_neg failed]
      refine ⟨core_caller core _ _ _ _ _ _, .inl ⟨rfl, pushed⟩, fun _ => ?_, armed⟩
      rcases watch.2 with finished | ⟨-, failing⟩
      · exact finished
      · rw [stands] at failing
        exact absurd failing failed
  | abort =>
    rw [pc] at step watch
    cases step
    exact ⟨core_caller core _ _ _ _ _ _, trivial, honest_caller watch _ _ _ _ _ _, trivial⟩
  | abortMask =>
    rw [pc] at step
    cases step
    exact ⟨core_caller core _ _ _ _ _ _, .inr rfl, fun zero => absurd zero (by decide), rfl, stands⟩
  | ret r =>
    rw [pc] at step
    cases step

section Service

variable {mem : Mem} {rxLen isr val : UInt32} {rxOffset : Nat} {rxFifo : List UInt8}
  {spiState : SpiState} {handler : Option Irq} {stage : Irq}

private theorem inv_service (inv : Inv P s) (runs : s.handler = some stage)
    (after : s' = { s with mem, rxLen, rxOffset, rxFifo, spiState, isr, handler })
    (untouched : mem = P.mem ∨ P.goal.length ≤ s.pushed.length)
    (fifo : rxFifo ≠ [] → s.rxFifo ≠ []) (lost : Lost s' → Lost s)
    (ended : Has isr spiTc → Has s.isr spiTc) (handles : Handles P s' handler)
    (honest : Honest s → Honest s') (finished : Finished s → Finished s')
    (failing : Failing s → Failing s') : Inv P s' := by
  obtain ⟨core, sends, watch, armed⟩ := inv
  have kept : Watch s' s.pc := watch_imp honest finished failing watch
  have still : Armed s' s.pc := by
    refine armed_congr ?_ (fun _ gone => ?_) (fun idle => ?_) armed
    · rw [after]
      exact ⟨rfl, rfl⟩
    · rw [runs] at gone
      cases gone
    · rw [after] at lost ⊢
      exact ⟨idle, lost, ended⟩
  subst after
  exact ⟨⟨core.total, core.first, fun h => core.early (h.imp fifo lost), untouched,
    fun h => core.ended (ended h), handles⟩, sends_congr rfl ⟨rfl, rfl⟩ (Nat.le_refl _) sends,
    kept, still⟩

private theorem inv_reads (inv : Inv P s) (runs : s.handler = some stage)
    (clean : ¬ Failing s) (after : s' = { s with mem, rxOffset, rxFifo, handler })
    (untouched : mem = P.mem ∨ P.goal.length ≤ s.pushed.length)
    (fifo : rxFifo ≠ [] → s.rxFifo ≠ []) (handles : Handles P s' handler) : Inv P s' := by
  subst after
  exact inv_service inv runs rfl untouched fifo id id handles id id
    fun failing => absurd failing clean

private theorem not_failing (runs : s.handler = some stage)
    (clean : ¬ Fails s.spiState (some stage)) : ¬ Failing s := by
  intro failing
  have fails := failing.2
  rw [runs] at fails
  exact clean fails

private theorem missing_le (core : Core P s) (place : At P s 0 0) (allIn : AllIn s) :
    s.rxLen.toNat ≤ s.rxFifo.length := by
  obtain ⟨k, ⟨-, -, kept⟩, counter, -⟩ := place
  have total := P.enough
  rw [← core.total, ← (core.ended allIn.1).2, kept allIn.2, List.length_append, length_slice]
    at total
  omega

theorem read_flags (reads : s.reads val = true) {k : UInt32} (bits : irqBits &&& k = k)
    (seen : (spiTc ||| irqErrors) &&& k = k) : Has (val &&& irqBits) k ↔ Has s.isr k :=
  (has_masked bits).trans (has_congr (of_decide_eq_true reads).1 seen)

private theorem inv_readIsr (inv : Inv P s) (runs : s.handler = some .readIsr)
    (step : s.service val .readIsr = some s') : Inv P s' := by
  have place : At P s 0 0 := by
    have handles := inv.core.handles
    rw [runs] at handles
    exact handles
  dsimp only [Spi.service] at step
  split at step
  · rename_i reads
    cases step
    have errors : Has (val &&& irqBits) irqErrors ↔ Erring s :=
      read_flags reads (by decide) (by decide)
    have ended : Has (val &&& irqBits) spiTc ↔ Has s.isr spiTc :=
      read_flags reads (by decide) (by decide)
    have rdy : Has (val &&& irqBits) spiRxRdy ↔ s.rxFifo ≠ [] :=
      (has_masked (by decide)).trans (of_decide_eq_true reads).2
    by_cases erring : val &&& irqBits &&& irqErrors ≠ 0
    · rw [if_pos erring]
      exact inv_service inv runs rfl inv.core.untouched id id id ⟨place, errors.mp erring⟩ id id
        fun failing => ⟨failing.1, trivial⟩
    · rw [if_neg erring]
      have clean : ¬ Failing s := fun failing => erring (errors.mpr failing.1)
      have snapshot : Snapshot s (val &&& irqBits) := ⟨erring, fun done => ⟨ended.mp done,
        fun lost => erring (errors.mpr lost.erring)⟩⟩
      by_cases filled : val &&& irqBits &&& spiRxRdy ≠ 0
      · rw [if_pos filled]
        exact inv_reads inv runs clean rfl inv.core.untouched id ⟨place, snapshot⟩
      · rw [if_neg filled]
        refine inv_reads inv runs clean rfl inv.core.untouched id
          ⟨place, snapshot, Nat.zero_le _, fun done => ?_⟩
        have missing := missing_le inv.core place (snapshot.2 done)
        rw [not_not.mp (mt rdy.mpr filled)] at missing
        exact missing
  · cases step

private theorem inv_loop (inv : Inv P s) {irqState : UInt32} {byteCnt i : Nat}
    (runs : s.handler = some (.loop irqState byteCnt i))
    (step : s.service val (.loop irqState byteCnt i) = some s') : Inv P s' := by
  have clean : ¬ Failing s := not_failing runs id
  have handles := inv.core.handles
  rw [runs] at handles
  obtain ⟨place, snapshot, fifo, missing⟩ := handles
  cases step
  by_cases inside : i < byteCnt
  · rw [if_pos inside]
    by_cases open_ : s.rxLen > 0
    · rw [if_pos open_]
      exact inv_reads inv runs clean rfl inv.core.untouched id
        ⟨place, snapshot, ⟨fifo, missing⟩, inside, open_, by decide⟩
    · rw [if_neg open_]
      have zero : s.rxLen.toNat = 0 := by
        by_contra some_
        exact open_ (UInt32.lt_iff_toNat_lt.mpr (Nat.pos_of_ne_zero some_))
      refine inv_reads inv runs clean rfl inv.core.untouched id
        ⟨place, snapshot, ?_, fun _ => ?_⟩
      · change byteCnt - (i + 1) ≤ s.rxFifo.length
        omega
      · change s.rxLen.toNat ≤ byteCnt - (i + 1)
        omega
  · rw [if_neg inside]
    refine inv_reads inv runs clean rfl inv.core.untouched id
      ⟨place, snapshot, Nat.zero_le _, fun ended => ?_⟩
    have none_ := missing ended
    change s.rxLen.toNat ≤ 0
    omega

private theorem inv_poll (inv : Inv P s) {irqState : UInt32} {byteCnt i pollTime : Nat}
    (runs : s.handler = some (.poll irqState byteCnt i pollTime))
    (step : s.service val (.poll irqState byteCnt i pollTime) = some s') : Inv P s' := by
  have clean : ¬ Failing s := not_failing runs id
  have handles := inv.core.handles
  rw [runs] at handles
  obtain ⟨place, snapshot, ⟨fifo, missing⟩, inside, open_, time⟩ := handles
  cases step
  have filled : s.rxFifo.length > 0 := by omega
  rw [if_pos time, if_pos filled]
  exact inv_reads inv runs clean rfl inv.core.untouched id
    ⟨place, snapshot, ⟨fifo, missing⟩, inside, open_⟩

private theorem stored_take {k : Nat} {byte : UInt8} {rest : List UInt8}
    (stored : Stored P s k) (fifo : s.rxFifo = byte :: rest) (room : k + 1 ≤ P.rxLen) :
    Stored P { s with
      mem := Function.update s.mem (P.rxBuf + k) byte, rxFifo := rest } (k + 1) := by
  obtain ⟨-, outside, kept⟩ := stored
  refine ⟨room, fun a apart => ?_, fun whole => ?_⟩
  · dsimp only
    rw [Function.update_of_ne (by omega : a ≠ P.rxBuf + k)]
    exact outside a (by omega)
  · have before : slice (Function.update s.mem (P.rxBuf + k) byte) P.rxBuf k =
        slice s.mem P.rxBuf k := by
      apply slice_congr
      intro a _ below
      rw [Function.update_of_ne (by omega : a ≠ P.rxBuf + k)]
    have last : slice (Function.update s.mem (P.rxBuf + k) byte) (P.rxBuf + k) 1 = [byte] := by
      rw [slice_succ, slice_zero, Function.update_self]
    dsimp only
    rw [slice_add, before, last, List.append_assoc, List.singleton_append, ← fifo]
    exact kept whole

private theorem inv_take (inv : Inv P s) {irqState : UInt32} {byteCnt i : Nat}
    (runs : s.handler = some (.take irqState byteCnt i))
    (step : s.service val (.take irqState byteCnt i) = some s') : Inv P s' := by
  have handles := inv.core.handles
  rw [runs] at handles
  obtain ⟨⟨k, stored, counter, pointer⟩, snapshot, ⟨fifo, missing⟩, inside, open_⟩ := handles
  have more : 0 < s.rxLen.toNat := UInt32.lt_iff_toNat_lt.mp open_
  have clean : ¬ Failing s := not_failing runs id
  rcases head : s.rxFifo with _ | ⟨byte, rest⟩
  · rw [head, List.length_nil] at fifo
    omega
  have filled : s.rxFifo ≠ [] := by
    rw [head]
    exact List.cons_ne_nil _ _
  cases step
  refine inv_reads inv runs clean rfl (.inr ?_) (fun _ => filled)
    ⟨⟨k + 1, ?_, ?_, ?_⟩, snapshot, ⟨?_, missing⟩, inside⟩
  · exact Nat.le_trans (inv.core.first (by omega)) (inv.core.early (.inl filled))
  · have place : s.rxOffset = P.rxBuf + k := pointer
    rw [head, place]
    exact stored_take stored head (by omega)
  · change s.rxLen.toNat + (k + 1) = P.rxLen + 1
    omega
  · change s.rxOffset + 1 = P.rxBuf + (k + 1)
    omega
  · change byteCnt - (i + 1) ≤ s.rxFifo.tail.length
    rw [head, List.length_cons] at fifo
    rw [head, List.tail_cons]
    omega

private theorem inv_shrink (inv : Inv P s) {irqState : UInt32} {byteCnt i : Nat}
    (runs : s.handler = some (.shrink irqState byteCnt i))
    (step : s.service val (.shrink irqState byteCnt i) = some s') : Inv P s' := by
  have handles := inv.core.handles
  rw [runs] at handles
  obtain ⟨⟨k, stored, counter, pointer⟩, snapshot, ⟨fifo, missing⟩, inside⟩ := handles
  have small : k ≤ P.rxLen := stored.1
  have some_ : s.rxLen ≠ 0 := by
    intro zero
    rw [zero, UInt32.toNat_zero] at counter
    omega
  have pred := toNat_pred some_
  cases step
  refine inv_service inv runs rfl inv.core.untouched id id id
    ⟨⟨k, stored, ?_, pointer⟩, snapshot, fifo, fun ended => ?_⟩ ?_
    (fun finished => absurd finished.2 some_) fun failing => absurd failing (not_failing runs id)
  · change (s.rxLen - 1).toNat + k = P.rxLen + 0
    omega
  · have left := missing ended
    change (s.rxLen - 1).toNat ≤ byteCnt - (i + 1)
    omega
  · exact fun honest => ⟨fun idle => absurd (honest.1 idle).2 some_, honest.2⟩

private theorem inv_advance (inv : Inv P s) {irqState : UInt32} {byteCnt i : Nat}
    (runs : s.handler = some (.advance irqState byteCnt i))
    (step : s.service val (.advance irqState byteCnt i) = some s') : Inv P s' := by
  have clean : ¬ Failing s := not_failing runs id
  have handles := inv.core.handles
  rw [runs] at handles
  obtain ⟨⟨k, stored, counter, pointer⟩, snapshot, left⟩ := handles
  cases step
  exact inv_reads inv runs clean rfl inv.core.untouched id
    ⟨⟨k, stored, counter, pointer⟩, snapshot, left⟩

private theorem inv_finish (inv : Inv P s) {irqState : UInt32}
    (runs : s.handler = some (.finish irqState))
    (step : s.service val (.finish irqState) = some s') : Inv P s' := by
  have handles := inv.core.handles
  rw [runs] at handles
  obtain ⟨place, ⟨errors, done⟩, -, missing⟩ := handles
  have clean : ¬ Failing s := not_failing runs id
  cases step
  by_cases ended : irqState &&& spiTc ≠ 0
  · rw [if_pos ended]
    have finished : Finished s :=
      ⟨done ended, UInt32.toNat_inj.mp (Nat.le_zero.mp (missing ended))⟩
    exact inv_service inv runs rfl inv.core.untouched id id id place
      (fun _ => ⟨fun _ => finished, SpiState.noConfusion⟩) id fun failing => absurd failing clean
  · rw [if_neg ended]
    -- Only flags that were read are cleared, and neither an error nor the end is among them.
    have apart (k : UInt32) (bits : irqBits &&& k = k) (unseen : irqState &&& k = 0) :
        Has (s.isr &&& ~~~(irqState &&& irqBits)) k ↔ Has s.isr k := by
      apply has_clear_apart
      rw [UInt32.and_assoc, bits, unseen]
    have error := apart irqErrors (by decide) (not_not.mp errors)
    have end_ := apart spiTc (by decide) (not_not.mp ended)
    have lower (lost : Has (s.isr &&& ~~~(irqState &&& irqBits)) spiRxOvf) : Lost s :=
      lost.of_clear
    have finished (before : Finished s) :
        Finished { s.spiClearIrqState irqState with handler := none } :=
      ⟨⟨end_.mpr before.1.1, fun lost => before.1.2 (lower lost)⟩, before.2⟩
    refine inv_service inv runs rfl inv.core.untouched id lower end_.mp ?_ ?_ finished
      fun failing => absurd failing clean
    · obtain ⟨k, ⟨small, outside, kept⟩, counter, pointer⟩ := place
      refine ⟨k, ⟨small, outside, fun whole => kept fun lost => whole ?_⟩, counter, pointer⟩
      have unseen : irqState &&& spiRxOvf = 0 := by
        by_contra seen
        exact errors (Has.of_within (by decide) seen)
      exact (apart spiRxOvf (by decide) unseen).mpr lost
    · exact fun honest => ⟨fun idle => finished (honest.1 idle), fun failed =>
        error.mpr (honest.2 failed)⟩

theorem inv_handler (inv : Inv P s) (runs : s.handler = some stage)
    (step : s.service val stage = some s') : Inv P s' := by
  have handles := inv.core.handles
  rw [runs] at handles
  cases stage with
  | busy =>
    cases step
    exact inv_service inv runs rfl inv.core.untouched id id id handles
      (fun _ => ⟨SpiState.noConfusion, SpiState.noConfusion⟩) id
      fun failing => ⟨failing.1, trivial⟩
  | readIsr => exact inv_readIsr inv runs step
  | fail =>
    cases step
    exact inv_service inv runs rfl inv.core.untouched id id id handles.1
      (fun _ => ⟨SpiState.noConfusion, fun _ => handles.2⟩) id fun _ => ⟨handles.2, rfl⟩
  | readCount irqState =>
    have clean : ¬ Failing s := not_failing runs id
    have missing := missing_le inv.core handles.1
    cases step
    exact inv_reads inv runs clean rfl inv.core.untouched id
      ⟨handles.1, handles.2, Nat.le_refl _, fun ended => missing (handles.2.2 ended)⟩
  | loop irqState byteCnt i => exact inv_loop inv runs step
  | poll irqState byteCnt i pollTime => exact inv_poll inv runs step
  | take irqState byteCnt i => exact inv_take inv runs step
  | shrink irqState byteCnt i => exact inv_shrink inv runs step
  | advance irqState byteCnt i => exact inv_advance inv runs step
  | finish irqState => exact inv_finish inv runs step

end Service

theorem inv_interrupt (inv : Inv P s) (stands : s.handler = none) (open_ : s.masked = false) :
    Inv P { s with handler := some .busy } := by
  obtain ⟨core, sends, watch, armed⟩ := inv
  have handles := core.handles
  rw [stands] at handles
  have failing (before : Failing s) : Failing { s with handler := some .busy } := by
    refine ⟨before.1, ?_⟩
    have fails := before.2
    rw [stands] at fails
    exact fails
  have kept : Watch { s with handler := some .busy } s.pc := by
    refine watch_imp ?_ ?_ failing watch
    · exact id
    · exact id
  have still : Armed { s with handler := some .busy } s.pc := by
    refine armed_congr ?_ (fun closed _ => ?_) (fun idle => ?_) armed
    · exact ⟨rfl, rfl⟩
    · rw [open_] at closed
      cases closed
    · exact ⟨idle, id, id⟩
  exact ⟨⟨core.total, core.first, core.early, core.untouched, core.ended, handles⟩, sends, kept,
    still⟩

theorem inv_step {event : Event} (inv : Inv P s) (step : s.step event = some s') : Inv P s' := by
  cases event with
  | caller =>
    rcases stands : s.handler with _ | stage
    · rw [Spi.step, stands] at step
      exact inv_caller inv stands step
    · rw [Spi.step, stands] at step
      cases step
  | interrupt =>
    rcases stands : s.handler with _ | stage
    · rcases masked : s.masked with _ | _
      · have kept := inv_interrupt inv stands masked
        rw [masked] at kept
        rw [Spi.step, stands, masked] at step
        cases step
        exact kept
      · rw [Spi.step, stands, masked] at step
        cases step
    · rw [Spi.step, stands] at step
      cases step
  | handler val =>
    obtain ⟨stage, runs, serves⟩ := Option.bind_eq_some_iff.mp step
    exact inv_handler inv runs serves
  | send => exact inv_send inv step
  | arrive byte => exact inv_arrive inv step
  | complete => exact inv_complete inv step
  | fault flags =>
    cases step
    exact inv_fault inv flags

theorem inv_run {events : List Event} (inv : Inv P s) (run : run Spi.step s events = some s') :
    Inv P s' := run_invariant (Inv P) inv_step inv run

theorem burst_put (w v : UInt32) :
    burst ((w &&& ~~~0x00ffffff) ||| (0x00ffffff &&& v)) = v.toNat % 2 ^ 24 := by
  have put (m : UInt32) : ((w &&& ~~~m) ||| (m &&& v)) &&& m = v &&& m := by
    apply UInt32.toBitVec_inj.mp
    ext i inside
    simp only [UInt32.toBitVec_and, UInt32.toBitVec_or, UInt32.toBitVec_not, BitVec.getElem_and,
      BitVec.getElem_or, BitVec.getElem_not]
    cases m.toBitVec[i] with
    | false => rw [Bool.and_false, Bool.and_false]
    | true => rw [Bool.not_true, Bool.and_false, Bool.false_or, Bool.true_and]
  have mask : (0x00ffffff : UInt32).toNat = 2 ^ 24 - 1 := by decide
  rw [burst, put, UInt32.toNat_and, mask, Nat.and_two_pow_sub_one_eq_mod]

private theorem inv_prepared (rest : s.AtRest) {msgs : List TransMsg} {txOffset rxOffset : Nat}
    {txLen rxLen dummylen ier mbc mtc bcc : UInt32}
    (after : s' = { s with
      pc := .umask msgs, txOffset, txLen, rxOffset, rxLen, dummylen, masked := true, ier
      isr := s.isr &&& ~~~(0xffff &&& irqBits), mbc, mtc, bcc
      txFifo := [], rxFifo := [], sent := [], received := [] })
    (errors : Has ier spiRxOvf) (mem : P.mem = s.mem)
    (goal : todo P.mem txOffset txLen msgs = P.goal)
    (buffer : rxOffset = P.rxBuf) (count : rxLen.toNat = P.rxLen) (total : s'.rxTotal = P.total)
    (first : 0 < P.rxLen → P.goal.length ≤ burst mtc) : Inv P s' := by
  obtain ⟨-, stands, still⟩ := rest
  subst after
  have whole : ¬ Has (s.isr &&& ~~~(0xffff &&& irqBits)) spiRxOvf := not_has_clear (by decide)
  have going : ¬ Has (s.isr &&& ~~~(0xffff &&& irqBits)) spiTc := not_has_clear (by decide)
  refine ⟨⟨total, first, ?_, .inl mem.symm, fun ended => absurd ended going, ?_⟩, goal, trivial,
    errors, still, whole, going⟩
  · rintro (filled | lost)
    · exact absurd rfl filled
    · exact absurd lost whole
  · change Handles P _ s.handler
    rw [stands]
    refine ⟨0, ⟨Nat.zero_le _, fun a _ => by rw [mem], fun _ => rfl⟩, count, buffer⟩

/-- What `spi_transfer` is to do with a message. -/
def plan (s : Spi) (msg : TransMsg) : Plan where
  mem := s.mem
  goal := txBytes s.mem msg
  rxBuf := msg.rxBuf
  rxLen := msg.rxLen.toNat
  total := msg.rxLen.toNat
  enough := Nat.le_refl _

private theorem enabled (ier : UInt32) :
    Has ((ier ||| (0x1000 &&& irqBits)) ||| (0x0f00 &&& irqBits)) spiRxOvf :=
  has_or.mpr (.inr (by decide))

private theorem sums {msg : TransMsg} (well : WellFormed msg) :
    (msg.txLen + msg.rxLen + msg.dummylen).toNat =
      msg.txLen.toNat + msg.rxLen.toNat + msg.dummylen.toNat := by
  have fits := well.fits
  rw [UInt32.toNat_add, UInt32.toNat_add]
  omega

private theorem prepare_eq (s : Spi) (txLen rxLen stxLen : UInt32) : ∃ ier bcc,
    s.prepare txLen rxLen stxLen = { s with
      masked := true, ier, isr := s.isr &&& ~~~(0xffff &&& irqBits)
      mbc := (s.mbc &&& ~~~0x00ffffff) ||| (0x00ffffff &&& (txLen + rxLen + s.dummylen))
      mtc := (s.mtc &&& ~~~0x00ffffff) ||| (0x00ffffff &&& txLen), bcc
      txFifo := [], rxFifo := [], sent := [], received := [] } ∧ Has ier spiRxOvf := by
  dsimp only [Spi.prepare, Spi.spiDisableDual, Spi.spiDisableQuad, Spi.interruptMask,
    Spi.spiDisableIrq, Spi.spiSetBcTcStc, Spi.spiResetFifo, Spi.spiClearIrqState, Spi.spiEnableIrq]
  exact ⟨_, _, rfl, enabled _⟩

private theorem spiTransfer_eq (s : Spi) (msg : TransMsg) : ∃ ier bcc,
    s.spiTransfer msg = { s with
      pc := .umask [], txOffset := msg.txBuf, txLen := msg.txLen, rxOffset := msg.rxBuf
      rxLen := msg.rxLen, dummylen := msg.dummylen, masked := true, ier
      isr := s.isr &&& ~~~(0xffff &&& irqBits)
      mbc := (s.mbc &&& ~~~0x00ffffff) |||
        (0x00ffffff &&& (msg.txLen + msg.rxLen + msg.dummylen))
      mtc := (s.mtc &&& ~~~0x00ffffff) ||| (0x00ffffff &&& msg.txLen), bcc
      txFifo := [], rxFifo := [], sent := [], received := [] } ∧ Has ier spiRxOvf := by
  obtain ⟨ier, bcc, set, errors⟩ := prepare_eq { s with
    txOffset := msg.txBuf, txLen := msg.txLen, rxOffset := msg.rxBuf, rxLen := msg.rxLen
    dummylen := msg.dummylen } msg.txLen msg.rxLen (msg.txLen + msg.rxLen)
  unfold Spi.spiTransfer
  dsimp only
  rw [set]
  dsimp only
  split
  · exact ⟨_, bcc, rfl, errors.or_left⟩
  · exact ⟨ier, bcc, rfl, errors⟩

theorem spiTransfer_total {msg : TransMsg} (well : WellFormed msg) :
    (s.spiTransfer msg).rxTotal = msg.rxLen.toNat ∧
      burst (s.spiTransfer msg).mtc = msg.txLen.toNat := by
  obtain ⟨ier, bcc, set, -⟩ := spiTransfer_eq s msg
  have fits := well.fits
  rw [set]
  unfold Spi.rxTotal
  dsimp only
  rw [burst_put, burst_put, sums well]
  omega

theorem inv_spiTransfer (rest : s.AtRest) {msg : TransMsg} (well : WellFormed msg) :
    Inv (plan s msg) (s.spiTransfer msg) := by
  obtain ⟨total, first⟩ := spiTransfer_total (s := s) well
  obtain ⟨ier, bcc, set, errors⟩ := spiTransfer_eq s msg
  refine inv_prepared rest set errors rfl rfl rfl rfl total fun _ => ?_
  rw [set] at first
  rw [first]
  exact Nat.le_of_eq (length_slice _ _ _)

/-- What `spi_transfer_then_transfer` is to do with two messages. -/
def planThen (s : Spi) (first second : TransMsg) : Plan where
  mem := s.mem
  goal := txBytes s.mem first ++ txBytes s.mem second
  rxBuf := 0
  rxLen := 0
  total := (s.spiTransferThenTransfer first second).rxTotal
  enough := Nat.zero_le _

theorem inv_spiTransferThenTransfer (rest : s.AtRest) (first second : TransMsg) :
    Inv (planThen s first second) (s.spiTransferThenTransfer first second) := by
  obtain ⟨ier, bcc, set, errors⟩ := prepare_eq { s with
    rxOffset := 0, rxLen := 0, dummylen := first.dummylen + second.dummylen }
    (first.txLen + second.txLen) 0 (first.txLen + second.txLen)
  have after := congrArg (fun s : Spi => { s with pc := .umask [first, second] }) set
  refine inv_prepared rest after errors rfl ?_ rfl rfl rfl fun more => absurd more (Nat.lt_irrefl 0)
  change txBytes s.mem first ++ (txBytes s.mem second ++ []) = _
  rw [List.append_nil]
  rfl

/-- A call that returns 0 has pushed all bytes, and the transfer has ended with all its bytes
stored. -/
theorem returns_zero (inv : Inv P s) (ret : Returns s 0) : s.pushed = P.goal ∧ Finished s := by
  have sends := inv.sends
  have watch := inv.watch
  rw [show s.pc = .ret 0 from ret] at sends watch
  refine ⟨?_, watch rfl⟩
  rcases sends with ⟨-, pushed⟩ | wrong
  · exact pushed
  · exact absurd wrong (by decide)

/-- What the controller received is then what the buffer holds, if it is of the size. -/
theorem returns_received (inv : Inv P s) (ret : Returns s 0) (all : P.rxLen = P.total) :
    slice s.mem P.rxBuf P.rxLen = s.received := by
  obtain ⟨-, ⟨ended, whole⟩, count⟩ := returns_zero inv ret
  have armed := inv.armed
  have handles := inv.core.handles
  rw [show s.pc = .ret 0 from ret] at armed
  rw [armed.2] at handles
  obtain ⟨k, ⟨-, -, kept⟩, counter, -⟩ := handles
  have full : k = P.rxLen := by
    rw [count, UInt32.toNat_zero] at counter
    omega
  have received := kept whole
  have length := (inv.core.ended ended).2
  rw [inv.core.total, ← all, received, List.length_append, length_slice, full] at length
  have empty : s.rxFifo = [] := List.length_eq_zero_iff.mp (by omega)
  rw [received, empty, List.append_nil, full]

/-- Wherever a call stands it has written nothing outside of its buffer. -/
theorem outside_untouched (inv : Inv P s) {a : Nat} (apart : a < P.rxBuf ∨ P.rxBuf + P.rxLen ≤ a) :
    s.mem a = P.mem a := by
  have stored {count move : Nat} (place : At P s count move) : s.mem a = P.mem a := by
    obtain ⟨k, ⟨small, outside, -⟩, -⟩ := place
    exact outside a (by omega)
  have handles := inv.core.handles
  rcases runs : s.handler with _ | stage
  · rw [runs] at handles
    exact stored handles
  · rw [runs] at handles
    cases stage with
    | busy | readIsr => exact stored handles
    | fail | readCount | loop | poll | take | shrink | advance | finish => exact stored handles.1

end T113Boot.Drivers.SpiInvariant
