/- Module: T113Boot/Drivers/SpiDelivery
   layer: results
   digest: A transfer that returns 0 has pushed and stored every byte, and an overflow fails it. -/

import Mathlib.Logic.Relation
import T113Boot.Drivers.SpiInvariant

set_option autoImplicit false
set_option relaxedAutoImplicit false

namespace T113Boot.Drivers.SpiDelivery

open T113Boot.Lib.Cells
open T113Boot.Lib.Flags
open T113Boot.Lib.Runs
open T113Boot.Drivers.SpiTransfer
open T113Boot.Drivers.SpiInvariant

variable {s s' : Spi} {P : Plan}

/-- Somewhere in a run a byte arrives while the receive FIFO is full. -/
def Overflows (s : Spi) (events : List Event) : Prop := ∃ before byte after mid,
  events = before ++ .arrive byte :: after ∧ run Spi.step s before = some mid ∧
    mid.rxFifo.length = fifoSize

/-- A step of the processor alone: a statement, or an interrupt that the controller asks for. -/
def OwnStep (s s' : Spi) : Prop := s.step .caller = some s' ∨
  (∃ val, s.step (.handler val) = some s') ∨ (s.requested = true ∧ s.step .interrupt = some s')

/-- What `spi_transfer` owes: where it has come to in the state `s'` of a run from `s`. -/
structure Delivers (s : Spi) (msg : TransMsg) (events : List Event) (s' : Spi) : Prop where
  pushed : Returns s' 0 → s'.pushed = txBytes s.mem msg
  received : Returns s' 0 → slice s'.mem msg.rxBuf msg.rxLen.toNat = s'.received
  outside : ∀ a, a < msg.rxBuf ∨ msg.rxBuf + msg.rxLen.toNat ≤ a → s'.mem a = s.mem a
  overflow : Overflows (s.spiTransfer msg) events → (∀ r, Returns s' r → r = -1) ∧
    ∃ s'', Relation.ReflTransGen OwnStep s' s'' ∧ Returns s'' (-1)

private theorem lost_caller (lost : Lost s) (step : s.caller = some s') : Lost s' := by
  unfold Spi.caller at step
  cases pc : s.pc with
  | push rest =>
    rw [pc] at step
    cases step
    unfold Spi.writeTxd
    split
    · exact lost
    · exact lost.or_left
  | ret r =>
    rw [pc] at step
    cases step
  | _ =>
    rw [pc] at step
    cases step
    exact lost

private theorem lost_handler (inv : Inv P s) (lost : Lost s) {val : UInt32} {stage : Irq}
    (runs : s.handler = some stage) (step : s.service val stage = some s') : Lost s' := by
  cases stage with
  | readIsr =>
    dsimp only [Spi.service] at step
    split at step
    · cases step
      exact lost
    · cases step
  | finish irqState =>
    have handles := inv.core.handles
    rw [runs] at handles
    obtain ⟨-, ⟨errors, -⟩, -⟩ := handles
    cases step
    split
    · exact lost
    · have unseen : irqState &&& spiRxOvf = 0 := by
        by_contra seen
        exact errors (Has.of_within (by decide) seen)
      refine (has_clear_apart ?_).mpr lost
      rw [UInt32.and_assoc, show irqBits &&& spiRxOvf = spiRxOvf by decide, unseen]
  | _ =>
    cases step
    exact lost

theorem lost_step (inv : Inv P s) (lost : Lost s) {event : Event} (step : s.step event = some s') :
    Lost s' := by
  cases event with
  | caller =>
    unfold Spi.step at step
    dsimp only at step
    split at step
    · exact lost_caller lost step
    · cases step
  | interrupt =>
    unfold Spi.step at step
    dsimp only at step
    split at step
    · cases step
      exact lost
    · cases step
  | handler val =>
    obtain ⟨stage, runs, serves⟩ := Option.bind_eq_some_iff.mp step
    exact lost_handler inv lost runs serves
  | send =>
    change s.send = some s' at step
    unfold Spi.send at step
    split at step
    · cases step
    · split at step
      · cases step
        exact lost
      · cases step
  | arrive byte =>
    change s.arrive byte = some s' at step
    unfold Spi.arrive at step
    split at step
    · split at step
      · cases step
        exact lost
      · cases step
        exact lost.or_left
    · cases step
  | complete =>
    change s.complete = some s' at step
    unfold Spi.complete at step
    split at step
    · cases step
      exact lost.or_left
    · cases step
  | fault flags =>
    cases step
    exact lost.or_left

/-- A call that has lost a byte. -/
def Doomed (P : Plan) (s : Spi) : Prop := Inv P s ∧ Lost s

theorem doomed_step {event : Event} (doomed : Doomed P s) (step : s.step event = some s') :
    Doomed P s' := ⟨inv_step doomed.1 step, lost_step doomed.1 doomed.2 step⟩

/-- A run in which the receive FIFO overflows is doomed, and there was something to receive. -/
theorem doomed_of_overflows {events : List Event} (inv : Inv P s) (overflows : Overflows s events)
    (run : run Spi.step s events = some s') : Doomed P s' ∧ 0 < P.total := by
  obtain ⟨before, byte, after, mid, rfl, reached, full⟩ := overflows
  have here := inv_run inv reached
  rw [run_append, reached, Option.bind_some] at run
  obtain ⟨next, arrives, rest⟩ := Option.bind_eq_some_iff.mp run
  have kept := inv_step here arrives
  change mid.arrive byte = some next at arrives
  unfold Spi.arrive at arrives
  split at arrives
  · rename_i comes
    rw [if_neg (Nat.not_lt.mpr (Nat.le_of_eq full.symm))] at arrives
    cases arrives
    have lost : Has (mid.isr ||| spiRxOvf) spiRxOvf := has_or.mpr (.inr (by decide))
    refine ⟨run_invariant (Doomed P) doomed_step ⟨kept, lost⟩ rest, ?_⟩
    rw [← here.core.total]
    exact Nat.lt_of_le_of_lt (Nat.zero_le _) comes.2.2
  · cases arrives

theorem doomed_returns (doomed : Doomed P s) {r : Int} (ret : Returns s r) : r = -1 := by
  have sends := doomed.1.sends
  have watch := doomed.1.watch
  rw [show s.pc = .ret r from ret] at sends watch
  rcases sends with ⟨zero, -⟩ | wrong
  · exact absurd doomed.2 (watch zero).1.2
  · exact wrong

abbrev Goes : Spi → Spi → Prop := Relation.ReflTransGen OwnStep

theorem doomed_own (doomed : Doomed P s) (step : OwnStep s s') : Doomed P s' := by
  rcases step with step | ⟨val, step⟩ | ⟨-, step⟩
  · exact doomed_step doomed step
  · exact doomed_step doomed step
  · exact doomed_step doomed step

theorem doomed_goes (doomed : Doomed P s) (goes : Goes s s') : Doomed P s' := by
  induction goes with
  | refl => exact doomed
  | tail _ step ih => exact doomed_own ih step

private theorem own_caller (stands : s.handler = none) (step : s.caller = some s') :
    OwnStep s s' := by
  refine .inl ?_
  rw [Spi.step, stands]
  exact step

private theorem own_handler {stage : Irq} (val : UInt32) (runs : s.handler = some stage)
    (step : s.service val stage = some s') : OwnStep s s' := by
  refine .inr (.inl ⟨val, ?_⟩)
  rw [Spi.step, runs]
  exact step

private theorem exists_reads (s : Spi) : ∃ val, s.reads val = true := by
  have both (ready : UInt32) (apart : ready &&& (spiTc ||| irqErrors) = 0) :
      ((s.isr &&& (spiTc ||| irqErrors)) ||| ready) &&& (spiTc ||| irqErrors) =
          s.isr &&& (spiTc ||| irqErrors) ∧
        (Has ((s.isr &&& (spiTc ||| irqErrors)) ||| ready) spiRxRdy ↔ Has ready spiRxRdy) := by
    constructor
    · rw [or_and, apart, UInt32.or_zero, UInt32.and_assoc, UInt32.and_self]
    · have none : ¬ Has (s.isr &&& (spiTc ||| irqErrors)) spiRxRdy := by
        refine not_not_intro ?_
        rw [UInt32.and_assoc, show (spiTc ||| irqErrors) &&& spiRxRdy = 0 by decide,
          UInt32.and_zero]
      rw [has_or, or_iff_right none]
  by_cases filled : s.rxFifo = []
  · obtain ⟨same, ready⟩ := both 0 (by decide)
    refine ⟨_, decide_eq_true ⟨same, ready.trans (iff_of_false (by decide) ?_)⟩⟩
    exact not_not_intro filled
  · obtain ⟨same, ready⟩ := both spiRxRdy (by decide)
    exact ⟨_, decide_eq_true ⟨same, ready.trans (iff_of_true (by decide) filled)⟩⟩

/-- An upper bound of the statements that the handler still has. -/
def statements (fifo : Nat) : Irq → Nat
  | .busy => 6 * fifo + 5
  | .readIsr => 6 * fifo + 4
  | .fail => 0
  | .readCount _ => 6 * fifo + 3
  | .loop _ byteCnt i => 6 * (byteCnt - i) + 2
  | .poll _ byteCnt i _ => 6 * (byteCnt - i) + 1
  | .take _ byteCnt i => 6 * (byteCnt - (i + 1)) + 5
  | .shrink _ byteCnt i => 6 * (byteCnt - (i + 1)) + 4
  | .advance _ byteCnt i => 6 * (byteCnt - (i + 1)) + 3
  | .finish _ => 0

private theorem service_progress (inv : Inv P s) {stage : Irq} (runs : s.handler = some stage) :
    ∃ val s', s.service val stage = some s' ∧ s'.pc = s.pc ∧
      ∀ stage', s'.handler = some stage' →
        statements s'.rxFifo.length stage' < statements s.rxFifo.length stage := by
  have handles := inv.core.handles
  rw [runs] at handles
  cases stage with
  | readIsr =>
    obtain ⟨val, reads⟩ := exists_reads s
    refine ⟨val, _, if_pos reads, rfl, fun stage' next => ?_⟩
    cases next
    split
    · exact Nat.succ_pos _
    · split
      · exact Nat.lt_succ_self _
      · exact Nat.succ_pos _
  | busy | readCount =>
    refine ⟨0, _, rfl, rfl, fun stage' next => ?_⟩
    cases next
    exact Nat.lt_succ_self _
  | fail =>
    refine ⟨0, _, rfl, rfl, fun stage' next => ?_⟩
    cases next
  | loop irqState byteCnt i =>
    refine ⟨0, _, rfl, rfl, fun stage' next => ?_⟩
    cases next
    dsimp only
    split
    · split
      · exact Nat.lt_succ_self _
      · dsimp only [statements]
        omega
    · exact Nat.succ_pos _
  | poll irqState byteCnt i pollTime =>
    obtain ⟨-, -, ⟨fifo, -⟩, inside, -, time⟩ := handles
    refine ⟨0, _, rfl, rfl, fun stage' next => ?_⟩
    cases next
    dsimp only
    rw [if_pos time, if_pos (show s.rxFifo.length > 0 by omega)]
    dsimp only [statements]
    omega
  | take | shrink | advance =>
    refine ⟨0, _, rfl, rfl, fun stage' next => ?_⟩
    cases next
    exact Nat.lt_succ_self _
  | finish irqState =>
    refine ⟨0, _, rfl, ?_, fun stage' next => ?_⟩
    · split
      · rfl
      · rfl
    · split at next
      · cases next
      · cases next

private theorem handler_ends : ∀ {n : Nat} {s : Spi} {stage : Irq}, Inv P s →
    s.handler = some stage → statements s.rxFifo.length stage ≤ n →
    ∃ s', Goes s s' ∧ s'.handler = none ∧ s'.pc = s.pc := by
  intro n
  induction n with
  | zero =>
    intro s stage inv runs bound
    obtain ⟨val, next, step, pc, fewer⟩ := service_progress inv runs
    refine ⟨next, .single (own_handler val runs step), ?_, pc⟩
    rcases later : next.handler with _ | stage'
    · rfl
    · have less := fewer stage' later
      omega
  | succ n ih =>
    intro s stage inv runs bound
    obtain ⟨val, next, step, pc, fewer⟩ := service_progress inv runs
    rcases later : next.handler with _ | stage'
    · exact ⟨next, .single (own_handler val runs step), later, pc⟩
    · have less := fewer stage' later
      obtain ⟨s', goes, stands, same⟩ := ih (inv_handler inv runs step) later (by omega)
      exact ⟨s', .head (own_handler val runs step) goes, stands, same.trans pc⟩

private theorem reaches_caller (inv : Inv P s) :
    ∃ s', Goes s s' ∧ s'.handler = none ∧ s'.pc = s.pc := by
  rcases stands : s.handler with _ | stage
  · exact ⟨s, .refl, stands, rfl⟩
  · exact handler_ends inv stands (Nat.le_refl _)

private theorem doomed_pushed (doomed : Doomed P s) (receives : 0 < P.rxLen) :
    P.goal.length ≤ s.pushed.length :=
  Nat.le_trans (doomed.1.core.first receives) (doomed.1.core.early (.inr doomed.2))

private theorem nothing_left (doomed : Doomed P s) (receives : 0 < P.rxLen) {left : List UInt8}
    (whole : s.pushed ++ left = P.goal) : left = [] := by
  have all := doomed_pushed doomed receives
  rw [← whole, List.length_append] at all
  exact List.length_eq_zero_iff.mp (by omega)

private theorem txLen_zero {m : Mem} {a : Nat} {n : UInt32} (none : slice m a n.toNat = []) :
    n = 0 := by
  have length := length_slice m a n.toNat
  rw [none] at length
  exact UInt32.toNat_inj.mp length.symm

private theorem reaches_wait (receives : 0 < P.rxLen) (rest : List TransMsg) :
    ∀ {s : Spi}, Doomed P s → s.handler = none → s.pc = .write rest →
      ∃ s', Goes s s' ∧ s'.handler = none ∧ s'.pc = .wait := by
  induction rest with
  | nil =>
    intro s doomed stands pc
    have sends := doomed.1.sends
    rw [pc] at sends
    have none_ := (List.append_eq_nil_iff.mp (nothing_left doomed receives sends)).1
    have step : s.caller = some { s with pc := .wait } := by
      rw [Spi.caller, pc]
      dsimp only
      rw [if_neg (not_not_intro (txLen_zero none_))]
      rfl
    exact ⟨_, .single (own_caller stands step), stands, rfl⟩
  | cons msg rest ih =>
    intro s doomed stands pc
    have sends := doomed.1.sends
    rw [pc] at sends
    have none_ := (List.append_eq_nil_iff.mp (nothing_left doomed receives sends)).1
    have step : s.caller = some { s with pc := .load msg rest } := by
      rw [Spi.caller, pc]
      dsimp only
      rw [if_neg (not_not_intro (txLen_zero none_))]
      rfl
    have first := own_caller stands step
    have second : OwnStep { s with pc := .load msg rest } { s with
      txOffset := msg.txBuf, txLen := msg.txLen, pc := .write rest } := own_caller stands rfl
    obtain ⟨s', goes, ends⟩ := ih (doomed_own (doomed_own doomed first) second) stands rfl
    exact ⟨s', .head first (.head second goes), ends⟩

private theorem returns_of_error (stands : s.handler = none) (failed : s.spiState = .error)
    (pc : s.pc = .wait ∨ s.pc = .disable ∨ s.pc = .mask ∨ s.pc = .check) :
    ∃ s', Goes s s' ∧ Returns s' (-1) := by
  have check {s : Spi} (stands : s.handler = none) (failed : s.spiState = .error)
      (pc : s.pc = .check) : ∃ s', Goes s s' ∧ Returns s' (-1) := by
    have step : s.caller = some { s with pc := .ret (-1) } := by
      rw [Spi.caller, pc]
      dsimp only
      rw [if_pos failed]
    exact ⟨_, .single (own_caller stands step), rfl⟩
  have mask {s : Spi} (stands : s.handler = none) (failed : s.spiState = .error)
      (pc : s.pc = .mask) : ∃ s', Goes s s' ∧ Returns s' (-1) := by
    have step : s.caller = some { s.interruptMask with pc := .check } := by rw [Spi.caller, pc]
    obtain ⟨s', goes, ret⟩ := check (s := { s.interruptMask with pc := .check }) stands failed rfl
    exact ⟨s', .head (own_caller stands step) goes, ret⟩
  have disable {s : Spi} (stands : s.handler = none) (failed : s.spiState = .error)
      (pc : s.pc = .disable) : ∃ s', Goes s s' ∧ Returns s' (-1) := by
    have step : s.caller = some { s.spiDisableIrq 0xffff with pc := .mask } := by
      rw [Spi.caller, pc]
    obtain ⟨s', goes, ret⟩ :=
      mask (s := { s.spiDisableIrq 0xffff with pc := .mask }) stands failed rfl
    exact ⟨s', .head (own_caller stands step) goes, ret⟩
  rcases pc with pc | pc | pc | pc
  · have step : s.caller = some { s with pc := .disable } := by
      rw [Spi.caller, pc]
      dsimp only
      rw [if_neg (by rw [failed]; decide)]
    obtain ⟨s', goes, ret⟩ := disable (s := { s with pc := .disable }) stands failed rfl
    exact ⟨s', .head (own_caller stands step) goes, ret⟩
  · exact disable stands failed pc
  · exact mask stands failed pc
  · exact check stands failed pc

private theorem reports_error (doomed : Doomed P s) (stands : s.handler = none)
    (pc : s.pc = .wait) :
    ∃ s', Goes s s' ∧ s'.handler = none ∧ s'.spiState = .error ∧ s'.pc = .wait := by
  have armed := doomed.1.armed
  rw [pc] at armed
  obtain ⟨open_, enabled⟩ := armed
  have asked : s.requested = true := by
    refine decide_eq_true (and_ne_zero_of_has (m := spiRxOvf) (i := 8) (by decide) enabled ?_)
    exact doomed.2.or_left
  have enters : OwnStep s { s with handler := some .busy } := by
    refine .inr (.inr ⟨asked, ?_⟩)
    rw [Spi.step, stands, open_]
  have begins : OwnStep { s with handler := some .busy } { s with
      spiState := .busy, handler := some .readIsr } := own_handler 0 rfl rfl
  obtain ⟨val, reads⟩ := exists_reads { s with spiState := .busy, handler := some .readIsr }
  have errors : val &&& irqBits &&& irqErrors ≠ 0 :=
    (read_flags reads (by decide) (by decide)).mpr doomed.2.erring
  have sees : OwnStep { s with spiState := .busy, handler := some .readIsr } { s with
      spiState := .busy, handler := some .fail } := by
    refine own_handler val rfl ?_
    dsimp only [Spi.service]
    rw [if_pos reads, if_pos errors]
  have fails : OwnStep { s with spiState := .busy, handler := some .fail } { s with
      spiState := .error, handler := none } := own_handler 0 rfl rfl
  exact ⟨_, .head enters (.head begins (.head sees (.single fails))), rfl, rfl, pc⟩

/-- Wherever an overflow has found the call, it goes on to return -1. -/
theorem doomed_goes_on (doomed : Doomed P s) (receives : 0 < P.rxLen) :
    ∃ s', Goes s s' ∧ Returns s' (-1) := by
  have fails_waiting {s : Spi} (doomed : Doomed P s) (stands : s.handler = none)
      (pc : s.pc = .wait) : ∃ s', Goes s s' ∧ Returns s' (-1) := by
    obtain ⟨s', goes, stands, failed, waits⟩ := reports_error doomed stands pc
    obtain ⟨s'', returns, ret⟩ := returns_of_error stands failed (.inl waits)
    exact ⟨s'', goes.trans returns, ret⟩
  have fails_writing {s : Spi} {rest : List TransMsg} (doomed : Doomed P s)
      (stands : s.handler = none) (pc : s.pc = .write rest) :
      ∃ s', Goes s s' ∧ Returns s' (-1) := by
    obtain ⟨s', goes, stands, waits⟩ := reaches_wait receives rest doomed stands pc
    obtain ⟨s'', fails, ret⟩ := fails_waiting (doomed_goes doomed goes) stands waits
    exact ⟨s'', goes.trans fails, ret⟩
  have fails_loading {s next : Spi} {rest : List TransMsg} (doomed : Doomed P s)
      (step : OwnStep s next) (stands : next.handler = none) (pc : next.pc = .write rest) :
      ∃ s', Goes s s' ∧ Returns s' (-1) := by
    obtain ⟨s', goes, ret⟩ := fails_writing (doomed_own doomed step) stands pc
    exact ⟨s', .head step goes, ret⟩
  obtain ⟨t, goes, stands, -⟩ := reaches_caller doomed.1
  have doomed := doomed_goes doomed goes
  suffices ends : ∃ s', Goes t s' ∧ Returns s' (-1) by
    obtain ⟨s', later, ret⟩ := ends
    exact ⟨s', goes.trans later, ret⟩
  have armed := doomed.1.armed
  have sends := doomed.1.sends
  have watch := doomed.1.watch
  have step (s' : Spi) (next : t.caller = some s') : OwnStep t s' := own_caller stands next
  unfold Spi.caller at step
  cases pc : t.pc with
  | umask msgs =>
    rw [pc] at armed
    exact absurd doomed.2 armed.2.2.1
  | setBusy | startXfer =>
    rw [pc] at armed
    exact absurd doomed.2 armed.2.2.2.1
  | load msg rest =>
    rw [pc] at step
    exact fails_loading doomed (step _ rfl) stands rfl
  | write rest => exact fails_writing doomed stands pc
  | poll rest pollTime =>
    rw [pc] at sends
    have none_ := (List.append_eq_nil_iff.mp (nothing_left doomed receives sends.1)).1
    exact absurd (txLen_zero none_) sends.2
  | push rest =>
    rw [pc] at sends
    have none_ := (List.append_eq_nil_iff.mp (nothing_left doomed receives sends.1)).1
    exact absurd (txLen_zero none_) sends.2.1
  | shrink rest =>
    rw [pc] at step
    have first := step _ rfl
    have second := own_caller (s := { t with txLen := t.txLen - 1, pc := .advance rest }) stands rfl
    obtain ⟨s', later, ret⟩ := fails_loading (doomed_own doomed first) second stands rfl
    exact ⟨s', .head first later, ret⟩
  | advance rest =>
    rw [pc] at step
    exact fails_loading doomed (step _ rfl) stands rfl
  | wait => exact fails_waiting doomed stands pc
  | disable | mask | check =>
    rw [pc] at watch
    rcases watch.2 with finished | failing
    · exact absurd doomed.2 finished.1.2
    · have failed := failing.2
      rw [stands] at failed
      refine returns_of_error stands failed ?_
      simp [pc]
  | abort =>
    rw [pc] at step
    have second := own_caller (s := { t.spiDisableIrq 0xffff with pc := .abortMask }) stands rfl
    exact ⟨_, .head (step _ rfl) (.single second), rfl⟩
  | abortMask =>
    rw [pc] at step
    exact ⟨_, .single (step _ rfl), rfl⟩
  | ret r =>
    have failed := doomed_returns doomed pc
    rw [failed] at pc
    exact ⟨t, .refl, pc⟩

/-- A call leaves the driver at rest again if it returns 0. -/
theorem at_rest_of_returns (inv : Inv P s) (ret : Returns s 0) : s.AtRest := by
  have armed := inv.armed
  rw [show s.pc = .ret 0 from ret] at armed
  exact ⟨armed.1, armed.2, (inv.core.ended (returns_zero inv ret).2.1.1).1⟩

/-- A transfer that returns 0 has pushed its bytes and stored those received, one that loses a byte
returns -1, and none writes outside of its buffer; and both messages of a double transfer that
returns 0 are pushed. -/
theorem spi_delivers (rest : s.AtRest) :
    (∀ msg, WellFormed msg → ∀ events s', run Spi.step (s.spiTransfer msg) events = some s' →
      Delivers s msg events s') ∧
    ∀ first second events s',
      run Spi.step (s.spiTransferThenTransfer (some first) (some second)) events = some s' →
      Returns s' 0 → s'.pushed = txBytes s.mem first ++ txBytes s.mem second := by
  constructor
  · intro msg well events s' run
    have start := inv_spiTransfer rest well
    have inv := inv_run start run
    refine ⟨fun ret => (returns_zero inv ret).1, fun ret => returns_received inv ret rfl,
      fun a apart => outside_untouched inv apart, fun overflows => ?_⟩
    obtain ⟨doomed, receives⟩ := doomed_of_overflows start overflows run
    exact ⟨fun r ret => doomed_returns doomed ret, doomed_goes_on doomed receives⟩
  · intro first second events s' run ret
    exact (returns_zero (inv_run (inv_spiTransferThenTransfer rest first second) run) ret).1

/-- The driver as `spi_init` leaves it. -/
def initialized : Spi where
  pc := .ret 0
  handler := none
  txOffset := 0
  txLen := 0
  rxOffset := 0
  rxLen := 0
  dummylen := 0
  spiState := .idle
  mem := fun a => .ofNat a
  masked := true
  ier := 0
  isr := 0
  mbc := 0
  mtc := 0
  bcc := 0
  xch := false
  txFifo := []
  rxFifo := []
  sent := []
  received := []

/-- A byte to be sent, and so many to be received. -/
def request (rxLen : UInt32) : TransMsg where
  txBuf := 0x0F
  txLen := 1
  rxBuf := 0x100
  rxLen := rxLen
  dummylen := 0

theorem wellFormed_request {rxLen : UInt32} (small : rxLen.toNat < 2 ^ 24 - 1) :
    WellFormed (request rxLen) := by
  refine ⟨Nat.succ_ne_zero 0x0E, fun _ => Nat.succ_ne_zero 0xFF, ?_⟩
  change 1 + rxLen.toNat + 0 < 2 ^ 24
  omega

/-- The caller up to the push; an interrupt, behind whose look at the flags the byte arrives; the
one that finds it; and the rest of the caller. -/
def oneByte : List Event :=
  List.replicate 6 Event.caller ++
    [.interrupt, .handler 0, .handler 0, .send, .arrive 0x5A, .complete, .handler 0,
      .interrupt, .handler 0, .handler 0x1001] ++
    List.replicate 8 (Event.handler 0) ++ List.replicate 7 Event.caller

/-- As many bytes as the FIFO takes, all before the first interrupt. -/
def fillFifo : List Event :=
  List.replicate 6 Event.caller ++ List.replicate 64 (Event.arrive 0)

theorem spi_delivers_oneByte :
    (∃ s', run Spi.step (initialized.spiTransfer (request 1)) oneByte = some s' ∧ Returns s' 0 ∧
      Delivers initialized (request 1) oneByte s') ∧
    ∃ s', run Spi.step (initialized.spiTransfer (request 65)) (fillFifo ++ [.arrive 1]) = some s' ∧
      Overflows (initialized.spiTransfer (request 65)) (fillFifo ++ [.arrive 1]) ∧
      Delivers initialized (request 65) (fillFifo ++ [.arrive 1]) s' := by
  have rest : initialized.AtRest := by decide
  have small {n : UInt32} (bound : n.toNat < 66) : WellFormed (request n) :=
    wellFormed_request (by omega)
  constructor
  · have value : (run Spi.step (initialized.spiTransfer (request 1)) oneByte).map
        (fun s => match s.pc with | .ret r => some r | _ => none) = some (some 0) := by
      decide +kernel
    obtain ⟨s', reached, ret⟩ := Option.map_eq_some_iff.mp value
    refine ⟨s', reached, ?_, (spi_delivers rest).1 _ (small (by decide)) oneByte s' reached⟩
    unfold Returns
    split at ret
    · rename_i r pc
      cases ret
      exact pc
    · cases ret
  · have value : (run Spi.step (initialized.spiTransfer (request 65)) fillFifo).map
        (fun s => (s.rxFifo.length, (s.step (.arrive 1)).isSome)) = some (fifoSize, true) := by
      decide +kernel
    obtain ⟨mid, reached, full⟩ := Option.map_eq_some_iff.mp value
    obtain ⟨s', last⟩ := Option.isSome_iff_exists.mp (congrArg Prod.snd full)
    have all : run Spi.step (initialized.spiTransfer (request 65)) (fillFifo ++ [.arrive 1]) =
        some s' := by
      rw [run_append, reached, Option.bind_some, run_cons last]
      rfl
    exact ⟨s', all, ⟨fillFifo, 1, [], mid, rfl, reached, congrArg Prod.fst full⟩,
      (spi_delivers rest).1 _ (small (by decide)) _ s' all⟩

end T113Boot.Drivers.SpiDelivery
