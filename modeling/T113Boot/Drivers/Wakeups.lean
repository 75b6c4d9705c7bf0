/- Module: T113Boot/Drivers/Wakeups
   layer: results
   digest: When the receive thread sleeps, the receive interrupt can wake it. -/

import T113Boot.Drivers.Emac

set_option autoImplicit false
set_option relaxedAutoImplicit false

namespace T113Boot.Drivers.Wakeups

open T113Boot.Lib.Runs
open T113Boot.Drivers.Emac

variable {s s' : EmacDev} {allocated : Bool}

/-- The receive interrupt is enabled and its line unmasked. -/
def Ready (s : EmacDev) : Prop := s.intEn &&& rxInt ≠ 0 ∧ s.masked = false

/-- Before these statements the thread has yet to look at a descriptor, or goes on with what enables
the interrupt, whatever the counter says. -/
def ahead : Pc → Bool
  | .asleep | .count none | .exit false none | .unmask none | .back none => false
  | _ => true

/-- The interrupt comes for a received frame, or finds the thread notified or still at work; and an
allocation fails only where the interrupt is ready, the thread is notified, or the counter is about
to pass its limit. -/
def Notifies (s : EmacDev) : Event → Prop
  | .irq status => status &&& rxInt ≠ 0 ∨ s.mailbox ≠ 0 ∨ ahead s.pc = true
  | .thread allocated => ∀ len, s.pc = .alloc len → allocated = false →
      Ready s ∨ s.mailbox ≠ 0 ∨ emacRxFrameMax ≤ s.rxCount
  | _ => True

/-- From a statement, with such a counter and such a register, the thread comes to the statements
that enable the interrupt. -/
def enables (rxCount : Nat) (intEn : UInt32) : Pc → Prop
  | .asleep => False
  | .count none => emacRxFrameMax ≤ rxCount
  | .exit overFlag none => emacRxFrameMax < rxCount ∨ overFlag = true
  | .unmask none => intEn &&& rxInt ≠ 0
  | .back none => False
  | _ => True

def Enables (s : EmacDev) : Prop := enables s.rxCount s.intEn s.pc

/-- A notice stands for a message, or for one just taken; and the interrupt is ready, or the thread
notified, or about to make it ready. -/
structure Watched (s : EmacDev) : Prop where
  notice : s.rxNotice = true → s.mailbox ≠ 0 ∨ s.pc = .woken
  ready : Ready s ∨ s.mailbox ≠ 0 ∨ Enables s

theorem rxInt_set : rxInt &&& rxInt ≠ 0 := by decide

theorem watched_started (mem : Nat → Nat → UInt8) (cache : Nat → Nat → Option UInt8) :
    Watched (started mem cache) where
  notice h := absurd h Bool.noConfusion
  ready := .inl ⟨rxInt_set, rfl⟩

theorem Watched.go (watched : Watched s) (awake : s.pc ≠ .woken)
    (messages : s'.rxNotice = s.rxNotice ∧ s'.mailbox = s.mailbox)
    (keeps : Ready s → Ready s') (next : Enables s → Ready s' ∨ s'.mailbox ≠ 0 ∨ Enables s') :
    Watched s' := by
  refine ⟨fun notice => .inl ?_, ?_⟩
  · rw [messages.1] at notice
    rw [messages.2]
    exact (watched.notice notice).resolve_right awake
  · rcases watched.ready with ready | pending | enables
    · exact .inl (keeps ready)
    · exact .inr (.inl (messages.2 ▸ pending))
    · exact next enables

theorem watched_thread (watched : Watched s) (meets : Notifies s (.thread allocated))
    (step : s.thread allocated = some s') : Watched s' := by
  have go := @Watched.go s s' watched
  unfold Enables at go
  unfold EmacDev.thread at step
  cases pc : s.pc with
  | asleep =>
    simp only [pc] at step
    split at step
    · cases step
    · cases step
      exact ⟨fun _ => .inr rfl, .inr (.inr trivial)⟩
  | woken =>
    simp only [pc] at step
    cases step
    exact ⟨fun h => absurd h Bool.noConfusion, .inr (.inr trivial)⟩
  | check =>
    simp only [pc] at step
    rw [pc] at go
    cases step
    refine go Pc.noConfusion ⟨rfl, rfl⟩ id fun _ => .inr (.inr ?_)
    dsimp only
    split
    · exact .inr rfl
    · trivial
  | alloc len =>
    simp only [pc] at step
    rw [pc] at go
    cases step
    refine go Pc.noConfusion ⟨rfl, rfl⟩ id fun _ => ?_
    cases allocated with
    | true => exact .inr (.inr trivial)
    | false => exact meets len pc rfl
  | measure | handBack len | invalidate len | copy len | advance puf =>
    simp only [pc] at step
    rw [pc] at go
    cases step
    exact go Pc.noConfusion ⟨rfl, rfl⟩ id fun _ => .inr (.inr trivial)
  | count puf =>
    simp only [pc] at step
    rw [pc] at go
    cases step
    refine go Pc.noConfusion ⟨rfl, rfl⟩ id fun enough => .inr (.inr ?_)
    cases puf with
    | none => exact .inl (Nat.lt_succ_of_le enough)
    | some puf => trivial
  | exit overFlag puf =>
    simp only [pc] at step
    rw [pc] at go
    cases step
    refine go Pc.noConfusion ⟨rfl, rfl⟩ id fun enough => .inr (.inr ?_)
    dsimp only
    split
    · trivial
    · cases puf with
      | none => contradiction
      | some puf => trivial
  | reset puf =>
    simp only [pc] at step
    rw [pc] at go
    cases step
    exact go Pc.noConfusion ⟨rfl, rfl⟩ id fun _ => .inr (.inr trivial)
  | enable puf =>
    simp only [pc] at step
    rw [pc] at go
    cases step
    refine go Pc.noConfusion ⟨rfl, rfl⟩ (fun ready => ⟨rxInt_set, ready.2⟩) fun _ =>
      .inr (.inr ?_)
    cases puf with
    | none => exact rxInt_set
    | some puf => trivial
  | unmask puf =>
    simp only [pc] at step
    rw [pc] at go
    cases step
    refine go Pc.noConfusion ⟨rfl, rfl⟩ (fun ready => ⟨ready.1, rfl⟩) fun on => ?_
    cases puf with
    | none => exact .inl ⟨on, rfl⟩
    | some puf => exact .inr (.inr trivial)
  | back puf =>
    cases puf with
    | none =>
      simp only [pc] at step
      rw [pc] at go
      cases step
      exact go Pc.noConfusion ⟨rfl, rfl⟩ id fun never => never.elim
    | some puf =>
      simp only [pc] at step
      rw [pc] at go
      cases step
      exact go Pc.noConfusion ⟨rfl, rfl⟩ id fun _ => .inr (.inr trivial)

theorem enables_of_ahead {p : Pc} (rxCount : Nat) (intEn : UInt32) (before : ahead p = true) :
    enables rxCount intEn p := by
  rcases p with _ | _ | _ | _ | _ | _ | _ | _ | _ | ⟨_ | _⟩ | ⟨_ | _, _ | _⟩ | _ | _ | ⟨_ | _⟩ |
    ⟨_ | _⟩ <;> first
      | exact absurd before Bool.noConfusion
      | exact .inr rfl
      | trivial

theorem watched_irq (watched : Watched s) (status : UInt32) (meets : Notifies s (.irq status)) :
    Watched (s.emacIrqHandle status) := by
  unfold EmacDev.emacIrqHandle
  dsimp only
  by_cases frame : status &&& rxInt ≠ 0
  · rw [if_pos frame]
    unfold EmacDev.ethDeviceReady
    dsimp only
    by_cases told : s.rxNotice = false
    · rw [if_pos told]
      exact ⟨fun _ => .inl (Nat.succ_ne_zero _), .inr (.inl (Nat.succ_ne_zero _))⟩
    · rw [if_neg told]
      have pending := watched.notice ((Bool.not_eq_false _).mp told)
      refine ⟨fun _ => pending, .inr ?_⟩
      refine pending.imp id fun woken => ?_
      show enables 0 0 s.pc
      rw [woken]
      trivial
  · rw [if_neg frame]
    refine ⟨watched.notice, .inr ?_⟩
    exact (meets.resolve_left frame).imp id fun before => enables_of_ahead 0 0 before

theorem watched_step {event : Event} (watched : Watched s) (meets : Notifies s event)
    (step : s.step event = some s') : Watched s' := by
  cases event with
  | thread allocated => exact watched_thread watched meets step
  | irq status =>
    cases step
    exact watched_irq watched status meets
  | dma frame desc0 =>
    unfold EmacDev.step EmacDev.dmaWrite at step
    dsimp only at step
    split at step
    · cases step
      exact ⟨watched.notice, watched.ready⟩
    · cases step
  | fill i k =>
    cases step
    exact ⟨watched.notice, watched.ready⟩

/-- In every run whose steps meet the condition, a thread that sleeps without a message to wake it
has the interrupt enabled and unmasked. -/
theorem asleep_ready {mem : Nat → Nat → UInt8} {cache : Nat → Nat → Option UInt8}
    {events : List Event} (meets : Along EmacDev.step Notifies (started mem cache) events)
    (reached : run EmacDev.step (started mem cache) events = some s) (asleep : s.pc = .asleep)
    (silent : s.mailbox = 0) : s.intEn &&& rxInt ≠ 0 ∧ s.masked = false := by
  have watched := run_invariant_along Watched watched_step (watched_started mem cache) meets reached
  rcases watched.ready with ready | pending | never
  · exact ready
  · exact absurd silent pending
  · rw [Enables, asleep] at never
    exact never.elim

/-- The thread sleeps, no message waits for it, and no interrupt can come. -/
def Stalled (s : EmacDev) : Prop := s.pc = .asleep ∧ s.mailbox = 0 ∧ ¬ Ready s

/-- The thread goes on by itself until it is stalled. -/
def Stalls (s : EmacDev) : Prop :=
  ∃ n s', run EmacDev.step s (List.replicate n (.thread false)) = some s' ∧ Stalled s'

theorem stalls_of_thread (s' : EmacDev) (step : s.thread false = some s') (stalls : Stalls s') :
    Stalls s := by
  obtain ⟨n, s'', later, stalled⟩ := stalls
  refine ⟨n + 1, s'', ?_, stalled⟩
  rw [List.replicate_succ, run_cons (show s.step (.thread false) = some s' from step)]
  exact later

theorem stalls_of_asleep (stalled : Stalled s) : Stalls s := ⟨0, s, rfl, stalled⟩

section Missed

variable (silent : s.mailbox = 0)
include silent

theorem stalls_of_back (pc : s.pc = .back none) (off : ¬ Ready s) : Stalls s := by
  refine stalls_of_thread { s with pc := .asleep } ?_ (stalls_of_asleep ⟨rfl, silent, off⟩)
  rw [EmacDev.thread, pc]

theorem stalls_of_exit (pc : s.pc = .exit false none) (few : s.rxCount ≤ emacRxFrameMax)
    (off : ¬ Ready s) : Stalls s := by
  refine stalls_of_thread { s with pc := .back none } ?_ (stalls_of_back silent rfl off)
  have below : ¬ (emacRxFrameMax < s.rxCount ∨ false = true) := by
    rintro (above | never)
    · exact Nat.not_lt_of_le few above
    · cases never
  rw [EmacDev.thread, pc]
  dsimp only
  rw [if_neg below]

theorem stalls_of_count (pc : s.pc = .count none) (few : s.rxCount < emacRxFrameMax)
    (off : ¬ Ready s) : Stalls s := by
  refine stalls_of_thread { s with rxCount := s.rxCount + 1, pc := .exit false none } ?_
    (stalls_of_exit silent rfl few off)
  rw [EmacDev.thread, pc]

end Missed

/-- Whatever step misses the condition, if nothing else happens the thread is stalled behind it. -/
theorem missed_stalls {event : Event} (missed : ¬ Notifies s event) :
    ∃ s', s.step event = some s' ∧ Stalls s' := by
  cases event with
  | thread allocated =>
    obtain ⟨len, missed⟩ := not_forall.mp missed
    obtain ⟨pc, missed⟩ := Classical.not_imp.mp missed
    obtain ⟨failed, missed⟩ := Classical.not_imp.mp missed
    rw [not_or, not_or] at missed
    obtain ⟨off, silent, few⟩ := missed
    subst failed
    refine ⟨{ s with pc := .count none }, ?_, ?_⟩
    · show s.thread false = _
      rw [EmacDev.thread, pc]
      rfl
    · exact stalls_of_count (not_not.mp silent) rfl (Nat.lt_of_not_le few) off
  | irq status =>
    refine ⟨_, rfl, ?_⟩
    have missed' : ¬ (status &&& rxInt ≠ 0 ∨ s.mailbox ≠ 0 ∨ ahead s.pc = true) := missed
    rw [not_or, not_or] at missed'
    obtain ⟨other, silent, late⟩ := missed'
    unfold EmacDev.emacIrqHandle
    dsimp only
    rw [if_neg other]
    have silent := not_not.mp silent
    rcases pc : s.pc with _ | _ | _ | _ | _ | _ | _ | _ | _ | ⟨_ | _⟩ | ⟨_ | _, _ | _⟩ | _ | _ |
      ⟨_ | _⟩ | ⟨_ | _⟩ <;> rw [pc] at late <;> first
        | exact absurd rfl late
        | skip
    · exact stalls_of_asleep ⟨rfl, silent, fun ready => Bool.noConfusion ready.2⟩
    · exact stalls_of_count silent rfl (Nat.succ_pos 29) fun ready => Bool.noConfusion ready.2
    · exact stalls_of_exit silent rfl (Nat.zero_le _) fun ready => Bool.noConfusion ready.2
    · have nothing : (0x00 : UInt32) &&& rxInt = 0 := by decide
      exact stalls_of_thread _ rfl (stalls_of_back silent rfl fun ready => ready.1 nothing)
    · exact stalls_of_back silent rfl fun ready => Bool.noConfusion ready.2
  | dma frame desc0 => exact absurd trivial missed
  | fill i k => exact absurd trivial missed

def allocating : Pc → Bool
  | .alloc _ => true
  | _ => false

theorem allocating_iff (pc : Pc) : allocating pc = true ↔ ∃ len, pc = .alloc len := by
  cases pc <;> simp [allocating]

instance (s : EmacDev) : Decidable (Ready s) := inferInstanceAs (Decidable (_ ∧ _))

instance (s : EmacDev) : ∀ event, Decidable (Notifies s event)
  | .irq _ => inferInstanceAs (Decidable (_ ∨ _))
  | .thread allocated => decidable_of_iff (allocating s.pc = true → allocated = false →
      Ready s ∨ s.mailbox ≠ 0 ∨ emacRxFrameMax ≤ s.rxCount)
      ((imp_congr_left (allocating_iff s.pc)).trans forall_exists_index)
  | .dma _ _ | .fill _ _ => inferInstanceAs (Decidable True)

/-- Of 31 frames the last one finds no buffer, but by then the counter is at its limit. The next
frame brings an interrupt, and both are taken before the thread finds none and sleeps. -/
def burst : List Event :=
  List.replicate 31 (.dma [0x5A] 0x00010000) ++ .irq rxInt :: List.replicate 304 (.thread true) ++
    .thread false :: List.replicate 6 (.thread true) ++
    [.dma [0x11] 0x00010000, .irq rxInt] ++ List.replicate 28 (.thread true)

private theorem burst_run : (run EmacDev.step blank burst).map
    (fun s => (s.pc, s.mailbox, s.returned.length)) = some (.asleep, 0, 32) := by
  decide +kernel

theorem asleep_ready_burst : ∃ s, run EmacDev.step blank burst = some s ∧ s.pc = .asleep ∧
    s.returned.length = 32 ∧ s.intEn &&& rxInt ≠ 0 ∧ s.masked = false := by
  obtain ⟨s, reached, seen⟩ := Option.map_eq_some_iff.mp burst_run
  obtain ⟨asleep, rest⟩ := Prod.mk.inj seen
  obtain ⟨silent, returned⟩ := Prod.mk.inj rest
  have notifies : Along EmacDev.step Notifies blank burst := by decide +kernel
  exact ⟨s, reached, asleep, returned, asleep_ready notifies reached asleep silent⟩

/-- A frame comes, and there is no buffer for it. -/
def noBuffer : List Event :=
  .dma [0x5A] 0x00010000 :: .irq rxInt :: List.replicate 8 (.thread false)

/-- The thread goes to sleep, and nothing will wake it. -/
theorem stalled_without_buffer : ∃ s, run EmacDev.step blank noBuffer = some s ∧ s.pc = .asleep ∧
    s.mailbox = 0 ∧ ¬ (s.intEn &&& rxInt ≠ 0 ∧ s.masked = false) :=
  ⟨_, rfl, rfl, rfl, fun ready => absurd ready.2 Bool.noConfusion⟩

end T113Boot.Drivers.Wakeups
