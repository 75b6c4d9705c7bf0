/- Module: T113Boot/Drivers/ChannelOwners
   layer: results
   digest: Who owns a DMA channel, and whose callback an interrupt of it calls. -/

import T113Boot.Drivers.Dmac
import T113Boot.Lib.Runs

set_option autoImplicit false
set_option relaxedAutoImplicit false

namespace T113Boot.Drivers.ChannelOwners

open T113Boot.Lib.Runs
open T113Boot.Drivers.Dmac

variable {α : Type} {s s' : System α} {e : Event α}

/-- A channel is pending in the registers that an interrupt finds. -/
def Pending (reg0 reg1 : BitVec 32) (ch : Channel) : Prop :=
  if ch.val < 8 then reg0 &&& mask ch ≠ 0 else reg1 &&& mask (ch - 8) ≠ 0

/-- No handle is held twice, and a request fails only if all of them are held. -/
structure Distinct (s : System α) (e : Event α) : Prop where
  nodup : ∀ s', s.step e = some s' → s'.ledger.held.Nodup
  exhausted : (s.dev.perform e).1 = .handle none → ∀ ch, ch ∈ s.ledger.held

/-- What an interrupt calls is a callback that the owner of the channel has given. -/
def Owned (s : System α) (e : Event α) : Prop := ∀ served, (s.dev.perform e).1 = .served served →
  ∀ ch call, (ch, call) ∈ served.calls → ∃ hdma : Channel, hdma = ch ∧ hdma ∈ s.ledger.held ∧
    call ∈ s.ledger.given hdma

/-- An interrupt finds no channel pending that has a callback but none of its present owner. -/
def Current (s : System α) (e : Event α) : Prop := ∀ reg0 reg1, e = .interrupt reg0 reg1 →
  ∀ ch, Pending reg0 reg1 ch → s.ledger.ever ch = true → s.ledger.given ch ≠ []

structure Inv (s : System α) : Prop where
  used : ∀ ch, (s.dev.source ch).used ≠ 0 ↔ ch ∈ s.ledger.held
  count : ∀ ch ∈ s.ledger.held, (s.dev.source ch).channelCount = ch
  nodup : s.ledger.held.Nodup
  owner : ∀ ch, s.ledger.given ch ≠ [] → ch ∈ s.ledger.held
  handler : ∀ ch call rest, s.ledger.given ch = call :: rest → s.dev.handler ch = some call
  ever : ∀ ch : Channel, (s.dev.handler ch).isSome ↔ s.ledger.ever ch = true

theorem inv_started (d : DmaDev α) : Inv (started d) where
  used _ := iff_of_false (not_not_intro rfl) List.not_mem_nil
  count _ held := absurd held List.not_mem_nil
  nodup := List.nodup_nil
  owner _ given := absurd rfl given
  handler _ _ _ given := absurd given.symm (List.cons_ne_nil _ _)
  ever _ := iff_of_false Bool.false_ne_true Bool.false_ne_true

theorem requestIn_cases (channels : List Channel) (d : DmaDev α) :
    requestIn channels d = (none, d) ∧ (∀ ch ∈ channels, (d.source ch).used ≠ 0) ∨
    ∃ ch, requestIn channels d =
        (some ch, { d with source := Function.update d.source ch ⟨1, ch⟩ }) ∧
      (d.source ch).used = 0 := by
  unfold requestIn
  rcases found : channels.find? fun i => (d.source i).used = 0 with _ | ch
  · refine .inl ⟨rfl, fun ch member => ?_⟩
    have other := List.find?_eq_none.mp found ch member
    simpa using other
  · refine .inr ⟨ch, rfl, ?_⟩
    have free := List.find?_some found
    simpa using free

private theorem inv_requested (inv : Inv s) (ch : Channel) (free : (s.dev.source ch).used = 0) :
    Inv ⟨{ s.dev with source := Function.update s.dev.source ch ⟨1, ch⟩ },
      { s.ledger with
        held := ch :: s.ledger.held
        given := Function.update s.ledger.given ch [] }⟩ := by
  have absent : ch ∉ s.ledger.held := fun held => (inv.used ch).mpr held free
  refine ⟨?_, ?_, List.nodup_cons.mpr ⟨absent, inv.nodup⟩, ?_, ?_, inv.ever⟩
  · intro i
    dsimp only
    rw [List.mem_cons]
    by_cases same : i = ch
    · subst same
      rw [Function.update_self]
      exact iff_of_true Nat.one_ne_zero (.inl rfl)
    · rw [Function.update_of_ne same]
      exact (inv.used i).trans (or_iff_right same).symm
  · intro i held
    dsimp only
    by_cases same : i = ch
    · subst same
      rw [Function.update_self]
    · rw [Function.update_of_ne same]
      exact inv.count i ((List.mem_cons.mp held).resolve_left same)
  · intro i given
    dsimp only at given
    by_cases same : i = ch
    · exact List.mem_cons.mpr (.inl same)
    · rw [Function.update_of_ne same] at given
      exact List.mem_cons_of_mem _ (inv.owner i given)
  · intro i call rest given
    dsimp only at given
    by_cases same : i = ch
    · subst same
      rw [Function.update_self] at given
      cases given
    · rw [Function.update_of_ne same] at given
      exact inv.handler i call rest given

private theorem inv_request (inv : Inv s) (channels : List Channel)
    (request : e = .request ∨ e = .requestFromLast) :
    Inv ⟨(requestIn channels s.dev).2,
      s.ledger.note e (.handle (requestIn channels s.dev).1)⟩ := by
  rcases requestIn_cases channels s.dev with ⟨failed, -⟩ | ⟨ch, got, free⟩
  · rw [failed]
    rcases request with rfl | rfl
    · exact inv
    · exact inv
  · rw [got]
    rcases request with rfl | rfl
    · exact inv_requested inv ch free
    · exact inv_requested inv ch free

theorem dmaRelease_dev (d : DmaDev α) (ch : Channel) : (dmaRelease d ch).2 =
    { d with source := Function.update d.source ch { d.source ch with used := 0 } } := by
  unfold dmaRelease
  dsimp only
  by_cases unused : (d.source ch).used = 0
  · have same : ({ d.source ch with used := 0 } : DmaSource) = d.source ch := by rw [← unused]
    rw [if_pos unused, same, Function.update_eq_self]
  · rw [if_neg unused]

private theorem inv_released (inv : Inv s) (ch : Channel) :
    Inv ⟨(dmaRelease s.dev ch).2, { s.ledger with
      held := s.ledger.held.erase ch
      given := Function.update s.ledger.given ch [] }⟩ := by
  rw [dmaRelease_dev]
  refine ⟨?_, ?_, inv.nodup.erase ch, ?_, ?_, inv.ever⟩
  · intro i
    dsimp only
    rw [inv.nodup.mem_erase_iff]
    by_cases same : i = ch
    · subst same
      rw [Function.update_self]
      exact iff_of_false (not_not_intro rfl) fun both => both.1 rfl
    · rw [Function.update_of_ne same]
      exact (inv.used i).trans (and_iff_right same).symm
  · intro i held
    dsimp only at held ⊢
    obtain ⟨other, held⟩ := inv.nodup.mem_erase_iff.mp held
    rw [Function.update_of_ne other]
    exact inv.count i held
  · intro i given
    dsimp only at given
    have other : i ≠ ch := by
      rintro rfl
      rw [Function.update_self] at given
      exact given rfl
    rw [Function.update_of_ne other] at given
    exact inv.nodup.mem_erase_iff.mpr ⟨other, inv.owner i given⟩
  · intro i call rest given
    dsimp only at given
    by_cases same : i = ch
    · subst same
      rw [Function.update_self] at given
      cases given
    · rw [Function.update_of_ne same] at given
      exact inv.handler i call rest given

theorem dmaSetting_dev (d : DmaDev α) (ch : Channel) (cfg : DmaSet α) :
    (dmaSetting d ch cfg).2.source = d.source ∧
    (dmaSetting d ch cfg).2.handler =
      match cfg.dmaCallback with
      | none => d.handler
      | some call => if (d.source ch).used = 0 then d.handler
        else Function.update d.handler (d.source ch).channelCount (some call) := by
  unfold dmaSetting
  by_cases unused : (d.source ch).used = 0
  · rw [if_pos unused]
    rcases cfg.dmaCallback with _ | call
    · exact ⟨rfl, rfl⟩
    · exact ⟨rfl, (if_pos unused).symm⟩
  · rw [if_neg unused]
    rcases cfg.dmaCallback with _ | call
    · exact ⟨rfl, rfl⟩
    · dsimp only
      rw [if_neg unused]
      split
      · exact ⟨rfl, rfl⟩
      · exact ⟨rfl, rfl⟩

private theorem inv_set (inv : Inv s) (ch : Channel) (cfg : DmaSet α) (call : α)
    (callback : cfg.dmaCallback = some call) (held : ch ∈ s.ledger.held) :
    Inv ⟨(dmaSetting s.dev ch cfg).2, { s.ledger with
      given := Function.update s.ledger.given ch (call :: s.ledger.given ch)
      ever := Function.update s.ledger.ever ch true }⟩ := by
  obtain ⟨source, handler⟩ := dmaSetting_dev s.dev ch cfg
  rw [callback] at handler
  dsimp only at handler
  rw [if_neg ((inv.used ch).mpr held), inv.count ch held] at handler
  refine ⟨?_, ?_, inv.nodup, ?_, ?_, ?_⟩
  · intro i
    dsimp only
    rw [source]
    exact inv.used i
  · intro i held
    dsimp only
    rw [source]
    exact inv.count i held
  · intro i given
    dsimp only at given ⊢
    by_cases same : i = ch
    · exact same ▸ held
    · rw [Function.update_of_ne same] at given
      exact inv.owner i given
  · intro i call' rest given
    dsimp only at given ⊢
    rw [handler]
    by_cases same : i = ch
    · subst same
      rw [Function.update_self] at given
      cases given
      exact Function.update_self _ _ _
    · rw [Function.update_of_ne same] at given
      rw [Function.update_of_ne (mt Fin.val_inj.mp same)]
      exact inv.handler i call' rest given
  · intro i
    dsimp only
    rw [handler]
    by_cases same : i = ch
    · subst same
      rw [Function.update_self, Function.update_self]
      exact iff_of_true rfl rfl
    · rw [Function.update_of_ne same, Function.update_of_ne (mt Fin.val_inj.mp same)]
      exact inv.ever i

private theorem inv_idle (inv : Inv s) (ch : Channel) (cfg : DmaSet α)
    (idle : cfg.dmaCallback = none ∨ ch ∉ s.ledger.held) :
    Inv ⟨(dmaSetting s.dev ch cfg).2, s.ledger⟩ := by
  obtain ⟨source, handler⟩ := dmaSetting_dev s.dev ch cfg
  have kept : (dmaSetting s.dev ch cfg).2.handler = s.dev.handler := by
    rw [handler]
    rcases callback : cfg.dmaCallback with _ | call
    · rfl
    · have absent := idle.resolve_left (by rw [callback]; exact Option.some_ne_none call)
      have unused : (s.dev.source ch).used = 0 := by
        by_contra used
        exact absent ((inv.used ch).mp used)
      exact if_pos unused
  refine ⟨?_, ?_, inv.nodup, inv.owner, ?_, ?_⟩
  · intro i
    dsimp only
    rw [source]
    exact inv.used i
  · intro i held
    dsimp only
    rw [source]
    exact inv.count i held
  · intro i call rest given
    dsimp only
    rw [kept]
    exact inv.handler i call rest given
  · intro i
    dsimp only
    rw [kept]
    exact inv.ever i

theorem inv_step (inv : Inv s) (step : s.step e = some s') : Inv s' := by
  cases step
  cases e with
  | request => exact inv_request inv (List.finRange _) (.inl rfl)
  | requestFromLast => exact inv_request inv (List.finRange _).reverse (.inr rfl)
  | release hdma => exact inv_released inv hdma
  | setting hdma cfg =>
    rcases callback : cfg.dmaCallback with _ | call
    · have kept : s.ledger.note (.setting hdma cfg) (.code (dmaSetting s.dev hdma cfg).1) =
          s.ledger := by
        unfold Ledger.note
        dsimp only
        rw [callback]
      have idle := inv_idle inv hdma cfg (.inl callback)
      rw [← kept] at idle
      exact idle
    · by_cases held : hdma ∈ s.ledger.held
      · have noted : s.ledger.note (.setting hdma cfg) (.code (dmaSetting s.dev hdma cfg).1) =
            { s.ledger with
              given := Function.update s.ledger.given hdma (call :: s.ledger.given hdma)
              ever := Function.update s.ledger.ever hdma true } := by
          unfold Ledger.note
          dsimp only
          rw [callback]
          exact if_pos held
        have set := inv_set inv hdma cfg call callback held
        rw [← noted] at set
        exact set
      · have kept : s.ledger.note (.setting hdma cfg) (.code (dmaSetting s.dev hdma cfg).1) =
            s.ledger := by
          unfold Ledger.note
          dsimp only
          rw [callback]
          exact if_neg held
        have idle := inv_idle inv hdma cfg (.inr held)
        rw [← kept] at idle
        exact idle
  | interrupt reg0 reg1 => exact inv

private theorem requestIn_none {channels : List Channel} {d : DmaDev α}
    (failed : (requestIn channels d).1 = none) : ∀ ch ∈ channels, (d.source ch).used ≠ 0 := by
  rcases requestIn_cases channels d with ⟨-, used⟩ | ⟨ch, got, -⟩
  · exact used
  · rw [got] at failed
    cases failed

/-- In every state that the events lead to the handles are distinct and none is withheld. -/
theorem distinct_of_inv (inv : Inv s) (e : Event α) : Distinct s e where
  nodup _ step := (inv_step inv step).nodup
  exhausted failed ch := by
    apply (inv.used ch).mp
    cases e with
    | request =>
      have none : (requestIn (List.finRange _) s.dev).1 = none := by
        injection failed
      exact requestIn_none none ch (List.mem_finRange ch)
    | requestFromLast =>
      have none : (requestIn (List.finRange _).reverse s.dev).1 = none := by
        injection failed
      exact requestIn_none none ch (List.mem_reverse.mpr (List.mem_finRange ch))
    | release hdma => cases failed
    | setting hdma cfg => cases failed
    | interrupt reg0 reg1 => cases failed

private theorem mem_pendingIn (reg : BitVec 32) (ch : Nat) :
    ch ∈ pendingIn reg ↔ ch < 8 ∧ reg &&& mask ch ≠ 0 := by
  rw [pendingIn, List.mem_filter, List.mem_range, decide_eq_true_eq]

theorem mem_calls (d : DmaDev α) (reg0 reg1 : BitVec 32) (ch : Nat) (call : α) :
    (ch, call) ∈ (dmacIrqHandler d reg0 reg1).calls ↔
      ∃ hdma : Channel, hdma = ch ∧ Pending reg0 reg1 hdma ∧ d.handler hdma = some call := by
  unfold dmacIrqHandler Pending
  dsimp only
  rw [List.mem_append, List.mem_filterMap, List.mem_filterMap]
  constructor
  · rintro (⟨i, member, called⟩ | ⟨i, member, called⟩)
    · obtain ⟨low, pending⟩ := (mem_pendingIn reg0 i).mp member
      obtain ⟨_, handler, same⟩ := Option.map_eq_some_iff.mp called
      cases same
      refine ⟨⟨ch, Nat.lt_trans low (by decide)⟩, rfl, ?_, handler⟩
      rw [if_pos low]
      exact pending
    · obtain ⟨low, pending⟩ := (mem_pendingIn reg1 i).mp member
      obtain ⟨_, handler, same⟩ := Option.map_eq_some_iff.mp called
      cases same
      refine ⟨⟨i + 8, Nat.add_lt_add_right low 8⟩, rfl, ?_, handler⟩
      rw [if_neg (Nat.not_lt.mpr (Nat.le_add_left 8 i))]
      exact pending
  · rintro ⟨hdma, rfl, pending, handler⟩
    have inside : hdma.val < 16 := hdma.isLt
    by_cases low : hdma.val < 8
    · rw [if_pos low] at pending
      refine .inl ⟨hdma, (mem_pendingIn reg0 _).mpr ⟨low, pending⟩, ?_⟩
      rw [handler, Option.map_some]
    · rw [if_neg low] at pending
      have back : hdma.val - 8 + 8 = hdma.val := by omega
      refine .inr ⟨hdma - 8, (mem_pendingIn reg1 _).mpr ⟨by omega, pending⟩, ?_⟩
      rw [back, handler, Option.map_some]

/-- The callbacks belong to the owners exactly if no pending channel has a callback left over. -/
theorem owned_iff (inv : Inv s) (e : Event α) : Owned s e ↔ Current s e := by
  constructor
  · rintro owned reg0 reg1 rfl ch pending ever
    obtain ⟨call, handler⟩ := Option.isSome_iff_exists.mp ((inv.ever ch).mpr ever)
    have called : (ch.val, call) ∈ (dmacIrqHandler s.dev reg0 reg1).calls :=
      (mem_calls s.dev reg0 reg1 ch call).mpr ⟨ch, rfl, pending, handler⟩
    obtain ⟨hdma, same, -, given⟩ := owned _ rfl ch call called
    rw [Fin.val_inj.mp same] at given
    exact List.ne_nil_of_mem given
  · intro current served result ch call called
    cases e with
    | interrupt reg0 reg1 =>
      cases result
      obtain ⟨hdma, same, pending, handler⟩ := (mem_calls s.dev reg0 reg1 ch call).mp called
      have ever : s.ledger.ever hdma = true := by
        rw [← inv.ever, handler]
        rfl
      have some := current reg0 reg1 rfl hdma pending ever
      obtain ⟨last, rest, given⟩ := List.exists_cons_of_ne_nil some
      have entered := inv.handler hdma last rest given
      rw [handler] at entered
      cases entered
      refine ⟨hdma, same, inv.owner hdma some, ?_⟩
      rw [given]
      exact List.mem_cons_self
    | request => cases result
    | requestFromLast => cases result
    | release hdma => cases result
    | setting hdma cfg => cases result

/-- Requests and releases keep the handles apart, whatever else happens. -/
theorem always_distinct (d : DmaDev α) (events : List (Event α)) :
    Along System.step Distinct (started d) events :=
  along_of_invariant Inv inv_step (fun inv => distinct_of_inv inv _) (inv_started d)

/-- The channels belong to one owner each throughout a run if and only if no interrupt of it finds a
callback left over. -/
theorem channels_owned_iff (d : DmaDev α) (events : List (Event α)) :
    Along System.step (fun s e => Distinct s e ∧ Owned s e) (started d) events ↔
      Along System.step Current (started d) events := by
  refine along_iff Inv (fun inv _ step => inv_step inv step) (fun {s e} inv => ?_) (inv_started d)
  rw [and_iff_right (distinct_of_inv inv e)]
  exact owned_iff inv e

/-- Registers and descriptors of zeros. -/
def blank : DmaDev Nat := ⟨-1, fun _ => ⟨0, 0⟩, fun _ => ⟨0, 0, .null⟩, fun _ => none, 0, 0⟩

def firstChannel : Channel := ⟨0, by decide⟩

/-- A setting with an interrupt at the end of the queue and this callback, if any. -/
def queueEnd (callback : Option Nat) : DmaSet Nat := ⟨0, 0, 8, callback, 2⟩

/-- One owner gives the callback 1 and releases the channel, and the next one gives none: the end of
its transfer, whose interrupt is still enabled, calls 1. -/
theorem callback_outlives_owner : ∃ s,
    run System.step (started blank) [.request, .setting firstChannel (queueEnd (some 1)),
      .release firstChannel, .request, .setting firstChannel (queueEnd none)] = some s ∧
    s.ledger.held = [firstChannel] ∧ s.ledger.given firstChannel = [] ∧
    s.dev.irqEn0 &&& 0x4 ≠ 0 ∧ (dmacIrqHandler s.dev 0x4 0).calls = [(0, 1)] ∧
    ¬ Owned s (.interrupt 0x4 0) := by
  refine ⟨_, rfl, rfl, rfl, by decide, by decide, ?_⟩
  intro owned
  obtain ⟨hdma, same, -, given⟩ := owned _ rfl 0 1 (by decide)
  obtain rfl : hdma = firstChannel := Fin.val_inj.mp same
  exact List.not_mem_nil given

end T113Boot.Drivers.ChannelOwners
