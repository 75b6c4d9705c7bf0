/- Module: T113Boot/Ota/Reception
   layer: specification
   digest: A transfer as `ota.c` takes it: what arrives depends on the line, and is stored piece by piece. -/

import T113Boot.Ota.Footprint
import T113Boot.Ymodem.Replay

set_option autoImplicit false
set_option relaxedAutoImplicit false

namespace T113Boot.Ota.Reception

open T113Boot.Lib.Cells
open T113Boot.Lib.Stoppable
open Prog
open T113Boot.Storage.Table
open T113Boot.Ymodem.Receive
open T113Boot.Ymodem.Transfer
open T113Boot.Ymodem.LossFree
open T113Boot.Ymodem.Replay
open T113Boot.Ota.Board
open T113Boot.Ota.Firmware
open T113Boot.Ota.Access
open T113Boot.Ota.Layout
open T113Boot.Ota.Footprint

/-- The four functions of `ota_ymdoem_cb`. -/
def otaHandlers : Handlers World :=
  { start := fun _ => pure ()
    recvData := otaYmodemRecvData
    abort := fun _ => pure ()
    finish := pure () }

theorem otaYmodemCb_eq : otaYmodemCb = otaHandlers.table := rfl

/-- What a transfer makes of a serial line, whoever its client is. -/
def transfer (w : World) : Option Int × Receiver Unit :=
  ymodemReceive w.port (some idle.table)
    { input := w.input, frame := w.frame, trace := [], client := () }

/-- The deliveries among some events. -/
def handed (events : List YmodemEvent) : List YmodemData := events.filterMap fun
  | .recvData d => some d
  | _ => none

/-- The pieces that a serial line brings. -/
def pieces (w : World) : List YmodemData := handed (transfer w).2.trace

theorem replay_ota (events : List YmodemEvent) :
    replay otaHandlers events = clientData otaYmodemRecvData (handed events) := by
  induction events with
  | nil => rfl
  | cons event events ih =>
    rcases event with _ | _ | d | _ | _ <;> rw [replay, ih]
    all_goals rfl

theorem pieces_placed {w : World} {d : YmodemData} (h : d ∈ pieces w) : Placed d := by
  obtain ⟨events, trace, placed⟩ := ymodemReceive_adds w.port idle.table
    { input := w.input, frame := w.frame, trace := [], client := () }
  rw [List.nil_append] at trace
  obtain ⟨event, member, same⟩ := List.mem_filterMap.mp h
  rw [transfer, trace] at member
  rcases event with _ | _ | d' | _ | _ <;> simp only [reduceCtorEq, Option.some.injEq] at same
  subst same
  exact placed _ member

theorem otaReceive_run (w : World) :
    ((clientData otaYmodemRecvData (pieces w) w).1 = some () → otaReceive w = ((transfer w).1,
      { (clientData otaYmodemRecvData (pieces w) w).2 with
        input := (transfer w).2.input
        frame := (transfer w).2.frame })) ∧
    ((clientData otaYmodemRecvData (pieces w) w).1 = none → (otaReceive w).1 = none ∧
      ∃ input frame, (otaReceive w).2 =
        { (clientData otaYmodemRecvData (pieces w) w).2 with input := input, frame := frame }) := by
  obtain ⟨events, trace, returns, stops⟩ := ymodemReceive_follows otaHandlers w.port
    { input := w.input, frame := w.frame, trace := [], client := w }
  change (transfer w).2.trace = [] ++ events at trace
  rw [List.nil_append] at trace
  subst trace
  rw [replay_ota] at returns stops
  change (clientData otaYmodemRecvData (pieces w) w).1 = some () → _ = ((transfer w).1,
    { (transfer w).2 with client := (clientData otaYmodemRecvData (pieces w) w).2 }) at returns
  change (clientData otaYmodemRecvData (pieces w) w).1 = none →
    _ ∧ _ = (clientData otaYmodemRecvData (pieces w) w).2 at stops
  simp only [otaReceive, otaYmodemCb_eq]
  generalize ymodemReceive w.port (some otaHandlers.table) _ = run at returns stops ⊢
  refine ⟨fun ok => ?_, fun none => ?_⟩
  · rw [returns ok]
  · obtain ⟨stopped, client⟩ := stops none
    refine ⟨stopped, run.2.input, run.2.frame, ?_⟩
    rw [client]

theorem touches_recvData {d : YmodemData} (placed : Placed d) :
    Keeps (Touches [download]) (otaYmodemRecvData d) := by
  have size := placed.size
  have packet := placed.packet
  have low := placed.low
  simp only [packetSize128, packetSize1K] at packet
  rw [otaYmodemRecvData, downPart_eq]
  exact touches_bind (touches_write download size (by omega)) fun _ => touches_pure _ _

theorem touches_pieces {ds : List YmodemData} (placed : ∀ d ∈ ds, Placed d) :
    Keeps (Touches [download]) (clientData otaYmodemRecvData ds) := by
  induction ds with
  | nil => exact touches_pure _ _
  | cons d ds ih =>
    exact touches_bind (touches_recvData (placed d List.mem_cons_self)) fun _ =>
      ih fun d' member => placed d' (List.mem_cons_of_mem _ member)

/-- Whatever the line brings, a reception touches `Download` alone. -/
theorem touches_receive : Keeps (Touches [download]) otaReceive := by
  intro w
  have placed : ∀ d ∈ pieces w, Placed d := fun d h => pieces_placed h
  have stored := touches_pieces placed w
  obtain ⟨returns, stops⟩ := otaReceive_run w
  rcases ran : (clientData otaYmodemRecvData (pieces w) w).1 with _ | ⟨⟨⟩⟩
  · obtain ⟨-, input, frame, same⟩ := stops ran
    rw [same]
    exact ⟨stored.made, stored.flash, stored.faults, stored.supply, stored.ram, stored.calls⟩
  · rw [returns ran]
    exact ⟨stored.made, stored.flash, stored.faults, stored.supply, stored.ram, stored.calls⟩

/-- A piece that fits is programmed, and any other one is dropped. -/
def storePiece (m : Mem) (d : YmodemData) : Mem :=
  if Fits download d.offset d.size then program m (download.start.toNat + d.offset.toNat) d.data
  else m

theorem recvData_healthy {d : YmodemData} (placed : Placed d) {w : World} (healthy : w.faults = [])
    (on : w.power = none) : ∃ w', otaYmodemRecvData d w = (some (), w') ∧
      w'.flash = storePiece w.flash d := by
  have packet := placed.packet
  have low := placed.low
  have size := placed.size
  simp only [packetSize128, packetSize1K] at packet
  rw [otaYmodemRecvData, downPart_eq, storePiece]
  by_cases fits : Fits download d.offset d.size
  · have write := partitionWrite_fits download fits size w
    rw [if_neg (by simp [on])] at write
    rw [if_pos fits, bind_of_some write]
    refine ⟨_, rfl, ?_⟩
    rw [after_flash, changeAnswer_healthy healthy]
  · have write : partitionWrite registry (some download.name) objectPtr d.data d.offset d.size w =
        (some partitionErrSize, w) := by
      rw [partitionWrite_eq download objectPtr_ne, if_pos (refused fits (by omega))]
      rfl
    rw [if_neg fits, bind_of_some write]
    exact ⟨w, rfl, rfl⟩

theorem pieces_healthy {ds : List YmodemData} (placed : ∀ d ∈ ds, Placed d) {w : World}
    (healthy : w.faults = []) (on : w.power = none) :
    ∃ w', clientData otaYmodemRecvData ds w = (some (), w') ∧
      w'.flash = ds.foldl storePiece w.flash := by
  induction ds generalizing w with
  | nil => exact ⟨w, rfl, rfl⟩
  | cons d ds ih =>
    have one := placed d List.mem_cons_self
    obtain ⟨w₁, first, flash⟩ := recvData_healthy one healthy on
    have touched := touches_recvData one w
    rw [first] at touched
    obtain ⟨w₂, rest, stored⟩ := ih (fun d' member => placed d' (List.mem_cons_of_mem _ member))
      (touched.healthy healthy) (touched.supply on)
    refine ⟨w₂, ?_, ?_⟩
    · rw [clientData, bind_of_some first, rest]
    · rw [stored, flash, List.foldl_cons]

theorem otaReceive_healthy {w : World} (healthy : w.faults = []) (on : w.power = none) :
    ∃ w', otaReceive w = ((transfer w).1, w') ∧ Touches [download] w w' ∧
      w'.flash = (pieces w).foldl storePiece w.flash := by
  obtain ⟨w₁, stored, flash⟩ := pieces_healthy (fun d h => pieces_placed h) healthy on
  have run := (otaReceive_run w).1 (by rw [stored])
  have touched := touches_receive w
  rw [run] at touched
  refine ⟨_, run, touched, ?_⟩
  rw [stored]
  exact flash

end T113Boot.Ota.Reception
