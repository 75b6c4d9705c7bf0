/- Module: T113Boot/Ymodem/LostAcks
   layer: results
   digest: A sender that repeats unacknowledged blocks, and when the receiver still delivers once. -/

import T113Boot.Ymodem.CallbackProtocol

set_option autoImplicit false
set_option relaxedAutoImplicit false

namespace T113Boot.Ymodem.LostAcks

open T113Boot.Lib.Stoppable
open Prog
open T113Boot.Ymodem.Receive
open T113Boot.Ymodem.Wire
open T113Boot.Ymodem.Sender
open T113Boot.Ymodem.Transfer
open T113Boot.Ymodem.LossFree
open T113Boot.Ymodem.CallbackProtocol

variable {τ : Type}

/-- What becomes of one acknowledgement. A sender that misses it waits, for `wait` of the
receiver's time-outs, before it sends the same block again. -/
inductive AckFate where
  | heard
  | lost (wait : Nat)
deriving DecidableEq

/-- The sender between two transmissions: how long it has waited, and the blocks that are not
acknowledged yet. -/
structure SenderState where
  wait : Nat
  pending : List Block

/-- An acknowledgement that is heard moves the sender on; one that is lost leaves the block. -/
def SenderState.next (s : SenderState) : AckFate → SenderState
  | .heard => ⟨0, s.pending.tail⟩
  | .lost wait => ⟨wait, s.pending⟩

/-- The pending blocks, each sent once. -/
def SenderState.once (s : SenderState) : List Arrival :=
  match s.pending with
  | [] => []
  | b :: bs => ⟨s.wait, b⟩ :: bs.map atOnce

/-- What is sent when the acknowledgements meet the given fates, one after the other, and all
those after them are heard. -/
def transmissions : List AckFate → SenderState → List Arrival
  | [], s => s.once
  | fate :: fates, s =>
    match s.pending with
    | [] => []
    | b :: _ => ⟨s.wait, b⟩ :: transmissions fates (s.next fate)

/-- The blocks of a session on the air, block 0 first. -/
def onAir (σ : Session) (fates : List AckFate) : List Arrival :=
  transmissions fates ⟨0, σ.header :: σ.blocks⟩

/-- The receiver's input from such a sender. -/
def lossy (σ : Session) (fates : List AckFate) : Input :=
  (onAir σ fates).flatMap Arrival.input ++
    (some ymodemEot :: some ymodemEot :: arriving σ.closing.wire)

def sizes (bs : List Block) : Nat := (bs.map (·.payload.length)).sum

theorem transmissions_spec (fates : List AckFate) (s : SenderState) :
    s.pending.length ≤ (transmissions fates s).length ∧ sizes s.pending ≤ total (transmissions fates s) ∧
      ((transmissions fates s).length = s.pending.length → transmissions fates s = s.once) := by
  induction fates generalizing s with
  | nil =>
    rcases s with ⟨wait, _ | ⟨b, bs⟩⟩
    · exact ⟨Nat.le_refl _, Nat.le_refl _, fun _ => rfl⟩
    · refine ⟨by simp [transmissions, SenderState.once], ?_, fun _ => rfl⟩
      have rest := total_atOnce bs
      simp only [transmissions, SenderState.once, total, List.map_cons, List.sum_cons, sizes] at rest ⊢
      omega
  | cons fate fates ih =>
    rcases s with ⟨wait, _ | ⟨b, bs⟩⟩
    · exact ⟨Nat.le_refl _, Nat.le_refl _, fun _ => rfl⟩
    · cases fate with
      | heard =>
        obtain ⟨length, bytes, same⟩ := ih ⟨0, bs⟩
        simp only [transmissions, SenderState.next, List.tail_cons, List.length_cons, sizes,
          List.map_cons, List.sum_cons, total] at length bytes same ⊢
        refine ⟨by omega, by omega, fun h => ?_⟩
        rw [same (by omega)]
        cases bs <;> rfl
      | lost again =>
        obtain ⟨length, bytes, -⟩ := ih ⟨again, b :: bs⟩
        simp only [transmissions, SenderState.next, List.length_cons, sizes, List.map_cons,
          List.sum_cons, total] at length bytes ⊢
        exact ⟨by omega, by omega, fun h => by omega⟩

/-- Block 0 goes out first; what follows it holds every data block. -/
theorem onAir_spec (σ : Session) (fates : List AckFate) :
    onAir σ fates = atOnce σ.header :: (onAir σ fates).tail ∧
      σ.blocks.length ≤ (onAir σ fates).tail.length ∧ σ.file.length ≤ total (onAir σ fates).tail ∧
      ((onAir σ fates).tail.length = σ.blocks.length → (onAir σ fates).tail = σ.blocks.map atOnce) := by
  have whole : σ.file.length ≤ sizes σ.blocks := by
    have content := congrArg List.length σ.content
    rw [flatMap_payload_length, List.length_append] at content
    rw [sizes]
    omega
  cases fates with
  | nil =>
    refine ⟨rfl, by simp [onAir, transmissions, SenderState.once], ?_, fun _ => rfl⟩
    show _ ≤ total (σ.blocks.map atOnce)
    rw [total_atOnce]
    exact whole
  | cons fate fates =>
    cases fate with
    | heard =>
      obtain ⟨length, bytes, same⟩ := transmissions_spec fates ⟨0, σ.blocks⟩
      refine ⟨rfl, length, Nat.le_trans whole bytes, fun h => ?_⟩
      refine (same h).trans ?_
      unfold SenderState.once
      cases σ.blocks <;> rfl
    | lost wait =>
      obtain ⟨length, bytes, -⟩ := transmissions_spec fates ⟨wait, σ.header :: σ.blocks⟩
      simp only [List.length_cons, sizes, List.map_cons, List.sum_cons] at length bytes whole
      refine ⟨rfl, Nat.le_trans (Nat.le_succ _) length, ?_, fun h => ?_⟩
      · show _ ≤ total (transmissions fates ⟨wait, σ.header :: σ.blocks⟩)
        omega
      · have longer : (transmissions fates ⟨wait, σ.header :: σ.blocks⟩).length = σ.blocks.length := h
        omega

/-- Every block comes before the receiver's retries are spent. -/
def Early (as : List Arrival) : Prop := ∀ a ∈ as, a.gap < ymodemMaxRetry

instance (as : List Arrival) : Decidable (Early as) := by unfold Early; infer_instance

theorem reception_arrival (a : Arrival) (rest : Input) :
    ∃ outcome naks left, reception ymodemMaxRetry (a.input ++ rest) = some (outcome, naks, left) ∧
      outcome ≠ .eot ∧ (a.gap < ymodemMaxRetry → outcome = .packet a.block.payload ∧ left = rest) ∧
      (¬ a.gap < ymodemMaxRetry → outcome = .timeout) := by
  by_cases early : a.gap < ymodemMaxRetry
  · refine ⟨_, 0, rest, ?_, ?_, fun _ => ⟨rfl, rfl⟩, fun late => absurd early late⟩
    · rw [Arrival.input, List.append_assoc, reception_block a.block early rest]
    · simp
  · obtain ⟨late, gap⟩ := Nat.exists_eq_add_of_le (Nat.le_of_not_lt early)
    refine ⟨.timeout, 0, silence late ++ (arriving a.block.wire ++ rest), ?_, ?_,
      fun h => absurd h early, fun _ => rfl⟩
    · rw [Arrival.input, gap, silence, ← List.replicate_append_replicate, List.append_assoc,
        List.append_assoc]
      exact reception_timeout ymodemMaxRetry _
    · simp

theorem not_closes_arrival (a : Arrival) (rest : Input) : ¬ Closes (a.input ++ rest) := by
  obtain ⟨outcome, naks, left, reading, other, -⟩ := reception_arrival a rest
  rintro ⟨_, _, _, _, _, _, _, eot, -, -⟩
  rw [reading] at eot
  cases eot
  exact other rfl

theorem afterData_arrivals (as : List Arrival) (fuel : Nat) (size : Int) (rest left : Input)
    (fueled : size.toNat ≤ fuel) (enough : size ≤ total as)
    (got : afterData fuel size (as.flatMap Arrival.input ++ rest) = some left)
    (closes : Closes left) : Covers size as ∧ Early as := by
  induction as generalizing fuel size with
  | nil =>
    simp only [total, List.map_nil, List.sum_nil] at enough
    exact ⟨by simpa [Covers] using enough, by simp [Early]⟩
  | cons a as ih =>
    rw [List.flatMap_cons, List.append_assoc] at got
    by_cases due : 0 < size
    · obtain ⟨fuel, rfl⟩ := Nat.exists_eq_succ_of_ne_zero (by omega : fuel ≠ 0)
      rw [afterData, if_pos due] at got
      obtain ⟨outcome, naks, left', reading, -, packet, timeout⟩ :=
        reception_arrival a (as.flatMap Arrival.input ++ rest)
      rw [reading] at got
      by_cases early : a.gap < ymodemMaxRetry
      · obtain ⟨rfl, rfl⟩ := packet early
        have positive := Block.payload_pos a.block
        simp only [total, List.map_cons, List.sum_cons] at enough
        obtain ⟨covers, rest⟩ := ih fuel (size - a.block.payload.length) (by omega)
          (by simp only [total]; omega) got
        refine ⟨⟨due, covers⟩, fun b hb => ?_⟩
        rcases List.mem_cons.mp hb with rfl | hb
        · exact early
        · exact rest b hb
      · obtain rfl := timeout early
        cases got
    · have stop : afterData fuel size (a.input ++ (as.flatMap Arrival.input ++ rest)) =
          some (a.input ++ (as.flatMap Arrival.input ++ rest)) := by
        cases fuel with
        | zero => rfl
        | succ fuel => rw [afterData, if_neg due]
      rw [stop] at got
      cases got
      exact absurd closes (not_closes_arrival a _)

/-- A client whose functions always return. -/
structure Client (τ : Type) where
  start : YmodemHead → τ → τ
  recvData : YmodemData → τ → τ
  abort : Int → τ → τ
  finish : τ → τ

def Client.handlers (client : Client τ) : Handlers τ :=
  { start := fun head => modify (client.start head)
    recvData := fun data => modify (client.recvData data)
    abort := fun err => modify (client.abort err)
    finish := modify client.finish }

theorem Client.clientData_returns (client : Client τ) (ds : List YmodemData) (c : τ) :
    clientData client.handlers.recvData ds c =
      (some (), ds.foldl (fun c d => client.recvData d c) c) := by
  induction ds generalizing c with
  | nil => rfl
  | cons d ds ih => exact ih (client.recvData d c)

/-- The data among the events. -/
def delivered (t : List YmodemEvent) : List YmodemData := t.filterMap fun
  | .recvData d => some d
  | _ => none

theorem delivered_acknowledged (ds : List YmodemData) : delivered (acknowledged ds) = ds := by
  induction ds with
  | nil => rfl
  | cons d ds ih => exact congrArg (d :: ·) ih

/-- A transfer that finishes has handed over every data block of the file once, in order, at
the offset of the bytes before it, and nothing else. -/
def ExactlyOnce (σ : Session) (t : List YmodemEvent) : Prop :=
  .finish ∈ t → delivered t = fileDeliveries σ

/-- No repeated block can be taken for data: nothing is repeated behind block 0, or what comes
before the last transmission already holds the announced size, or a wait is too long. -/
def Harmless (σ : Session) (fates : List AckFate) : Prop :=
  (onAir σ fates).tail.length = σ.blocks.length ∨
    σ.file.length ≤ total (onAir σ fates).tail.dropLast ∨ ¬ Early (onAir σ fates).tail

/-- The receiver before a session with such a sender. -/
def facing (s : Receiver τ) (input : Input) : Receiver τ := { s with input := input, trace := [] }

theorem onAir_input (σ : Session) (fates : List AckFate) : lossy σ fates =
    (Arrival.mk 0 σ.header).input ++ ((onAir σ fates).tail.flatMap Arrival.input ++
      (some ymodemEot :: some ymodemEot :: arriving σ.closing.wire)) := by
  rw [lossy, (onAir_spec σ fates).1, List.tail_cons, List.flatMap_cons, List.append_assoc]
  rfl

/-- The transfer goes to its end where every transmission is needed to fill the size. -/
theorem lossy_finishes (σ : Session) (fates : List AckFate) (client : Client τ) (s : Receiver τ)
    (covers : Covers σ.file.length (onAir σ fates).tail) (early : Early (onAir σ fates).tail) :
    ∃ s', ymodemReceive true (some client.handlers.table) (facing s (lossy σ fates)) =
        (some ymodemOk, s') ∧ .finish ∈ s'.trace ∧
      delivered s'.trace = deliveries 0 ((onAir σ fates).tail.map (·.block.payload)) := by
  obtain ⟨frame, header, -⟩ := ymodemReceive_header σ client.handlers.table
    (s := facing s (lossy σ fates)) (by decide) (onAir_input σ fates)
  obtain ⟨frame', file⟩ := recvFile_data client.handlers (onAir σ fates).tail (σ.name.length + 1)
    σ.file.length
    (s := { facing s (lossy σ fates) with
      input := (onAir σ fates).tail.flatMap Arrival.input ++
        (some ymodemEot :: some ymodemEot :: arriving σ.closing.wire)
      frame := frame
      trace := [] ++ [.putchar ymodemC] })
    early rfl covers rfl (client.clientData_returns _ _)
  obtain ⟨frame'', closing⟩ := recvClosing_finish client.handlers σ [] (s := {
      input := some ymodemEot :: some ymodemEot :: arriving σ.closing.wire
      frame := frame'
      trace := _
      client := _ }) (by rw [List.append_nil]) rfl
  refine ⟨_, (header.trans file).trans closing, ?_, ?_⟩
  · simp
  · have taken := delivered_acknowledged (deliveries 0 ((onAir σ fates).tail.map (·.block.payload)))
    simp only [delivered, List.filterMap_append, List.nil_append] at taken ⊢
    rw [taken]
    exact List.append_nil _

/-- A transfer that finishes has needed every transmission to fill the size. -/
theorem lossy_covers (σ : Session) (fates : List AckFate) (h : Handlers τ) {s s' : Receiver τ}
    {ret : Int}
    (run : ymodemReceive true (some h.table) (facing s (lossy σ fates)) = (some ret, s'))
    (finished : .finish ∈ s'.trace) :
    Covers σ.file.length (onAir σ fates).tail ∧ Early (onAir σ fates).tail := by
  obtain ⟨frame, header, -⟩ := ymodemReceive_header σ h.table
    (s := facing s (lossy σ fates)) (by decide) (onAir_input σ fates)
  rw [header] at run
  obtain ⟨calls, ⟨t, trace, shown⟩, head, ds, ending, rfl, ends⟩ := recvFile_returns h _ _ run
  have called : .finish ∈ callbacks t := by
    refine List.mem_filter.mpr ⟨?_, rfl⟩
    simpa [trace, facing] using finished
  rw [shown] at called
  rcases ends with ⟨left, due, ⟨closes, -⟩ | ⟨-, -, rfl⟩⟩ | ⟨-, -, rfl⟩
  · exact afterData_arrivals _ _ _ _ _ (Nat.le_refl _)
      (by have enough := (onAir_spec σ fates).2.2.1; omega) due closes
  · simp at called
  · simp at called

/-- The file is delivered exactly once by every transfer that finishes, if and only if the
losses are harmless. -/
theorem exactlyOnce_iff (σ : Session) (fates : List AckFate) (client : Client τ) (s : Receiver τ) :
    (∀ ret s', ymodemReceive true (some client.handlers.table) (facing s (lossy σ fates)) =
      (some ret, s') → ExactlyOnce σ s'.trace) ↔ Harmless σ fates := by
  obtain ⟨-, atLeast, enough, same⟩ := onAir_spec σ fates
  have snoc : ∃ init last, (onAir σ fates).tail = init ++ [last] := by
    rcases List.eq_nil_or_concat (onAir σ fates).tail with none | ⟨init, last, some⟩
    · obtain ⟨first, final, blocks⟩ := blocks_snoc σ
      rw [none, blocks] at atLeast
      simp at atLeast
    · exact ⟨init, last, by rw [some, List.concat_eq_append]⟩
  obtain ⟨init, last, split⟩ := snoc
  constructor
  · intro once
    by_cases harmless : Harmless σ fates
    · exact harmless
    · simp only [Harmless, not_or, Nat.not_le, not_not] at harmless
      obtain ⟨repeated, short, early⟩ := harmless
      have covers : Covers σ.file.length (onAir σ fates).tail := by
        rw [split, List.dropLast_concat] at short
        rw [split, total, List.map_append, List.sum_append] at enough
        rw [split, covers_snoc]
        simp only [List.map_cons, List.map_nil, List.sum_cons, List.sum_nil, total] at enough short ⊢
        omega
      obtain ⟨s', run, finished, taken⟩ := lossy_finishes σ fates client s covers early
      have exact := congrArg List.length ((once _ s' run finished).symm.trans taken)
      rw [fileDeliveries, length_deliveries, length_deliveries, List.length_map,
        List.length_map] at exact
      exact absurd exact.symm repeated
  · intro harmless ret s' run finished
    obtain ⟨covers, early⟩ := lossy_covers σ fates client.handlers run finished
    have unrepeated : (onAir σ fates).tail.length = σ.blocks.length := by
      rcases harmless with unrepeated | full | late
      · exact unrepeated
      · rw [split, covers_snoc] at covers
        rw [split, List.dropLast_concat] at full
        omega
      · exact absurd early late
    obtain ⟨s'', run', -, taken⟩ := lossy_finishes σ fates client s covers early
    rw [run] at run'
    cases run'
    rw [taken, same unrepeated, List.map_map]
    rfl

/-- A file of 1024 bytes in one block. -/
def fullBlock : Session :=
  inBlocks (List.replicate 1024 0x55)
    (List.ne_nil_of_length_pos (by rw [List.length_replicate]; decide))
    (by rw [List.length_replicate]; decide)

/-- The acknowledgement of block 0 is lost once, and block 0 is sent again after ten time-outs. -/
theorem fullBlock_onAir : (onAir fullBlock [.lost 10]).tail =
    ⟨10, fullBlock.header⟩ :: fullBlock.blocks.map atOnce := rfl

/-- The repeated block 0 is handed over as data, the file behind it, and the transfer finishes. -/
theorem lost_header_ack : ∃ s',
    ymodemReceive true (some (Client.mk (τ := Unit) (fun _ c => c) (fun _ c => c) (fun _ c => c)
      id).handlers.table) (facing (fresh []) (lossy fullBlock [.lost 10])) = (some ymodemOk, s') ∧
      ¬ ExactlyOnce fullBlock s'.trace := by
  have header : fullBlock.header.payload.length = 128 := fullBlock.header.sized
  have size : fullBlock.file.length = 1024 := List.length_replicate
  have covers : Covers fullBlock.file.length (onAir fullBlock [.lost 10]).tail := by
    obtain ⟨init, last, split⟩ := blocks_snoc fullBlock
    have single : init = [] := by
      have one : fullBlock.blocks.length = 1 := by
        rw [fullBlock, length_inBlocks, blockCount, List.length_replicate]
      rw [split, List.length_append, List.length_singleton] at one
      exact List.length_eq_zero_iff.mp (by omega)
    obtain ⟨-, reach⟩ := blocks_total fullBlock split
    rw [fullBlock_onAir, split, single, List.nil_append]
    simp only [single, List.map_nil, List.sum_nil, List.map_cons, Covers, atOnce, header] at reach ⊢
    omega
  have early : Early (onAir fullBlock [.lost 10]).tail := by
    rw [fullBlock_onAir]
    intro a ha
    rcases List.mem_cons.mp ha with rfl | ha
    · exact (by decide : 10 < 100)
    · obtain ⟨b, -, rfl⟩ := List.mem_map.mp ha
      exact (by decide : 0 < 100)
  obtain ⟨s', run, finished, taken⟩ := lossy_finishes fullBlock [.lost 10] _ (fresh []) covers early
  refine ⟨s', run, fun once => ?_⟩
  have exact := congrArg List.length ((once finished).symm.trans taken)
  rw [fileDeliveries, length_deliveries, length_deliveries, fullBlock_onAir] at exact
  simp at exact

end T113Boot.Ymodem.LostAcks
