/- Module: T113Boot/Ymodem/Transfer
   layer: specification
   digest: Runs of the receiver on blocks that arrive well formed, phase by phase. -/

import T113Boot.Ymodem.Sender

set_option autoImplicit false
set_option relaxedAutoImplicit false

namespace T113Boot.Ymodem.Transfer

open T113Boot.Lib.Stoppable
open Prog
open T113Boot.Ymodem.Receive
open T113Boot.Ymodem.Wire
open T113Boot.Ymodem.Sender

variable {τ : Type}

/-- One payload as it is handed to the client. -/
def delivery (offset : UInt32) (bs : List UInt8) : YmodemData :=
  { data := bs, offset := offset, size := .ofNat bs.length }

/-- Payloads as they are handed to the client, from `offset` on. -/
def deliveries : UInt32 → List (List UInt8) → List YmodemData
  | _, [] => []
  | offset, bs :: rest => delivery offset bs :: deliveries (offset + .ofNat bs.length) rest

/-- The client's part of a data phase. -/
def clientData (f : YmodemData → Prog τ Unit) : List YmodemData → Prog τ Unit
  | [] => pure ()
  | d :: ds => f d >>= fun _ => clientData f ds

/-- What a data phase shows: every delivery is acknowledged. -/
def acknowledged (ds : List YmodemData) : List YmodemEvent :=
  ds.flatMap fun d => [.recvData d, .putchar ymodemAck]

/-- A block after `gap` time-outs. -/
structure Arrival where
  gap : Nat
  block : Block

def Arrival.input (a : Arrival) : Input := silence a.gap ++ arriving a.block.wire

/-- The blocks that a data phase of `remaining` bytes takes: one more as long as bytes are due. -/
def Covers : Int → List Arrival → Prop
  | remaining, [] => remaining ≤ 0
  | remaining, a :: as => 0 < remaining ∧ Covers (remaining - a.block.payload.length) as

theorem Block.payload_pos (b : Block) : 0 < b.payload.length := by
  rw [b.sized]
  cases b.format <;> decide

theorem Block.payload_le (b : Block) : b.payload.length ≤ 1024 := by
  rw [b.sized]
  cases b.format <;> decide

theorem call_some (event : YmodemEvent) {f : Prog τ Unit} {s : Receiver τ} {c : τ}
    (h : f s.client = (some (), c)) :
    call event (some f) s = (some (), { s with trace := s.trace ++ [event], client := c }) := by
  simp only [call, bind_apply, emit, modify_apply, inClient, h]

theorem receivePacket_arrival {a : Arrival} (early : a.gap < ymodemMaxRetry) {s : Receiver τ}
    {rest : Input} (h : s.input = a.input ++ rest) :
    ∃ frame, ymodemReceivePacket ymodemMaxRetry s =
        (some ymodemOk, { s with input := rest, frame := frame }) ∧
      frame.packet = a.block.payload ∧ frame.pkgSize = a.block.payload.length ∧
      frame.fileSize = s.frame.fileSize := by
  have reading : reception ymodemMaxRetry s.input = some (.packet a.block.payload, 0, rest) := by
    rw [h, Arrival.input, List.append_assoc, reception_block a.block early rest]
  obtain ⟨s', run, received⟩ := ymodemReceivePacket_run ymodemMaxRetry s reading
  obtain ⟨packet, size⟩ := received.packet _ rfl
  refine ⟨s'.frame, ?_, packet, size, received.fileSize⟩
  rw [run, Outcome.code]
  obtain ⟨input, client, _, trace, _⟩ := received
  rw [List.replicate_zero, List.append_nil] at trace
  subst input
  rcases s' with ⟨input', frame', trace', client'⟩
  simp only at trace client
  subst trace client
  rfl

theorem recvData_run {cb : YmodemCallback τ} {f : YmodemData → Prog τ Unit}
    (set : cb.ymodemRecvData = some f) (as : List Arrival) (fuel : Nat) (offset : UInt32)
    {s : Receiver τ} {rest : Input} {c : τ} (early : ∀ a ∈ as, a.gap < ymodemMaxRetry)
    (input : s.input = as.flatMap Arrival.input ++ rest) (fueled : s.frame.fileSize.toNat ≤ fuel)
    (covers : Covers s.frame.fileSize as)
    (client : clientData f (deliveries offset (as.map (·.block.payload))) s.client = (some (), c)) :
    ∃ frame, recvData cb fuel offset s = (some ymodemOk, {
      input := rest
      frame := frame
      trace := s.trace ++ acknowledged (deliveries offset (as.map (·.block.payload)))
      client := c }) := by
  induction as generalizing fuel offset s with
  | nil =>
    simp only [Covers] at covers
    simp only [List.map_nil, deliveries, clientData, pure_apply, Prod.mk.injEq, true_and] at client
    subst client
    refine ⟨s.frame, ?_⟩
    rw [List.flatMap_nil, List.nil_append] at input
    have same : s = { input := rest, frame := s.frame, trace := s.trace ++ [], client := s.client } := by
      rw [← input, List.append_nil]
    cases fuel with
    | zero => exact congrArg (Prod.mk _) same
    | succ fuel =>
      simp only [recvData, bind_apply, read_apply]
      rw [if_neg (by omega)]
      exact congrArg (Prod.mk _) same
  | cons a as ih =>
    obtain ⟨due, covers⟩ := covers
    have positive := Block.payload_pos a.block
    obtain ⟨fuel, rfl⟩ := Nat.exists_eq_succ_of_ne_zero (by omega : fuel ≠ 0)
    rw [List.flatMap_cons, List.append_assoc] at input
    obtain ⟨⟨pkgSize, buf, fileSize⟩, run, packet, size, left⟩ :=
      receivePacket_arrival (early a List.mem_cons_self) input
    obtain rfl : pkgSize = a.block.payload.length := size
    obtain rfl : fileSize = s.frame.fileSize := left
    simp only [List.map_cons, deliveries, clientData] at client
    rcases first : f (delivery offset a.block.payload) s.client with ⟨_ | ⟨⟩, c'⟩
    · rw [bind_of_none first] at client
      simp at client
    · rw [bind_of_some first] at client
      have handed := call_some (.recvData (delivery offset a.block.payload))
        (s := { s with
          input := as.flatMap Arrival.input ++ rest
          frame := ⟨a.block.payload.length, buf, s.frame.fileSize⟩ }) first
      obtain ⟨frame', later⟩ := ih fuel
        (offset + .ofNat a.block.payload.length)
        (s := {
          input := as.flatMap Arrival.input ++ rest
          frame := ⟨a.block.payload.length, buf, s.frame.fileSize - a.block.payload.length⟩
          trace := s.trace ++ [.recvData (delivery offset a.block.payload)] ++ [.putchar ymodemAck]
          client := c' })
        (fun b hb => early b (List.mem_cons_of_mem _ hb)) rfl (by simp only; omega) covers client
      refine ⟨frame', ?_⟩
      simp only [delivery] at handed later
      simp only [recvData, bind_apply, read_apply, due, if_true, run, ymodemOk, ne_eq,
        not_true_eq_false, if_false, set, Option.map_some, packet, handed, setFrame, modify_apply,
        ymodemPutchar, emit]
      refine later.trans ?_
      simp only [List.append_assoc, acknowledged, List.map_cons, deliveries, delivery,
        List.flatMap_cons, List.cons_append, List.nil_append, ymodemOk]

/-- The four functions of a client that sets them all. -/
structure Handlers (τ : Type) where
  start : YmodemHead → Prog τ Unit
  recvData : YmodemData → Prog τ Unit
  abort : Int → Prog τ Unit
  finish : Prog τ Unit

def Handlers.table (h : Handlers τ) : YmodemCallback τ :=
  { ymodemStart := some h.start
    ymodemRecvData := some h.recvData
    ymodemAbort := some h.abort
    ymodemFinish := some h.finish }

/-- The first packet is asked for once and read. -/
theorem ymodemReceive_header (σ : Session) (cb : YmodemCallback τ) {gap : Nat} {s : Receiver τ}
    {rest : Input} (early : gap < ymodemMaxRetry)
    (input : s.input = (Arrival.mk gap σ.header).input ++ rest) :
    ∃ frame, ymodemReceive true (some cb) s =
      recvFile cb (σ.name.length + 1) σ.file.length
        { s with input := rest, frame := frame, trace := s.trace ++ [.putchar ymodemC] } ∧
      frame.packet = σ.header.payload := by
  obtain ⟨frame, run, packet, -, -⟩ := receivePacket_arrival early
    (s := { s with trace := s.trace ++ [.putchar ymodemC] }) input
  refine ⟨frame, ?_, packet⟩
  have first : recvFirst ymodemMaxRetry s = (some true,
      { s with input := rest, frame := frame, trace := s.trace ++ [.putchar ymodemC] }) := by
    rw [ymodemMaxRetry, recvFirst]
    simp only [bind_apply, ymodemPutchar, emit, modify_apply, run, ymodemOk, if_true, pure_apply]
  have size : announced frame.packet = .ok (σ.file.length : Int) := by
    rw [packet, σ.header_payload, announced_block0 σ.noNul σ.file_fits]
  have name : fnameLen frame.packet = σ.name.length + 1 := by
    rw [packet, σ.header_payload, fnameLen_block0 _ _ σ.noNul]
  simp only [ymodemReceive, Bool.true_eq_false, if_false, bind_of_some first, bind_apply,
    read_apply, size, name]

/-- The announcement and the data phase lead to the closing. -/
theorem recvFile_data (h : Handlers τ) (as : List Arrival) (nameLen size : Nat)
    {s : Receiver τ} {rest : Input} {c c' : τ} (early : ∀ a ∈ as, a.gap < ymodemMaxRetry)
    (input : s.input = as.flatMap Arrival.input ++ rest) (covers : Covers size as)
    (start : h.start ⟨s.frame.buf, .ofNat nameLen, .ofInt size⟩ s.client = (some (), c))
    (client : clientData h.recvData (deliveries 0 (as.map (·.block.payload))) c = (some (), c')) :
    ∃ frame, recvFile h.table nameLen size s = recvClosing h.table {
      input := rest
      frame := frame
      trace := s.trace ++ [.start ⟨s.frame.buf, .ofNat nameLen, .ofInt size⟩, .putchar ymodemAck,
        .putchar ymodemC] ++ acknowledged (deliveries 0 (as.map (·.block.payload)))
      client := c' } := by
  have announce := call_some (.start ⟨s.frame.buf, .ofNat nameLen, .ofInt size⟩)
    (s := { s with frame := { s.frame with fileSize := size } }) start
  have set : h.table.ymodemRecvData = some h.recvData := rfl
  obtain ⟨frame, run⟩ := recvData_run set as (size : Int).toNat 0 (s := {
      input := s.input
      frame := { s.frame with fileSize := size }
      trace := s.trace ++ [.start ⟨s.frame.buf, .ofNat nameLen, .ofInt size⟩] ++
        [.putchar ymodemAck] ++ [.putchar ymodemC]
      client := c }) early input (Nat.le_refl _) covers client
  refine ⟨frame, ?_⟩
  simp only [recvFile, bind_apply, setFrame, modify_apply, read_apply, Handlers.table,
    Option.map_some, announce, ymodemPutchar, emit]
  simp only [Handlers.table] at run
  rw [run]
  dsimp only
  rw [if_neg (by decide)]
  simp only [List.append_assoc, List.cons_append, List.nil_append]

theorem receivePacket_eot {s : Receiver τ} {rest : Input}
    (input : s.input = some ymodemEot :: rest) :
    ∃ frame, ymodemReceivePacket ymodemMaxRetry s =
      (some packetEot, { s with input := rest, frame := frame }) := by
  obtain ⟨s', run, received⟩ := ymodemReceivePacket_run ymodemMaxRetry s
    (by rw [input, reception_eot (by decide)])
  refine ⟨s'.frame, ?_⟩
  rw [run, Outcome.code]
  obtain ⟨input, client, _, trace, _⟩ := received
  rw [List.replicate_zero, List.append_nil] at trace
  subst input
  rcases s' with ⟨input', frame', trace', client'⟩
  simp only at trace client
  subst trace client
  rfl

theorem recvClosing_finish (h : Handlers τ) (σ : Session) (rest : Input) {s : Receiver τ} {c : τ}
    (input : s.input = some ymodemEot :: some ymodemEot :: (arriving σ.closing.wire ++ rest))
    (finish : h.finish s.client = (some (), c)) :
    ∃ frame, recvClosing h.table s = (some ymodemOk, {
      input := rest
      frame := frame
      trace := s.trace ++ [.putchar ymodemNak, .putchar ymodemAck, .putchar ymodemC,
        .putchar ymodemAck, .finish, .putchar recvEndChar]
      client := c }) := by
  obtain ⟨frame₁, eot₁⟩ := receivePacket_eot input
  obtain ⟨frame₂, eot₂⟩ := receivePacket_eot (s := {
    s with
    input := some ymodemEot :: (arriving σ.closing.wire ++ rest)
    frame := frame₁
    trace := s.trace ++ [.putchar ymodemNak] }) rfl
  have closing : arriving σ.closing.wire ++ rest = (Arrival.mk 0 σ.closing).input ++ rest := rfl
  obtain ⟨frame₃, last, packet, -, -⟩ := receivePacket_arrival (a := ⟨0, σ.closing⟩)
    (by simp [ymodemMaxRetry]) (s := {
      s with
      input := arriving σ.closing.wire ++ rest
      frame := frame₂
      trace := s.trace ++ [.putchar ymodemNak] ++ [.putchar ymodemAck] ++ [.putchar ymodemC] })
    closing
  have empty : frame₃.packet.all (· == 0x00) = true := by
    rw [packet, σ.closing_empty]
    simp
  have called := call_some .finish (s := {
    s with
    input := rest
    frame := frame₃
    trace := s.trace ++ [.putchar ymodemNak] ++ [.putchar ymodemAck] ++ [.putchar ymodemC] ++
      [.putchar ymodemAck] }) finish
  refine ⟨frame₃, ?_⟩
  simp only [recvClosing, bind_apply, eot₁, if_true, ymodemPutchar, emit, modify_apply, eot₂, last,
    ymodemOk, recvLast, read_apply, empty, Handlers.table, called, pure_apply]
  simp only [List.append_assoc, List.cons_append, List.nil_append]

theorem recvClosing_other (cb : YmodemCallback τ) {s : Receiver τ} {outcome : Outcome} {naks : Nat}
    {rest : Input} (reading : reception ymodemMaxRetry s.input = some (outcome, naks, rest))
    (other : outcome ≠ .eot) :
    ∃ s', recvClosing cb s = (some ymodemOk, s') ∧ s'.client = s.client ∧
      s'.trace = s.trace ++ List.replicate naks (.putchar ymodemNak) := by
  obtain ⟨s', run, received⟩ := ymodemReceivePacket_run ymodemMaxRetry s reading
  refine ⟨s', ?_, received.client, received.trace⟩
  have code : outcome.code ≠ packetEot := by
    rcases outcome with _ | _ | _
    · simp [Outcome.code, ymodemOk, packetEot]
    · exact absurd rfl other
    · simp [Outcome.code, ymodemErrTimeout, packetEot]
  rw [recvClosing, bind_of_some run, if_neg code]
  rfl

theorem recvFirst_silence (n : Nat) {s : Receiver τ} (input : s.input = silence (n * ymodemMaxRetry)) :
    ∃ s', recvFirst n s = (some false, s') ∧ s'.client = s.client ∧
      s'.trace = s.trace ++ List.replicate n (.putchar ymodemC) := by
  induction n generalizing s with
  | zero => exact ⟨s, rfl, rfl, (List.append_nil _).symm⟩
  | succ n ih =>
    have cut : silence ((n + 1) * ymodemMaxRetry) =
        silence ymodemMaxRetry ++ silence (n * ymodemMaxRetry) := by
      rw [silence, silence, silence, List.replicate_append_replicate, Nat.succ_mul, Nat.add_comm]
    obtain ⟨s₁, run, received⟩ := ymodemReceivePacket_run ymodemMaxRetry
      { s with trace := s.trace ++ [.putchar ymodemC] }
      (by rw [input, cut, reception_timeout])
    obtain ⟨s₂, more, client, trace⟩ := ih received.input
    have asked : ymodemPutchar ymodemC s =
        (some (), { s with trace := s.trace ++ [.putchar ymodemC] }) := rfl
    refine ⟨s₂, ?_, client.trans received.client, ?_⟩
    · rw [recvFirst, bind_of_some asked, bind_of_some run, if_neg (by decide), more]
    · rw [trace, received.trace, List.replicate_zero, List.append_nil, List.append_assoc,
        List.replicate_succ]
      rfl

end T113Boot.Ymodem.Transfer
