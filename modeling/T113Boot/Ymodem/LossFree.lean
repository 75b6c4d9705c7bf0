/- Module: T113Boot/Ymodem/LossFree
   layer: results
   digest: Without losses a file arrives once, in order and in full, and every step is acknowledged. -/

import Mathlib.Algebra.GroupWithZero.Nat
import T113Boot.Ymodem.Transfer

set_option autoImplicit false
set_option relaxedAutoImplicit false

namespace T113Boot.Ymodem.LossFree

open T113Boot.Lib.Stoppable
open Prog
open T113Boot.Ymodem.Receive
open T113Boot.Ymodem.Wire
open T113Boot.Ymodem.Sender
open T113Boot.Ymodem.Transfer

variable {τ : Type}

/-- The bytes among the events. -/
def sent (t : List YmodemEvent) : List UInt8 := t.filterMap fun
  | .putchar ch => some ch
  | _ => none

def YmodemEvent.isCall : YmodemEvent → Bool
  | .putchar _ => false
  | _ => true

/-- The callbacks among the events. -/
def callbacks (t : List YmodemEvent) : List YmodemEvent := t.filter YmodemEvent.isCall

theorem callbacks_append (t u : List YmodemEvent) :
    callbacks (t ++ u) = callbacks t ++ callbacks u := List.filter_append ..

theorem callbacks_acknowledged (ds : List YmodemData) :
    callbacks (acknowledged ds) = ds.map .recvData := by
  induction ds with
  | nil => rfl
  | cons d ds ih => exact congrArg (_ :: ·) ih

theorem sent_acknowledged (ds : List YmodemData) :
    sent (acknowledged ds) = List.replicate ds.length ymodemAck := by
  induction ds with
  | nil => rfl
  | cons d ds ih => exact congrArg (_ :: ·) ih

/-- Each piece begins where the bytes before it end. -/
def Contiguous (ds : List YmodemData) : Prop := ∀ i (h : i < ds.length),
  ds[i].offset.toNat = ((ds.take i).flatMap (·.data)).length ∧ ds[i].size.toNat = ds[i].data.length

theorem length_deliveries (offset : UInt32) (ps : List (List UInt8)) :
    (deliveries offset ps).length = ps.length := by
  induction ps generalizing offset with
  | nil => rfl
  | cons p ps ih => simp only [deliveries, List.length_cons, ih]

theorem deliveries_data (offset : UInt32) (ps : List (List UInt8)) :
    (deliveries offset ps).flatMap (·.data) = ps.flatten := by
  induction ps generalizing offset with
  | nil => rfl
  | cons p ps ih => simp only [deliveries, delivery, List.flatMap_cons, ih, List.flatten_cons]

private theorem deliveries_from (ps : List (List UInt8)) (offset : UInt32)
    (fits : offset.toNat + ps.flatten.length < 4294967296) (i : Nat)
    (h : i < (deliveries offset ps).length) :
    (deliveries offset ps)[i].offset.toNat =
        offset.toNat + (((deliveries offset ps).take i).flatMap (·.data)).length ∧
      (deliveries offset ps)[i].size.toNat = (deliveries offset ps)[i].data.length := by
  induction ps generalizing offset i with
  | nil => simp [deliveries] at h
  | cons p ps ih =>
    simp only [List.flatten_cons, List.length_append] at fits
    have size : (UInt32.ofNat p.length).toNat = p.length := by
      rw [UInt32.toNat_ofNat']
      omega
    cases i with
    | zero => exact ⟨by simp [deliveries, delivery], size⟩
    | succ i =>
      have next : (offset + UInt32.ofNat p.length).toNat = offset.toNat + p.length := by
        rw [UInt32.toNat_add, size]
        omega
      simp only [deliveries, List.length_cons, Nat.add_lt_add_iff_right] at h
      have later := ih (offset + UInt32.ofNat p.length) (by omega) i h
      simp only [deliveries, List.getElem_cons_succ, List.take_succ_cons, List.flatMap_cons,
        List.length_append]
      refine ⟨?_, later.2⟩
      rw [later.1, next]
      simp only [delivery]
      omega

theorem contiguous_deliveries {ps : List (List UInt8)} (fits : ps.flatten.length < 4294967296) :
    Contiguous (deliveries 0 ps) := by
  intro i h
  have placed := deliveries_from ps 0 (by simpa using fits) i h
  rw [show (0 : UInt32).toNat = 0 by rfl, Nat.zero_add] at placed
  exact placed

/-- The payload bytes of some arrivals. -/
def total (as : List Arrival) : Nat := (as.map (·.block.payload.length)).sum

/-- A data phase ends with the block that brings the last byte due. -/
theorem covers_snoc (remaining : Int) (as : List Arrival) (a : Arrival) :
    Covers remaining (as ++ [a]) ↔
      total as < remaining ∧ remaining ≤ total as + a.block.payload.length := by
  induction as generalizing remaining with
  | nil =>
    simp only [List.nil_append, Covers, total, List.map_nil, List.sum_nil]
    omega
  | cons b as ih =>
    simp only [List.cons_append, Covers, ih, total, List.map_cons, List.sum_cons]
    omega

section Session

variable (σ : Session)

/-- Everything the sender sends when nothing is lost. -/
def stream : Input :=
  arriving (σ.header.wire ++ σ.blocks.flatMap Block.wire ++ [ymodemEot, ymodemEot] ++ σ.closing.wire)

/-- The data blocks as the client is to get them. -/
def fileDeliveries : List YmodemData := deliveries 0 (σ.blocks.map Block.payload)

/-- The client's part of the whole transfer. -/
def clientRun (h : Handlers τ) (head : YmodemHead) : Prog τ Unit :=
  h.start head >>= fun _ => clientData h.recvData (fileDeliveries σ) >>= fun _ => h.finish

theorem blocks_snoc : ∃ init last, σ.blocks = init ++ [last] := by
  rcases List.eq_nil_or_concat σ.blocks with none | ⟨init, last, some⟩
  · have empty := σ.content
    rw [none, List.flatMap_nil] at empty
    exact absurd (List.append_eq_nil_iff.mp empty.symm).1 σ.file_ne_nil
  · exact ⟨init, last, by rw [some, List.concat_eq_append]⟩

theorem flatMap_payload_length (blocks : List Block) :
    (blocks.flatMap Block.payload).length = (blocks.map (·.payload.length)).sum := by
  rw [List.length_flatMap]

/-- The blocks before the last one hold less than the file, and all of them hold it. -/
theorem blocks_total {init : List Block} {last : Block} (h : σ.blocks = init ++ [last]) :
    (init.map (·.payload.length)).sum < σ.file.length ∧
      σ.file.length ≤ (init.map (·.payload.length)).sum + last.payload.length := by
  have sum := congrArg List.length σ.content
  have padded := σ.padded last (by rw [h, List.getLast?_concat]; rfl)
  rw [h, flatMap_payload_length] at sum
  simp only [List.map_append, List.map_cons, List.map_nil, List.sum_append, List.sum_cons,
    List.sum_nil, List.length_append] at sum
  omega

/-- A block without silence before it. -/
def atOnce (b : Block) : Arrival := ⟨0, b⟩

theorem flatMap_atOnce (blocks : List Block) :
    (blocks.map atOnce).flatMap Arrival.input = arriving (blocks.flatMap Block.wire) := by
  rw [List.flatMap_map, arriving, List.map_flatMap]
  rfl

theorem total_atOnce (blocks : List Block) :
    total (blocks.map atOnce) = (blocks.map (·.payload.length)).sum := by
  rw [total, List.map_map]
  rfl

theorem covers_blocks : Covers σ.file.length (σ.blocks.map atOnce) := by
  obtain ⟨init, last, split⟩ := blocks_snoc σ
  obtain ⟨before, after⟩ := blocks_total σ split
  rw [split, List.map_append, List.map_cons, List.map_nil, covers_snoc, total_atOnce]
  exact ⟨by omega, by simp only [atOnce]; omega⟩

theorem fileDeliveries_data : (fileDeliveries σ).flatMap (·.data) = σ.file ++ σ.padding := by
  rw [fileDeliveries, deliveries_data, ← List.flatMap_def]
  exact σ.content

theorem padding_short : σ.padding.length < 1024 := by
  obtain ⟨init, last, split⟩ := blocks_snoc σ
  have padded := σ.padded last (by rw [split, List.getLast?_concat]; rfl)
  have bound := Block.payload_le last
  omega

theorem contiguous_fileDeliveries : Contiguous (fileDeliveries σ) := by
  apply contiguous_deliveries
  have content := congrArg List.length σ.content
  have short := padding_short σ
  have fits := σ.file_fits
  rw [← List.flatMap_def, content, List.length_append]
  omega

theorem padding_lt_last {d : YmodemData} (h : d ∈ (fileDeliveries σ).getLast?) :
    σ.padding.length < d.data.length := by
  obtain ⟨init, last, split⟩ := blocks_snoc σ
  have padded := σ.padded last (by rw [split, List.getLast?_concat]; rfl)
  have snoc (ps : List (List UInt8)) (p : List UInt8) (offset : UInt32) :
      ∃ ds off, deliveries offset (ps ++ [p]) = ds ++ [delivery off p] := by
    induction ps generalizing offset with
    | nil => exact ⟨[], offset, rfl⟩
    | cons q ps ih =>
      obtain ⟨ds, off, same⟩ := ih (offset + .ofNat q.length)
      exact ⟨delivery offset q :: ds, off, congrArg (_ :: ·) same⟩
  obtain ⟨ds, off, same⟩ := snoc (init.map Block.payload) last.payload 0
  rw [fileDeliveries, split, List.map_append, List.map_cons, List.map_nil, same,
    List.getLast?_concat, Option.mem_some_iff] at h
  rw [← h]
  exact padded

/-- The exact run of the receiver against a sender that is never interrupted. -/
theorem ymodemReceive_stream (h : Handlers τ) (s : Receiver τ) (rest : Input)
    (input : s.input = stream σ ++ rest)
    (returns : ∀ head, (clientRun σ h head s.client).1 = some ()) :
    ∃ head frame, ymodemReceive true (some h.table) s = (some ymodemOk, {
        input := rest
        frame := frame
        trace := s.trace ++ (.putchar ymodemC :: .start head :: .putchar ymodemAck ::
          .putchar ymodemC :: (acknowledged (fileDeliveries σ) ++ [.putchar ymodemNak,
          .putchar ymodemAck, .putchar ymodemC, .putchar ymodemAck, .finish, .putchar recvEndChar]))
        client := (clientRun σ h head s.client).2 }) ∧
      head.fileName.take (σ.name.length + 1) = σ.name ++ [0x00] ∧
      head.nameLen = .ofNat (σ.name.length + 1) ∧ head.fileSize.toNat = σ.file.length := by
  have cut : s.input = (Arrival.mk 0 σ.header).input ++ ((σ.blocks.map atOnce).flatMap Arrival.input
      ++ (some ymodemEot :: some ymodemEot :: (arriving σ.closing.wire ++ rest))) := by
    rw [input, flatMap_atOnce]
    simp only [stream, arriving, Arrival.input, silence, List.replicate_zero, List.map_append,
      List.map_cons, List.nil_append, List.append_assoc, List.cons_append]
  obtain ⟨frame, header, packet⟩ := ymodemReceive_header σ h.table (by decide) cut
  have ran := returns ⟨frame.buf, .ofNat (σ.name.length + 1), .ofInt σ.file.length⟩
  rcases start : h.start ⟨frame.buf, .ofNat (σ.name.length + 1), .ofInt σ.file.length⟩ s.client
    with ⟨_ | ⟨⟩, c₁⟩
  · rw [clientRun, bind_of_none start] at ran
    simp at ran
  rcases data : clientData h.recvData (fileDeliveries σ) c₁ with ⟨_ | ⟨⟩, c₂⟩
  · rw [clientRun, bind_of_some start, bind_of_none data] at ran
    simp at ran
  rcases finish : h.finish c₂ with ⟨_ | ⟨⟩, c₃⟩
  · rw [clientRun, bind_of_some start, bind_of_some data, finish] at ran
    simp at ran
  have same : (σ.blocks.map atOnce).map (·.block.payload) = σ.blocks.map Block.payload := by
    rw [List.map_map]
    rfl
  obtain ⟨frame', file⟩ := recvFile_data h (σ.blocks.map atOnce) (σ.name.length + 1)
    σ.file.length
    (s := { s with
      input := (σ.blocks.map atOnce).flatMap Arrival.input
        ++ (some ymodemEot :: some ymodemEot :: (arriving σ.closing.wire ++ rest))
      frame := frame
      trace := s.trace ++ [.putchar ymodemC] })
    (by
      intro a ha
      obtain ⟨b, -, rfl⟩ := List.mem_map.mp ha
      exact (by decide : 0 < ymodemMaxRetry)) rfl (covers_blocks σ) start
    (by rw [same]; exact data)
  rw [same] at file
  obtain ⟨frame'', closing⟩ := recvClosing_finish h σ rest (c := c₃) (s := {
    input := some ymodemEot :: some ymodemEot :: (arriving σ.closing.wire ++ rest)
    frame := frame'
    trace := s.trace ++ [.putchar ymodemC] ++ [.start ⟨frame.buf, .ofNat (σ.name.length + 1),
      .ofInt σ.file.length⟩, .putchar ymodemAck, .putchar ymodemC] ++
      acknowledged (fileDeliveries σ)
    client := c₂ }) rfl finish
  refine ⟨⟨frame.buf, .ofNat (σ.name.length + 1), .ofInt σ.file.length⟩, frame'', ?_, ?_, rfl, ?_⟩
  · rw [header, file]
    refine closing.trans ?_
    rw [clientRun, bind_of_some start, bind_of_some data, finish]
    simp only [List.append_assoc, List.cons_append, List.nil_append]
  · have long := congrArg List.length packet
    have named := congrArg (List.take (σ.name.length + 1)) packet
    rw [σ.header_payload, YmodemFrame.packet, List.length_take, List.length_append,
      List.length_cons] at long
    rw [σ.header_payload, YmodemFrame.packet, List.take_take, Nat.min_eq_left (by omega),
      List.append_cons, List.take_left' (by simp)] at named
    exact named
  · have fits := σ.file_fits
    rw [UInt32.ofInt, UInt32.toNat_ofNat']
    omega

/-- Without losses: the call returns success, the client gets the exact size, then the file
followed by less padding than the last packet in contiguous pieces, then one finish, and
the receiver sends nothing but the acknowledgements of the protocol. -/
theorem ymodemReceive_delivers (h : Handlers τ) (s : Receiver τ) (rest : Input)
    (input : s.input = stream σ ++ rest)
    (returns : ∀ head, (clientRun σ h head s.client).1 = some ()) :
    ∃ head ds t s', ymodemReceive true (some h.table) s = (some ymodemOk, s') ∧
      s'.input = rest ∧ s'.trace = s.trace ++ t ∧
      callbacks t = .start head :: ds.map .recvData ++ [.finish] ∧
      head.fileName.take (σ.name.length + 1) = σ.name ++ [0x00] ∧
      head.nameLen = .ofNat (σ.name.length + 1) ∧ head.fileSize.toNat = σ.file.length ∧
      Contiguous ds ∧ ds.flatMap (·.data) = σ.file ++ σ.padding ∧
      (∀ d ∈ ds.getLast?, σ.padding.length < d.data.length) ∧
      sent t = [ymodemC, ymodemAck, ymodemC] ++ List.replicate σ.blocks.length ymodemAck ++
        [ymodemNak, ymodemAck, ymodemC, ymodemAck, recvEndChar] := by
  obtain ⟨head, frame, run, name, nameLen, size⟩ := ymodemReceive_stream σ h s rest input returns
  refine ⟨head, fileDeliveries σ, _, _, run, rfl, rfl, ?_, name, nameLen, size,
    contiguous_fileDeliveries σ, fileDeliveries_data σ, fun d hd => padding_lt_last σ hd, ?_⟩
  · have inner := callbacks_acknowledged (fileDeliveries σ)
    simp only [callbacks] at inner ⊢
    simp [inner, List.filter_cons, YmodemEvent.isCall]
  · have inner := sent_acknowledged (fileDeliveries σ)
    rw [fileDeliveries, length_deliveries, List.length_map, ← fileDeliveries] at inner
    simp only [sent] at inner ⊢
    simp [inner]

end Session

/-- A client that does nothing. -/
def idle : Handlers Unit :=
  { start := fun _ => pure (), recvData := fun _ => pure (), abort := fun _ => pure ()
    finish := pure () }

theorem clientData_idle (ds : List YmodemData) : clientData idle.recvData ds () = (some (), ()) := by
  induction ds with
  | nil => rfl
  | cons d ds ih => exact ih

theorem clientRun_idle (σ : Session) (head : YmodemHead) : clientRun σ idle head () = (some (), ()) := by
  have start : idle.start head () = (some (), ()) := rfl
  rw [clientRun, bind_of_some start, bind_of_some (clientData_idle (fileDeliveries σ))]
  rfl

/-- A receiver at rest before the given input. -/
def fresh (input : Input) : Receiver Unit := { input, frame := ⟨0, [], 0⟩, trace := [], client := () }

theorem ymodemReceive_delivers_oneByte :
    ∃ head ds t s', ymodemReceive true (some idle.table) (fresh (stream oneByte)) =
        (some ymodemOk, s') ∧
      s'.input = [] ∧ s'.trace = [] ++ t ∧
      callbacks t = .start head :: ds.map .recvData ++ [.finish] ∧
      head.fileName.take (oneByte.name.length + 1) = oneByte.name ++ [0x00] ∧
      head.nameLen = .ofNat (oneByte.name.length + 1) ∧
      head.fileSize.toNat = oneByte.file.length ∧
      Contiguous ds ∧ ds.flatMap (·.data) = oneByte.file ++ oneByte.padding ∧
      (∀ d ∈ ds.getLast?, oneByte.padding.length < d.data.length) ∧
      sent t = [ymodemC, ymodemAck, ymodemC] ++ List.replicate oneByte.blocks.length ymodemAck ++
        [ymodemNak, ymodemAck, ymodemC, ymodemAck, recvEndChar] :=
  ymodemReceive_delivers oneByte idle (fresh (stream oneByte)) [] (List.append_nil _).symm
    fun head => by
      show (clientRun oneByte idle head ()).1 = some ()
      rw [clientRun_idle]

end T113Boot.Ymodem.LossFree
