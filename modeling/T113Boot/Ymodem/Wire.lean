/- Module: T113Boot/Ymodem/Wire
   layer: specification
   digest: What the receiver makes of a serial input, packet by packet, as a function of the input. -/

import T113Boot.Ymodem.Receive

set_option autoImplicit false
set_option relaxedAutoImplicit false

namespace T113Boot.Ymodem.Wire

open T113Boot.Lib.Stoppable
open Prog
open T113Boot.Ymodem.Receive

abbrev Input := List (Option UInt8)

/-- How a reception ends. -/
inductive Outcome where
  | packet (payload : List UInt8)
  | eot
  | timeout
deriving DecidableEq

/-- The return code that announces an outcome. -/
def Outcome.code : Outcome → Int
  | .packet _ => ymodemOk
  | .eot => packetEot
  | .timeout => ymodemErrTimeout

/-- How one turn of the retry loop ends: for good, or with another try, asked for or not. -/
inductive Turn where
  | done (outcome : Outcome)
  | again
  | silent
deriving DecidableEq

/-- The two checksum bytes after a payload. -/
def readChecksum (bs : List UInt8) : Input → Option (Turn × Input)
  | none :: rest => some (.again, rest)
  | some _ :: none :: rest => some (.again, rest)
  | some crcH :: some crcL :: rest =>
    some (if recvCrc crcH crcL = ymodemCrc16 bs then .done (.packet bs) else .again, rest)
  | _ => none

/-- A packet of `n` payload bytes, from its number on. -/
def readBody (n : Nat) : Input → Option (Turn × Input)
  | none :: rest => some (.again, rest)
  | some _ :: none :: rest => some (.again, rest)
  | some packNum :: some packMask :: rest =>
    if packNum ^^^ packMask = 0xFF then
      match takeBytes rest n with
      | none => none
      | some (bs, rest) => readChecksum bs rest
    else some (.again, rest)
  | _ => none

def readTurn : Input → Option (Turn × Input)
  | [] => none
  | none :: rest => some (.silent, rest)
  | some head :: rest =>
    if head = ymodemSoh then readBody packetSize128 rest
    else if head = ymodemStx then readBody packetSize1K rest
    else if head = ymodemEot then some (.done .eot, rest)
    else some (.silent, rest)

/-- A reception with `n` tries: its outcome, how often the packet was asked for again,
and the input left over. `none` where the input ends before the reception does. -/
def reception : Nat → Input → Option (Outcome × Nat × Input)
  | 0, input => some (.timeout, 0, input)
  | n + 1, input =>
    match readTurn input with
    | none => none
    | some (.done outcome, rest) => some (outcome, 0, rest)
    | some (.silent, rest) => reception n rest
    | some (.again, rest) => (reception n rest).map fun (outcome, naks, left) =>
        (outcome, naks + 1, left)

/-! The receiver follows this reading. -/

section Follows

variable {τ : Type}

theorem takeBytes_length {input : Input} {n : Nat} {bs : List UInt8} {rest : Input}
    (h : takeBytes input n = some (bs, rest)) : bs.length = n := by
  induction input, n using takeBytes.induct generalizing bs with
  | case1 input =>
    simp only [takeBytes, Option.some.injEq, Prod.mk.injEq] at h
    rw [← h.1, List.length_nil]
  | case2 n => simp [takeBytes] at h
  | case3 rest n ih => exact ih (by simpa only [takeBytes] using h)
  | case4 c rest n ih =>
    simp only [takeBytes, Option.map_eq_some_iff, Prod.mk.injEq, Prod.exists] at h
    obtain ⟨cs, left, taken, rfl, rfl⟩ := h
    rw [List.length_cons, ih taken]

/-- After a turn: the input is what the reading left, only requests were sent, and a
packet that was accepted lies in the frame. -/
structure TurnDone (s s' : Receiver τ) (turn : Turn) (rest : Input) : Prop where
  input : s'.input = rest
  client : s'.client = s.client
  fileSize : s'.frame.fileSize = s.frame.fileSize
  trace : s'.trace = s.trace ++ if turn = .again then [.putchar ymodemNak] else []
  packet : ∀ bs, turn = .done (.packet bs) → s'.frame.packet = bs ∧ s'.frame.pkgSize = bs.length

/-- The turn began before a part of it that only moved the input and the frame. -/
theorem TurnDone.since {s t s' : Receiver τ} {turn : Turn} {rest : Input}
    (h : TurnDone t s' turn rest) (client : t.client = s.client)
    (fileSize : t.frame.fileSize = s.frame.fileSize) (trace : t.trace = s.trace) :
    TurnDone s s' turn rest :=
  ⟨h.input, h.client.trans client, h.fileSize.trans fileSize, by rw [h.trace, trace], h.packet⟩

/-- What a turn hands to the retry loop. -/
def Turn.answer : Turn → Option Int
  | .done outcome => some outcome.code
  | _ => none

/-- The run of a turn from `s` against its reading. -/
def TurnRun (x : RecvM τ (Option Int)) (s : Receiver τ) (reading : Option (Turn × Input)) : Prop :=
  match reading with
  | none => (x s).1 = none
  | some (turn, rest) => ∃ s', x s = (some turn.answer, s') ∧ TurnDone s s' turn rest

private theorem askAgain_run (s : Receiver τ) : TurnRun askAgain s (some (.again, s.input)) :=
  ⟨_, rfl, rfl, rfl, rfl, rfl, fun _ h => by simp at h⟩

theorem getchar_nil {α : Type} (f : Option UInt8 → RecvM τ α) {s : Receiver τ}
    (h : s.input = []) : (ymodemGetchar >>= f) s = (none, s) := by
  simp only [bind_apply, ymodemGetchar, h]

theorem getchar_cons {α : Type} (f : Option UInt8 → RecvM τ α) {s : Receiver τ}
    {c : Option UInt8} {rest : Input} (h : s.input = c :: rest) :
    (ymodemGetchar >>= f) s = f c { s with input := rest } := by
  simp only [bind_apply, ymodemGetchar, h]

private theorem TurnRun.getchar {f : Option UInt8 → RecvM τ (Option Int)} {s : Receiver τ}
    {c : Option UInt8} {rest : Input} {reading : Option (Turn × Input)} (h : s.input = c :: rest)
    (run : TurnRun (f c) { s with input := rest } reading) :
    TurnRun (ymodemGetchar >>= f) s reading := by
  unfold TurnRun at run ⊢
  rw [getchar_cons f h]
  rcases reading with _ | ⟨turn, left⟩
  · exact run
  · obtain ⟨s', run, done⟩ := run
    exact ⟨s', run, done.since rfl rfl rfl⟩

private theorem TurnRun.starve {f : Option UInt8 → RecvM τ (Option Int)} {s : Receiver τ}
    (h : s.input = []) : TurnRun (ymodemGetchar >>= f) s none := by
  unfold TurnRun
  rw [getchar_nil f h]

theorem recvChecksum_run (s : Receiver τ) (full : s.frame.pkgSize = s.frame.packet.length) :
    TurnRun recvChecksum s (readChecksum s.frame.packet s.input) := by
  unfold recvChecksum
  match h : s.input with
  | [] => exact TurnRun.starve h
  | none :: rest => exact TurnRun.getchar h (askAgain_run _)
  | some crcH :: [] => exact TurnRun.getchar h (TurnRun.starve rfl)
  | some crcH :: none :: rest => exact TurnRun.getchar h (TurnRun.getchar rfl (askAgain_run _))
  | some crcH :: some crcL :: rest =>
    refine TurnRun.getchar h (TurnRun.getchar rfl ?_)
    simp only [readChecksum]
    by_cases valid : recvCrc crcH crcL = ymodemCrc16 s.frame.packet
    · rw [if_pos valid]
      refine ⟨{ s with input := rest }, ?_, rfl, rfl, rfl, by simp, ?_⟩
      · simp only [bind_apply, read_apply, valid, ne_eq, not_true_eq_false, if_false]
        rfl
      · intro bs same
        cases same
        exact ⟨rfl, full⟩
    · rw [if_neg valid]
      refine ⟨_, ?_, (askAgain_run { s with input := rest }).choose_spec.2⟩
      simp only [bind_apply, read_apply, ne_eq, valid, not_false_eq_true, if_true]
      exact (askAgain_run { s with input := rest }).choose_spec.1

private theorem TurnRun.silently {x y : RecvM τ (Option Int)} {s t : Receiver τ}
    {reading : Option (Turn × Input)} (same : x s = y t) (client : t.client = s.client)
    (fileSize : t.frame.fileSize = s.frame.fileSize) (trace : t.trace = s.trace)
    (run : TurnRun y t reading) : TurnRun x s reading := by
  unfold TurnRun at run ⊢
  rw [same]
  rcases reading with _ | ⟨turn, left⟩
  · exact run
  · obtain ⟨s', run, done⟩ := run
    exact ⟨s', run, done.since client fileSize trace⟩

theorem recvBody_run (n : Nat) (s : Receiver τ) : TurnRun (recvBody n) s (readBody n s.input) := by
  unfold recvBody
  refine TurnRun.silently (t := { s with frame := { s.frame with pkgSize := n } })
    (y := ymodemGetchar >>= _) rfl rfl rfl rfl ?_
  match s.input with
  | [] => exact TurnRun.starve rfl
  | none :: rest => exact TurnRun.getchar rfl (askAgain_run _)
  | some packNum :: [] => exact TurnRun.getchar rfl (TurnRun.starve rfl)
  | some packNum :: none :: rest => exact TurnRun.getchar rfl (TurnRun.getchar rfl (askAgain_run _))
  | some packNum :: some packMask :: rest =>
    refine TurnRun.getchar rfl (TurnRun.getchar rfl ?_)
    simp only [readBody]
    by_cases mask : packNum ^^^ packMask = 0xFF
    · rw [if_pos mask]
      simp only [mask, ne_eq, not_true_eq_false, if_false]
      rcases payload : takeBytes rest n with _ | ⟨bs, left⟩
      · simp only [TurnRun, bind_apply, recvPayload, payload]
      · have size := takeBytes_length payload
        have stored : (bs ++ s.frame.buf.drop n).take n = bs := by
          rw [← size, List.take_left']
          rfl
        have checked := recvChecksum_run (τ := τ)
          { s with input := left, frame := { s.frame with pkgSize := n, buf := bs ++ s.frame.buf.drop n } }
          (by simp only [YmodemFrame.packet, stored, size])
        simp only [YmodemFrame.packet, stored] at checked
        refine TurnRun.silently ?_ ?_ ?_ ?_ checked
        · simp only [bind_apply, recvPayload, payload]
        all_goals rfl
    · rw [if_neg mask]
      simp only [ne_eq, mask, not_false_eq_true, if_true]
      exact askAgain_run _

theorem recvTurn_run (s : Receiver τ) : TurnRun recvTurn s (readTurn s.input) := by
  unfold recvTurn
  match h : s.input with
  | [] => exact TurnRun.starve h
  | none :: rest =>
    exact TurnRun.getchar h ⟨_, rfl, rfl, rfl, rfl, by simp, fun _ same => by simp at same⟩
  | some head :: rest =>
    refine TurnRun.getchar h ?_
    simp only [readTurn]
    by_cases soh : head = ymodemSoh
    · simp only [soh, if_true]
      exact recvBody_run packetSize128 _
    · by_cases stx : head = ymodemStx
      · rw [if_neg soh, if_pos stx, if_neg soh, if_pos stx]
        exact recvBody_run packetSize1K _
      · rw [if_neg soh, if_neg stx, if_neg soh, if_neg stx]
        by_cases eot : head = ymodemEot
        · rw [if_pos eot, if_pos eot]
          exact ⟨_, rfl, rfl, rfl, rfl, by simp, fun _ same => by simp at same⟩
        · rw [if_neg eot, if_neg eot]
          exact ⟨_, rfl, rfl, rfl, rfl, by simp, fun _ same => by simp at same⟩

/-- After a reception: the input is what the reading left, the packet was asked for again
as often as the reading says, and a packet that was accepted lies in the frame. -/
structure Received (s s' : Receiver τ) (outcome : Outcome) (naks : Nat) (rest : Input) : Prop where
  input : s'.input = rest
  client : s'.client = s.client
  fileSize : s'.frame.fileSize = s.frame.fileSize
  trace : s'.trace = s.trace ++ List.replicate naks (.putchar ymodemNak)
  packet : ∀ bs, outcome = .packet bs → s'.frame.packet = bs ∧ s'.frame.pkgSize = bs.length

/-- `ymodem_receive_packet` returns what the reading of its input says. -/
theorem ymodemReceivePacket_run (n : Nat) (s : Receiver τ) {outcome : Outcome} {naks : Nat}
    {rest : Input} (h : reception n s.input = some (outcome, naks, rest)) :
    ∃ s', ymodemReceivePacket n s = (some outcome.code, s') ∧ Received s s' outcome naks rest := by
  induction n generalizing s naks with
  | zero =>
    simp only [reception, Option.some.injEq, Prod.mk.injEq] at h
    obtain ⟨rfl, rfl, rfl⟩ := h
    exact ⟨s, rfl, rfl, rfl, rfl, (List.append_nil _).symm, fun _ same => by simp at same⟩
  | succ n ih =>
    have turn := recvTurn_run s
    rcases reading : readTurn s.input with _ | ⟨⟨done⟩ | _ | _, left⟩ <;>
      simp only [reception, reading, reduceCtorEq] at h <;> simp only [reading, TurnRun] at turn
    · obtain ⟨s', run, after⟩ := turn
      simp only [Option.some.injEq, Prod.mk.injEq] at h
      obtain ⟨rfl, rfl, rfl⟩ := h
      refine ⟨s', ?_, after.input, after.client, after.fileSize, ?_, fun bs same => ?_⟩
      · rw [ymodemReceivePacket, bind_of_some run]
        rfl
      · simpa using after.trace
      · exact after.packet bs (congrArg Turn.done same)
    · obtain ⟨s', run, after⟩ := turn
      obtain ⟨⟨outcome', naks', rest'⟩, later, same⟩ := Option.map_eq_some_iff.mp h
      simp only [Prod.mk.injEq] at same
      obtain ⟨rfl, rfl, rfl⟩ := same
      obtain ⟨s'', run', received⟩ := ih s' (by rw [after.input, later])
      refine ⟨s'', ?_, received.input, received.client.trans after.client,
        received.fileSize.trans after.fileSize, ?_, received.packet⟩
      · rw [ymodemReceivePacket, bind_of_some run]
        exact run'
      · rw [received.trace, after.trace, if_pos rfl, List.append_assoc, List.replicate_succ]
        rfl
    · obtain ⟨s', run, after⟩ := turn
      obtain ⟨s'', run', received⟩ := ih s' (by rw [after.input, h])
      refine ⟨s'', ?_, received.input, received.client.trans after.client,
        received.fileSize.trans after.fileSize, ?_, received.packet⟩
      · rw [ymodemReceivePacket, bind_of_some run]
        exact run'
      · simpa [received.trace] using after.trace

theorem ymodemReceivePacket_starved (n : Nat) (s : Receiver τ) (h : reception n s.input = none) :
    (ymodemReceivePacket n s).1 = none := by
  induction n generalizing s with
  | zero => simp [reception] at h
  | succ n ih =>
    have turn := recvTurn_run s
    rw [ymodemReceivePacket, bind_apply]
    rcases reading : readTurn s.input with _ | ⟨⟨done⟩ | _ | _, left⟩ <;>
      simp only [reception, reading, reduceCtorEq, Option.map_eq_none_iff] at h <;>
      simp only [reading, TurnRun] at turn
    · rcases run : recvTurn s with ⟨_ | answer, s'⟩
      · rfl
      · simp [run] at turn
    · obtain ⟨s', run, after⟩ := turn
      rw [run]
      exact ih s' (by rw [after.input, h])
    · obtain ⟨s', run, after⟩ := turn
      rw [run]
      exact ih s' (by rw [after.input, h])

/-- A reception that returns had a reading. -/
theorem ymodemReceivePacket_returns {n : Nat} {s s' : Receiver τ} {ret : Int}
    (h : ymodemReceivePacket n s = (some ret, s')) :
    ∃ outcome naks rest, reception n s.input = some (outcome, naks, rest) ∧ ret = outcome.code ∧
      Received s s' outcome naks rest := by
  rcases reading : reception n s.input with _ | ⟨outcome, naks, rest⟩
  · have starved := ymodemReceivePacket_starved n s reading
    simp [h] at starved
  · obtain ⟨t, run, received⟩ := ymodemReceivePacket_run n s reading
    rw [h] at run
    cases run
    exact ⟨outcome, naks, rest, rfl, rfl, received⟩

end Follows

end T113Boot.Ymodem.Wire
