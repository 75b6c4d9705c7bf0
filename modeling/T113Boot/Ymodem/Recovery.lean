/- Module: T113Boot/Ymodem/Recovery
   layer: results
   digest: When the receiver gets over one wrong byte of a block with the sender's help. -/

import T113Boot.Ymodem.Termination
import T113Boot.Ymodem.WrongByte

set_option autoImplicit false
set_option relaxedAutoImplicit false

namespace T113Boot.Ymodem.Recovery

open T113Boot.Lib.Readings
open T113Boot.Lib.Stoppable
open Prog
open T113Boot.Ymodem.Receive
open T113Boot.Ymodem.Wire
open T113Boot.Ymodem.Sender
open T113Boot.Ymodem.Termination
open T113Boot.Ymodem.WrongByte

variable {τ : Type}

/-- How often a reception has asked again when its line has answered so much. -/
def naks (retries : Nat) (s : Receiver τ) (got : Input) : Nat :=
  (ymodemReceivePacket retries { s with input := got, trace := [] }).2.trace.count
    (.putchar ymodemNak)

/-- What the line answers next: the bytes sent first and then, once for every NAK so far, those sent
again come in their order, and a call that finds none of them left times out. -/
def nextByte (first again : List UInt8) (retries : Nat) (s : Receiver τ) (got : Input) :
    Option UInt8 :=
  (first ++ (List.replicate (naks retries s got) again).flatten)[got.reduceOption.length]?

/-- A block comes with a wrong byte, and the intact block once more for every NAK: after some calls
`ymodem_receive_packet` returns `YMODEM_OK`, and the payload lies in the frame. -/
def Recovers {b : Block} (c : Corruption b) (s : Receiver τ) : Prop :=
  ∃ m s', ymodemReceivePacket ymodemMaxRetry
      { s with input := told (nextByte c.wire b.wire ymodemMaxRetry s) m } = (some ymodemOk, s') ∧
    s'.frame.packet = b.payload

/-- A program that has sent nothing when it is left waiting. -/
def SendsLast {α : Type} (x : RecvM τ α) : Prop := ∀ s, (x s).1 = none → (x s).2.trace = s.trace

section SendsLast

variable {α β : Type}

theorem sendsLast_of_total {x : RecvM τ α} (total : ∀ s, (x s).1 ≠ none) : SendsLast x :=
  fun s stopped => absurd stopped (total s)

theorem sendsLast_bind {x : RecvM τ α} {f : α → RecvM τ β}
    (quiet : Keeps (fun s t => t.trace = s.trace) x) (later : ∀ a, SendsLast (f a)) :
    SendsLast (x >>= f) := by
  intro s stopped
  have first := quiet s
  rcases run : x s with ⟨_ | a, t⟩
  · rw [bind_of_none run]
    rw [run] at first
    exact first
  · rw [bind_of_some run] at stopped ⊢
    rw [run] at first
    exact (later a t stopped).trans first

theorem quiet_getchar : Keeps (fun s t : Receiver τ => t.trace = s.trace) ymodemGetchar := by
  intro s
  unfold ymodemGetchar
  split <;> rfl

theorem quiet_payload (n : Nat) :
    Keeps (fun s t : Receiver τ => t.trace = s.trace) (recvPayload n) := by
  intro s
  unfold recvPayload
  split <;> rfl

theorem sendsLast_askAgain : SendsLast (askAgain : RecvM τ (Option Int)) :=
  sendsLast_of_total fun _ => Option.some_ne_none _

theorem sendsLast_checksum : SendsLast (recvChecksum : RecvM τ (Option Int)) := by
  refine sendsLast_bind quiet_getchar fun crcH => ?_
  rcases crcH with _ | crcH
  · exact sendsLast_askAgain
  · refine sendsLast_bind quiet_getchar fun crcL => ?_
    rcases crcL with _ | crcL
    · exact sendsLast_askAgain
    · refine sendsLast_bind (fun _ => rfl) fun s => ?_
      split
      · exact sendsLast_askAgain
      · exact sendsLast_of_total fun _ => Option.some_ne_none _

theorem sendsLast_body (n : Nat) : SendsLast (recvBody n : RecvM τ (Option Int)) := by
  refine sendsLast_bind (fun _ => rfl) fun _ => sendsLast_bind quiet_getchar fun packNum => ?_
  rcases packNum with _ | packNum
  · exact sendsLast_askAgain
  · refine sendsLast_bind quiet_getchar fun packMask => ?_
    rcases packMask with _ | packMask
    · exact sendsLast_askAgain
    · dsimp only
      split
      · exact sendsLast_askAgain
      · exact sendsLast_bind (quiet_payload n) fun _ => sendsLast_checksum

theorem sendsLast_turn : SendsLast (recvTurn : RecvM τ (Option Int)) := by
  refine sendsLast_bind quiet_getchar fun head => ?_
  have total (ret : Option Int) : SendsLast (pure ret : RecvM τ (Option Int)) :=
    sendsLast_of_total fun _ => Option.some_ne_none _
  rcases head with _ | head
  · exact total none
  · dsimp only
    split
    · exact sendsLast_body _
    · split
      · exact sendsLast_body _
      · split
        · exact total _
        · exact total _

end SendsLast

/-- How often a reception asks again before the input ends or the reception does. -/
def asked : Nat → Input → Nat
  | 0, _ => 0
  | n + 1, input =>
    match readTurn input with
    | some (.again, rest) => asked n rest + 1
    | some (.silent, rest) => asked n rest
    | _ => 0

theorem ymodemReceivePacket_trace (n : Nat) (s : Receiver τ) :
    (ymodemReceivePacket n s).2.trace =
      s.trace ++ List.replicate (asked n s.input) (.putchar ymodemNak) := by
  induction n generalizing s with
  | zero => exact (List.append_nil _).symm
  | succ n ih =>
    have turn := recvTurn_run s
    rw [asked, ymodemReceivePacket]
    rcases reading : readTurn s.input with _ | ⟨⟨outcome⟩ | _ | _, rest⟩ <;>
      rw [reading] at turn <;> simp only [TurnRun] at turn
    · rcases run : recvTurn s with ⟨_ | answer, t⟩
      · have quiet := sendsLast_turn s
        rw [run] at quiet
        rw [bind_of_none run]
        simpa using quiet rfl
      · rw [run] at turn
        cases turn
    · obtain ⟨s', run, after⟩ := turn
      have same : s'.trace = s.trace := by simpa using after.trace
      rw [bind_of_some run]
      exact same.trans (List.append_nil _).symm
    · obtain ⟨s', run, after⟩ := turn
      rw [bind_of_some run]
      refine (ih s').trans ?_
      rw [after.trace, after.input, if_pos rfl, List.append_assoc, List.replicate_succ]
      rfl
    · obtain ⟨s', run, after⟩ := turn
      rw [bind_of_some run]
      refine (ih s').trans ?_
      rw [after.trace, after.input]
      simp

theorem naks_eq (n : Nat) (s : Receiver τ) (got : Input) : naks n s got = asked n got := by
  rw [naks, ymodemReceivePacket_trace, List.nil_append, List.count_replicate_self]

/-- A line with some bytes on it and nothing behind them. -/
def aired (bs : List UInt8) : Line := fun i => bs[i]?

/-- The next byte, by the readings. -/
def nextOf (first again : List UInt8) (n : Nat) (got : Input) : Option UInt8 :=
  (first ++ (List.replicate (asked n got) again).flatten)[got.reduceOption.length]?

theorem nextByte_eq (first again : List UInt8) (n : Nat) (s : Receiver τ) :
    nextByte first again n s = nextOf first again n := by
  funext got
  rw [nextByte, nextOf, naks_eq]

/-- The reception brings the payload. -/
def Gets (payload again : List UInt8) (n : Nat) (first : List UInt8) : Prop :=
  ∃ m naks rest, reception n (told (nextOf first again n) m) = some (.packet payload, naks, rest)

theorem recovers_iff_gets {b : Block} (c : Corruption b) (s : Receiver τ) :
    Recovers c s ↔ Gets b.payload b.wire ymodemMaxRetry c.wire := by
  rw [Recovers, Gets, nextByte_eq]
  refine exists_congr fun m => ?_
  constructor
  · rintro ⟨s', run, stored⟩
    obtain ⟨outcome, naks, rest, read, code, received⟩ := ymodemReceivePacket_returns run
    rcases outcome with payload | _ | _
    · obtain ⟨same, -⟩ := received.packet payload rfl
      obtain rfl := same.symm.trans stored
      exact ⟨naks, rest, read⟩
    · exact absurd code (by decide)
    · exact absurd code (by decide)
  · rintro ⟨naks, rest, read⟩
    obtain ⟨s', run, received⟩ := ymodemReceivePacket_run ymodemMaxRetry
      { s with input := told (nextOf c.wire b.wire ymodemMaxRetry) m } read
    exact ⟨s', run, (received.packet b.payload rfl).1⟩

section Turns

variable {first again payload : List UInt8} {n k m : Nat} {turn : Turn}

theorem bytes_aired (bs : List UInt8) (k : Nat) :
    (answers (aired bs) 0 k).reduceOption.length = min k bs.length := by
  induction k with
  | zero => exact (Nat.zero_min _).symm
  | succ k ih =>
    rw [answers_concat, List.reduceOption_append, List.length_append, ih, Nat.zero_add]
    rcases Nat.lt_or_ge k bs.length with inside | outside
    · have here : aired bs k = some bs[k] := List.getElem?_eq_getElem inside
      rw [here]
      show min k bs.length + 1 = _
      omega
    · have here : aired bs k = none := List.getElem?_eq_none outside
      rw [here]
      show min k bs.length + 0 = _
      omega

theorem told_before (open_ : ∀ j < m, readTurn (answers (aired first) 0 j) = none) :
    told (nextOf first again (n + 1)) m = answers (aired first) 0 m := by
  refine told_eq_answers fun j inside => ?_
  rw [nextOf, asked, open_ j inside, bytes_aired, List.replicate_zero, List.flatten_nil,
    List.append_nil]
  rcases Nat.le_total j first.length with short | long
  · rw [Nat.min_eq_left short]
    rfl
  · rw [Nat.min_eq_right long]
    exact (List.getElem?_eq_none (Nat.le_refl _)).trans (List.getElem?_eq_none long).symm

theorem readTurn_more (takes : Takes readTurn (aired first) 0 turn k) (got : Input) :
    readTurn (answers (aired first) 0 k ++ got) = some (turn, got) := by
  obtain ⟨used, split, more⟩ := reads_turn _ _ _ takes
  rw [split, List.append_nil]
  exact more got

/-- What is left on the line behind a turn. -/
def left (turn : Turn) (first again : List UInt8) (k : Nat) : List UInt8 :=
  first.drop k ++ if turn = .again then again else []

theorem told_turn (takes : Takes readTurn (aired first) 0 turn k)
    (other : turn = .again ∨ turn = .silent) (m : Nat) :
    told (nextOf first again (n + 1)) (k + m) =
      answers (aired first) 0 k ++ told (nextOf (left turn first again k) again n) m := by
  rw [told_add, told_before fun j before => takes.before reads_turn before]
  congr 2
  funext got
  have read := readTurn_more takes got
  have bytes : ((answers (aired first) 0 k ++ got).reduceOption).length =
      min k first.length + got.reduceOption.length := by
    rw [List.reduceOption_append, List.length_append, bytes_aired]
  have cut (later : List UInt8) :
      (first ++ later)[min k first.length + got.reduceOption.length]? =
        (first.drop k ++ later)[got.reduceOption.length]? := by
    rw [← List.getElem?_drop, List.drop_append_of_le_length (Nat.min_le_right ..)]
    congr 2
    rcases Nat.le_total k first.length with short | long
    · rw [Nat.min_eq_left short]
    · rw [Nat.min_eq_right long, List.drop_length, List.drop_of_length_le long]
  rw [nextOf, nextOf, bytes, cut, asked, read, left]
  rcases other with rfl | rfl
  · rw [if_pos rfl, List.replicate_succ, List.flatten_cons, List.append_assoc]
  · rw [if_neg (by simp), List.append_nil]

theorem turn_of_gets (gets : Gets payload again (n + 1) first) :
    ∃ turn k, Takes readTurn (aired first) 0 turn k := by
  obtain ⟨m, naks, rest, read⟩ := gets
  by_cases open_ : ∀ j < m + 1, readTurn (answers (aired first) 0 j) = none
  · rw [told_before fun j inside => open_ j (Nat.lt_succ_of_lt inside), reception,
      open_ m (Nat.lt_succ_self m)] at read
    cases read
  · obtain ⟨j, ended⟩ := not_forall.mp open_
    obtain ⟨-, ended⟩ := Classical.not_imp.mp ended
    obtain ⟨⟨turn, rest⟩, done⟩ := Option.ne_none_iff_exists'.mp ended
    obtain ⟨k, -, -, -, takes⟩ := reads_turn.takes done
    exact ⟨turn, k, takes⟩

private theorem past_turn (takes : Takes readTurn (aired first) 0 turn k)
    (ended : reception (n + 1) (told (nextOf first again (n + 1)) m) ≠ none) : ∃ j, m = k + j := by
  refine Nat.exists_eq_add_of_le (Nat.le_of_not_lt fun fewer => ended ?_)
  have silent (j : Nat) (before : j < k) := takes.before reads_turn before
  rw [told_before fun j before => silent j (Nat.lt_trans before fewer), reception, silent m fewer]

theorem gets_done {outcome : Outcome} (takes : Takes readTurn (aired first) 0 (.done outcome) k) :
    Gets payload again (n + 1) first ↔ outcome = .packet payload := by
  constructor
  · rintro ⟨m, naks, rest, read⟩
    obtain ⟨j, rfl⟩ := past_turn takes (by rw [read]; exact Option.some_ne_none _)
    rw [told_add, told_before fun j before => takes.before reads_turn before, reception,
      readTurn_more takes] at read
    exact (Prod.mk.inj (Option.some.inj read)).1
  · rintro rfl
    refine ⟨k, 0, [], ?_⟩
    rw [told_before fun j before => takes.before reads_turn before, reception, takes]

theorem gets_other (takes : Takes readTurn (aired first) 0 turn k)
    (other : turn = .again ∨ turn = .silent) :
    Gets payload again (n + 1) first ↔ Gets payload again n (left turn first again k) := by
  have step (m : Nat) : reception (n + 1) (told (nextOf first again (n + 1)) (k + m)) =
      (reception n (told (nextOf (left turn first again k) again n) m)).map
        fun x => (x.1, x.2.1 + if turn = .again then 1 else 0, x.2.2) := by
    rw [told_turn takes other, reception, readTurn_more takes]
    rcases other with rfl | rfl
    · rfl
    · exact Option.map_id'.symm
  constructor
  · rintro ⟨m, naks, rest, read⟩
    obtain ⟨j, rfl⟩ := past_turn takes (by rw [read]; exact Option.some_ne_none _)
    rw [step] at read
    obtain ⟨⟨outcome, naks', rest'⟩, later, same⟩ := Option.map_eq_some_iff.mp read
    obtain ⟨rfl, -⟩ := Prod.mk.inj same
    exact ⟨j, naks', rest', later⟩
  · rintro ⟨m, naks, rest, read⟩
    refine ⟨k + m, naks + if turn = .again then 1 else 0, rest, ?_⟩
    rw [step, read]
    rfl

end Turns

/-- The bytes on the line bring a reception with some retries to a packet with the payload:
whatever stands in front of it is taken, a retry each, for a byte that is no start of a packet, or
for a packet with a wrong number, a wrong checksum or an end that is missing; but none of it for the
end of the transmission. Every wrong packet brings the block once more. -/
inductive Resyncs (payload again : List UInt8) : Nat → List UInt8 → Prop
  | packet {n : Nat} (format : Format) {packNum packMask : UInt8} (rest : List UInt8)
      (mask : packNum ^^^ packMask = 0xFF) (sized : payload.length = format.size) :
      Resyncs payload again (n + 1)
        (format.head :: packNum :: packMask :: (payload ++ crcBytes payload ++ rest))
  | skip {n : Nat} {c : UInt8} {rest : List UInt8}
      (other : c ≠ ymodemSoh ∧ c ≠ ymodemStx ∧ c ≠ ymodemEot)
      (later : Resyncs payload again n rest) : Resyncs payload again (n + 1) (c :: rest)
  | number {n : Nat} (format : Format) {packNum packMask : UInt8} {rest : List UInt8}
      (wrong : packNum ^^^ packMask ≠ 0xFF) (later : Resyncs payload again n (rest ++ again)) :
      Resyncs payload again (n + 1) (format.head :: packNum :: packMask :: rest)
  | checksum {n : Nat} (format : Format) {packNum packMask crcH crcL : UInt8} {bs rest : List UInt8}
      (mask : packNum ^^^ packMask = 0xFF) (sized : bs.length = format.size)
      (wrong : recvCrc crcH crcL ≠ ymodemCrc16 bs)
      (later : Resyncs payload again n (rest ++ again)) :
      Resyncs payload again (n + 1)
        (format.head :: packNum :: packMask :: (bs ++ crcH :: crcL :: rest))
  | cut {n : Nat} (format : Format) {rest : List UInt8}
      (short : rest.length < 2 ∨ ∃ packNum packMask bs, rest = packNum :: packMask :: bs ∧
        packNum ^^^ packMask = 0xFF ∧ format.size ≤ bs.length ∧ bs.length < format.size + 2)
      (later : Resyncs payload again n again) : Resyncs payload again (n + 1) (format.head :: rest)

theorem answers_aired (bs rest : List UInt8) :
    answers (aired (bs ++ rest)) 0 bs.length = arriving bs := by
  refine List.ext_getElem ?_ fun i _ inside => ?_
  · rw [length_answers, arriving, List.length_map]
  · have short : i < bs.length := by rwa [arriving, List.length_map] at inside
    simp only [answers, arriving, aired, List.getElem_map, List.getElem_range', Nat.zero_add,
      Nat.one_mul]
    rw [List.getElem?_append_left short, List.getElem?_eq_getElem short]

theorem answers_aired_silence (bs : List UInt8) (j : Nat) :
    answers (aired bs) 0 (bs.length + j) = arriving bs ++ silence j := by
  have front := answers_aired bs []
  rw [List.append_nil] at front
  rw [answers_add, front, Nat.zero_add]
  congr 1
  refine List.eq_replicate_iff.mpr ⟨length_answers _ _ _, fun c member => ?_⟩
  obtain ⟨i, place, rfl⟩ := List.mem_map.mp member
  exact List.getElem?_eq_none (List.mem_range'_1.mp place).1

section Shapes

variable {payload again rest : List UInt8} {n : Nat}

theorem takes_aired {bs : List UInt8} {turn : Turn}
    (read : readTurn (arriving bs) = some (turn, [])) (rest : List UInt8) :
    Takes readTurn (aired (bs ++ rest)) 0 turn bs.length := by
  rw [Takes, answers_aired]
  exact read

theorem takes_cut {bs : List UInt8} {turn : Turn} {j : Nat}
    (read : readTurn (arriving bs ++ silence j) = some (turn, [])) :
    Takes readTurn (aired bs) 0 turn (bs.length + j) := by
  rw [Takes, answers_aired_silence]
  exact read

theorem left_aired (turn : Turn) (bs rest again : List UInt8) :
    left turn (bs ++ rest) again bs.length = rest ++ if turn = .again then again else [] := by
  rw [left, List.drop_left]

theorem not_gets_nil : ¬ Gets payload again n [] := by
  induction n with
  | zero =>
    rintro ⟨m, naks, rest, read⟩
    cases read
  | succ n ih =>
    have turn : Takes readTurn (aired []) 0 .silent (0 + 1) :=
      @takes_cut [] .silent 1 rfl
    rw [gets_other turn (.inr rfl)]
    exact ih

theorem gets_skip {c : UInt8} (other : c ≠ ymodemSoh ∧ c ≠ ymodemStx ∧ c ≠ ymodemEot) :
    Gets payload again (n + 1) (c :: rest) ↔ Gets payload again n rest := by
  have read : readTurn (arriving [c]) = some (.silent, []) := by
    simp only [arriving, List.map_cons, List.map_nil, readTurn, if_neg other.1, if_neg other.2.1,
      if_neg other.2.2]
  rw [← List.singleton_append, gets_other (takes_aired read rest) (.inr rfl), left_aired,
    if_neg (by simp), List.append_nil]

theorem not_gets_eot : ¬ Gets payload again (n + 1) (ymodemEot :: rest) := by
  have read : readTurn (arriving [ymodemEot]) = some (.done .eot, []) := rfl
  rw [← List.singleton_append, gets_done (takes_aired read rest)]
  exact Outcome.noConfusion

theorem gets_number (format : Format) {packNum packMask : UInt8}
    (wrong : packNum ^^^ packMask ≠ 0xFF) :
    Gets payload again (n + 1) (format.head :: packNum :: packMask :: rest) ↔
      Gets payload again n (rest ++ again) := by
  have read : readTurn (arriving [format.head, packNum, packMask]) = some (.again, []) :=
    readTurn_number format wrong []
  have turn := takes_aired read rest
  have same : [format.head, packNum, packMask] ++ rest =
    format.head :: packNum :: packMask :: rest := rfl
  rw [← same, gets_other turn (.inl rfl), left_aired, if_pos rfl]

section Frame

variable (format : Format) {packNum packMask crcH crcL : UInt8} {bs : List UInt8}
  (mask : packNum ^^^ packMask = 0xFF) (sized : bs.length = format.size)
include mask sized

private theorem takes_frame (crcH crcL : UInt8) (rest : List UInt8) : Takes readTurn
    (aired ([format.head, packNum, packMask] ++ bs ++ [crcH, crcL] ++ rest)) 0
    (if recvCrc crcH crcL = ymodemCrc16 bs then .done (.packet bs) else .again)
    ([format.head, packNum, packMask] ++ bs ++ [crcH, crcL]).length := by
  refine takes_aired ?_ rest
  rw [← readTurn_frame format mask sized crcH crcL []]
  simp [arriving]

theorem gets_accepted (right : recvCrc crcH crcL = ymodemCrc16 bs) :
    Gets payload again (n + 1)
      (format.head :: packNum :: packMask :: (bs ++ crcH :: crcL :: rest)) ↔ bs = payload := by
  have turn := takes_frame format mask sized crcH crcL rest
  rw [if_pos right] at turn
  have same : [format.head, packNum, packMask] ++ bs ++ [crcH, crcL] ++ rest =
      format.head :: packNum :: packMask :: (bs ++ crcH :: crcL :: rest) := by simp
  rw [← same, gets_done turn, Outcome.packet.injEq]

theorem gets_rejected (wrong : recvCrc crcH crcL ≠ ymodemCrc16 bs) :
    Gets payload again (n + 1)
      (format.head :: packNum :: packMask :: (bs ++ crcH :: crcL :: rest)) ↔
        Gets payload again n (rest ++ again) := by
  have turn := takes_frame format mask sized crcH crcL rest
  rw [if_neg wrong] at turn
  have same : [format.head, packNum, packMask] ++ bs ++ [crcH, crcL] ++ rest =
      format.head :: packNum :: packMask :: (bs ++ crcH :: crcL :: rest) := by simp
  rw [← same, gets_other turn (.inl rfl), left_aired, if_pos rfl]

end Frame

theorem gets_cut (format : Format) (short : rest.length < 2 ∨ ∃ packNum packMask bs,
      rest = packNum :: packMask :: bs ∧ packNum ^^^ packMask = 0xFF ∧ format.size ≤ bs.length ∧
        bs.length < format.size + 2) :
    Gets payload again (n + 1) (format.head :: rest) ↔ Gets payload again n again := by
  have read : readTurn (arriving (format.head :: rest) ++ silence 1) = some (.again, []) := by
    match rest, short with
    | [], _ => cases format <;> rfl
    | [packNum], _ => cases format <;> rfl
    | packNum :: packMask :: bs, .inl short =>
      simp only [List.length_cons] at short
      omega
    | _, .inr ⟨packNum, packMask, bs, rfl, mask, long, short⟩ =>
      have parts : bs = bs.take format.size ++ bs.drop format.size :=
        (List.take_append_drop ..).symm
      have cut : (bs.take format.size).length = format.size := List.length_take_of_le long
      have checksum : (bs.drop format.size).length < 2 := by
        rw [List.length_drop]
        omega
      have payload := readTurn_payload format mask cut (arriving (bs.drop format.size) ++ silence 1)
      rw [← List.append_assoc, ← arriving_append, ← parts] at payload
      refine payload.trans ?_
      match bs.drop format.size, checksum with
      | [], _ => rfl
      | [crcH], _ => rfl
  have turn := takes_cut read
  rw [gets_other turn (.inl rfl), left, if_pos rfl, List.drop_of_length_le (Nat.le_add_right ..),
    List.nil_append]

theorem not_gets_starved (format : Format) {packNum packMask : UInt8}
    (mask : packNum ^^^ packMask = 0xFF) (short : rest.length < format.size) :
    ¬ Gets payload again (n + 1) (format.head :: packNum :: packMask :: rest) := by
  intro gets
  have begins : Begins (aired (format.head :: packNum :: packMask :: rest)) 0 format.size := by
    refine ⟨?_, packNum, packMask, rfl, rfl, mask⟩
    rcases format with _ | _
    · exact .inl ⟨rfl, rfl⟩
    · exact .inr ⟨rfl, rfl⟩
  obtain ⟨m, enough⟩ := takes_turn_iff.mp (turn_of_gets gets) format.size begins
  have bytes := bytes_aired (format.head :: packNum :: packMask :: rest) (3 + m)
  have front : (answers (aired (format.head :: packNum :: packMask :: rest)) 0 3).reduceOption =
      [format.head, packNum, packMask] := rfl
  rw [answers_add, List.reduceOption_append, front, List.length_append] at bytes
  simp only [List.length_cons, List.length_nil, Nat.zero_add] at bytes enough
  omega

end Shapes

private theorem resyncs_of_head {payload again rest : List UInt8} {n : Nat} (format : Format)
    (ih : ∀ first, Gets payload again n first → Resyncs payload again n first)
    (gets : Gets payload again (n + 1) (format.head :: rest)) :
    Resyncs payload again (n + 1) (format.head :: rest) := by
  rcases rest with _ | ⟨packNum, _ | ⟨packMask, rest⟩⟩
  · have short : ([] : List UInt8).length < 2 := by decide
    exact .cut format (.inl short) (ih _ ((gets_cut format (.inl short)).mp gets))
  · have short : [packNum].length < 2 := by simp
    exact .cut format (.inl short) (ih _ ((gets_cut format (.inl short)).mp gets))
  · by_cases mask : packNum ^^^ packMask = 0xFF
    · rcases Nat.lt_or_ge rest.length format.size with starved | long
      · exact absurd gets (not_gets_starved format mask starved)
      · rcases Nat.lt_or_ge rest.length (format.size + 2) with short | whole
        · have cut : (packNum :: packMask :: rest).length < 2 ∨ ∃ number complement bs,
              packNum :: packMask :: rest = number :: complement :: bs ∧
                number ^^^ complement = 0xFF ∧ format.size ≤ bs.length ∧
                  bs.length < format.size + 2 :=
            .inr ⟨packNum, packMask, rest, rfl, mask, long, short⟩
          exact .cut format cut (ih _ ((gets_cut format cut).mp gets))
        · obtain ⟨bs, crcH, crcL, rest, sized, rfl⟩ : ∃ bs crcH crcL rest',
              bs.length = format.size ∧ rest = bs ++ crcH :: crcL :: rest' := by
            have behind : 2 ≤ (rest.drop format.size).length := by
              rw [List.length_drop]
              omega
            rcases parts : rest.drop format.size with _ | ⟨crcH, _ | ⟨crcL, rest'⟩⟩
            · simp [parts] at behind
            · simp [parts] at behind
            · refine ⟨rest.take format.size, crcH, crcL, rest', List.length_take_of_le long, ?_⟩
              rw [← parts, List.take_append_drop]
          by_cases right : recvCrc crcH crcL = ymodemCrc16 bs
          · obtain rfl := (gets_accepted format mask sized right).mp gets
            obtain ⟨rfl, rfl⟩ := (recvCrc_eq_iff _ _ _).mp right
            have line : bs ++ crcBytes bs ++ rest = bs ++ (crcBytes bs ++ rest) :=
              List.append_assoc _ _ _
            show Resyncs bs again (n + 1)
              (format.head :: packNum :: packMask :: (bs ++ (crcBytes bs ++ rest)))
            rw [← line]
            exact .packet format rest mask sized
          · have later := (gets_rejected format mask sized right).mp gets
            exact .checksum format mask sized right (ih _ later)
    · exact .number format mask (ih _ ((gets_number format mask).mp gets))

/-- A reception gets the payload exactly of a line that leads to it. -/
theorem gets_iff_resyncs (payload again : List UInt8) (n : Nat) (first : List UInt8) :
    Gets payload again n first ↔ Resyncs payload again n first := by
  constructor
  · induction n generalizing first with
    | zero =>
      rintro ⟨m, naks, rest, read⟩
      cases read
    | succ n ih =>
      intro gets
      rcases first with _ | ⟨c, rest⟩
      · exact absurd gets not_gets_nil
      · by_cases eot : c = ymodemEot
        · subst eot
          exact absurd gets not_gets_eot
        · by_cases starts : c = ymodemSoh ∨ c = ymodemStx
          · obtain ⟨format, rfl⟩ : ∃ format : Format, c = format.head := by
              rcases starts with soh | stx
              · exact ⟨.soh, soh⟩
              · exact ⟨.stx, stx⟩
            exact resyncs_of_head format ih gets
          · have other : c ≠ ymodemSoh ∧ c ≠ ymodemStx ∧ c ≠ ymodemEot :=
              ⟨fun soh => starts (.inl soh), fun stx => starts (.inr stx), eot⟩
            exact .skip other (ih _ ((gets_skip other).mp gets))
  · intro leads
    induction leads with
    | packet format rest mask sized =>
      rw [List.append_assoc]
      exact (gets_accepted format mask sized (recvCrc_bytes (ymodemCrc16 payload))).mpr rfl
    | skip other _ ih => exact (gets_skip other).mpr ih
    | number format wrong _ ih => exact (gets_number format wrong).mpr ih
    | checksum format mask sized wrong _ ih => exact (gets_rejected format mask sized wrong).mpr ih
    | cut format short _ ih => exact (gets_cut format short).mpr ih

theorem resyncs_wire (b : Block) (n : Nat) (rest : List UInt8) :
    Resyncs b.payload b.wire (n + 1) (b.wire ++ rest) :=
  .packet b.format rest (mask_eq b.number) b.sized

/-- `ymodem_receive_packet` gets over the wrong byte exactly if it is none of the number and the
complement, or what is behind these leads to the payload within the retries that are left. -/
theorem recovers_iff {b : Block} (c : Corruption b) (s : Receiver τ) : Recovers c s ↔
    3 ≤ c.position ∨
      Resyncs b.payload b.wire 99 (b.payload ++ crcBytes b.payload ++ b.wire) := by
  rw [recovers_iff_gets, show ymodemMaxRetry = 99 + 1 from rfl]
  rcases Nat.lt_or_ge c.position 3 with early | late
  · obtain ⟨packNum, packMask, wire, wrong⟩ := wire_of_early c early
    rw [wire, gets_number b.format wrong, gets_iff_resyncs]
    exact (or_iff_right (Nat.not_le_of_lt early)).symm
  · obtain ⟨bs, crcH, crcL, wire, sized, wrong⟩ := wire_of_late c late
    rw [wire, gets_rejected b.format (mask_eq b.number) sized wrong, List.nil_append]
    have whole := resyncs_wire b 98 []
    rw [List.append_nil] at whole
    exact iff_of_true ((gets_iff_resyncs _ _ _ _).mpr whole) (.inl late)

theorem not_resyncs_of_plain {payload again : List UInt8} (bs rest : List UInt8) (n : Nat)
    (plain : ∀ c ∈ bs, c ≠ ymodemSoh ∧ c ≠ ymodemStx ∧ c ≠ ymodemEot) (long : n ≤ bs.length) :
    ¬ Resyncs payload again n (bs ++ rest) := by
  induction bs generalizing n with
  | nil =>
    obtain rfl := Nat.le_zero.mp long
    rintro ⟨⟩
  | cons c bs ih =>
    obtain ⟨soh, stx, -⟩ := plain c List.mem_cons_self
    have start (format : Format) : c ≠ format.head := by
      rcases format with _ | _
      · exact soh
      · exact stx
    intro leads
    generalize line : c :: bs ++ rest = first at leads
    rw [List.cons_append] at line
    cases leads with
    | packet format | number format | checksum format | cut format =>
      exact start format (List.cons.inj line).1
    | skip other later =>
      obtain ⟨rfl, rfl⟩ := List.cons.inj line
      exact ih _ (fun c member => plain c (List.mem_cons_of_mem _ member))
        (Nat.le_of_succ_le_succ long) later

/-- No such payload is got when the number or the complement is wrong. -/
theorem not_recovers_of_plain {b : Block} (c : Corruption b) (early : c.position < 3)
    (plain : ∀ c ∈ b.payload ++ crcBytes b.payload, c ≠ ymodemSoh ∧ c ≠ ymodemStx ∧ c ≠ ymodemEot)
    (s : Receiver τ) : ¬ Recovers c s := by
  rw [recovers_iff, not_or]
  refine ⟨Nat.not_le_of_lt early, not_resyncs_of_plain _ _ _ plain ?_⟩
  have size : 99 ≤ b.format.size := by cases b.format <;> decide
  rw [List.length_append, b.sized]
  exact Nat.le_trans size (Nat.le_add_right ..)

def zeros : Block where
  number := 0x01
  format := .soh
  payload := List.replicate 128 0x00
  sized := List.length_replicate

def second : Corruption zeros where
  position := 1
  value := 0x02
  later := Nat.one_pos
  inside := Nat.lt_of_lt_of_le (by decide) (three_le_wire zeros)
  wrong := by
    intro c member
    obtain rfl := Option.mem_some_iff.mp (show c ∈ some 0x01 from member)
    decide

theorem checksum_zeros (n : Nat) : ymodemCrc16 (List.replicate n 0x00) = 0 := by
  have still : crc16Byte 0 0x00 = 0 := by decide
  induction n with
  | zero => rfl
  | succ n ih =>
    rw [ymodemCrc16, List.replicate_succ, List.foldl_cons, still]
    exact ih

/-- The retries are spent on the zeros that the wrong number has left on the line. -/
theorem wrong_number_not_recovered : ¬ Recovers second waiting := by
  refine not_recovers_of_plain second (by decide) (fun c member => ?_) waiting
  rw [crcBytes, show ymodemCrc16 zeros.payload = 0 from checksum_zeros 128] at member
  have zero : c = 0x00 := by
    rcases List.mem_append.mp member with payload | checksum
    · exact List.eq_of_mem_replicate payload
    · simpa using checksum
  subst zero
  decide

end T113Boot.Ymodem.Recovery
