/- Module: T113Boot/Ymodem/CallbackProtocol
   layer: results
   digest: Which callbacks a transfer makes, against what it returns, on every input. -/

import T113Boot.Ymodem.LossFree

set_option autoImplicit false
set_option relaxedAutoImplicit false

namespace T113Boot.Ymodem.CallbackProtocol

open T113Boot.Lib.Stoppable
open Prog
open T113Boot.Ymodem.Receive
open T113Boot.Ymodem.Wire
open T113Boot.Ymodem.Sender
open T113Boot.Ymodem.Transfer
open T113Boot.Ymodem.LossFree

variable {τ : Type}

/-- The first packet within `n` requests, and the input after it. -/
def firstPacket : Nat → Input → Option (List UInt8 × Input)
  | 0, _ => none
  | n + 1, input =>
    match reception ymodemMaxRetry input with
    | some (.packet bs, _, rest) => some (bs, rest)
    | some (_, _, rest) => firstPacket n rest
    | none => none

/-- The input after the packets that hold `size` bytes, where they all come; the fuel is as in
the data loop. -/
def afterData : Nat → Int → Input → Option Input
  | 0, _, input => some input
  | fuel + 1, size, input =>
    if 0 < size then
      match reception ymodemMaxRetry input with
      | some (.packet bs, _, rest) => afterData fuel (size - bs.length) rest
      | _ => none
    else some input

/-- Two ends of transmission, each within the retries, and one more packet. -/
def Closes (input : Input) : Prop := ∃ naks rest naks' rest' bs naks'' rest'',
  reception ymodemMaxRetry input = some (.eot, naks, rest) ∧
  reception ymodemMaxRetry rest = some (.eot, naks', rest') ∧
  reception ymodemMaxRetry rest' = some (.packet bs, naks'', rest'')

/-- Where a whole file comes, the sender closes the session behind it. -/
def ClosedBehindData (input : Input) : Prop := ∀ bs rest size rest',
  firstPacket ymodemMaxRetry input = some (bs, rest) → announced bs = .ok size →
  afterData size.toNat size rest = some rest' → Closes rest'

/-- The documented protocol: abort alone, or start, data and one of finish and abort; success
with finish, failure with abort. -/
def Protocol (ret : Int) (calls : List YmodemEvent) : Prop :=
  ((∃ err, calls = [.abort err]) ∨ ∃ head, ∃ ds : List YmodemData, ∃ last,
    calls = .start head :: ds.map .recvData ++ [last] ∧ (last = .finish ∨ ∃ err, last = .abort err)) ∧
  (ret = ymodemOk ↔ .finish ∈ calls) ∧ (ret ≠ ymodemOk ↔ ∃ err, .abort err ∈ calls)

/-! What each step of a run that returns shows of callbacks. -/

/-- From `s` to `s'` the callbacks `calls` were made, and no others. -/
def Shows (s s' : Receiver τ) (calls : List YmodemEvent) : Prop :=
  ∃ t, s'.trace = s.trace ++ t ∧ callbacks t = calls

theorem Shows.refl (s : Receiver τ) : Shows s s [] := ⟨[], (List.append_nil _).symm, rfl⟩

theorem Shows.trans {s s' s'' : Receiver τ} {calls calls' : List YmodemEvent}
    (h : Shows s s' calls) (h' : Shows s' s'' calls') : Shows s s'' (calls ++ calls') := by
  obtain ⟨t, trace, rfl⟩ := h
  obtain ⟨t', trace', rfl⟩ := h'
  exact ⟨t ++ t', by rw [trace', trace, List.append_assoc], callbacks_append t t'⟩

theorem Shows.silent {s s' s'' : Receiver τ} {calls : List YmodemEvent} (h : Shows s s' [])
    (h' : Shows s' s'' calls) : Shows s s'' calls := h.trans h'

theorem putchar_returns {ch : UInt8} {s s' : Receiver τ} {u : Unit}
    (h : ymodemPutchar ch s = (some u, s')) :
    s'.input = s.input ∧ s'.frame = s.frame ∧ Shows s s' [] := by
  obtain ⟨-, rfl⟩ := Prod.mk.inj h
  exact ⟨rfl, rfl, [.putchar ch], rfl, rfl⟩

theorem call_returns {event : YmodemEvent} {f : Prog τ Unit} {s s' : Receiver τ} {u : Unit}
    (visible : YmodemEvent.isCall event = true) (h : call event (some f) s = (some u, s')) :
    s'.input = s.input ∧ s'.frame = s.frame ∧ Shows s s' [event] := by
  obtain ⟨-, rfl⟩ := Prod.mk.inj h
  exact ⟨rfl, rfl, [event], rfl, List.filter_cons_of_pos visible⟩

theorem received_shows {s s' : Receiver τ} {outcome : Outcome} {naks : Nat} {rest : Input}
    (h : Received s s' outcome naks rest) : Shows s s' [] := by
  refine ⟨_, h.trace, ?_⟩
  induction naks with
  | zero => rfl
  | succ n ih => exact List.filter_eq_nil_iff.mpr (by simp [YmodemEvent.isCall])

theorem code_eq_ok {outcome : Outcome} : outcome.code = 0 ↔ ∃ bs, outcome = .packet bs := by
  cases outcome <;> simp [Outcome.code, ymodemOk, packetEot, ymodemErrTimeout]

theorem code_eq_eot {outcome : Outcome} : outcome.code = packetEot ↔ outcome = .eot := by
  cases outcome <;> simp [Outcome.code, ymodemOk, packetEot, ymodemErrTimeout]

theorem recvFirst_returns (n : Nat) {s s' : Receiver τ} {begun : Bool}
    (h : recvFirst n s = (some begun, s')) :
    Shows s s' [] ∧ firstPacket n s.input =
      if begun then some (s'.frame.packet, s'.input) else none := by
  induction n generalizing s with
  | zero =>
    obtain ⟨rfl, rfl⟩ : begun = false ∧ s' = s := by simpa [recvFirst, eq_comm] using h
    exact ⟨.refl _, rfl⟩
  | succ n ih =>
    rw [recvFirst, bind_returns] at h
    obtain ⟨_, s₁, asked, h⟩ := h
    rw [bind_returns] at h
    obtain ⟨_, s₂, got, h⟩ := h
    obtain ⟨outcome, naks, rest, reading, rfl, received⟩ := ymodemReceivePacket_returns got
    obtain ⟨input, -, asked⟩ := putchar_returns asked
    rw [input] at reading
    have quiet := asked.silent (received_shows received)
    by_cases packet : outcome.code = 0
    · rw [if_pos packet] at h
      obtain ⟨bs, rfl⟩ := code_eq_ok.mp packet
      obtain ⟨rfl, rfl⟩ : begun = true ∧ s' = s₂ := by simpa [eq_comm] using h
      exact ⟨quiet, by rw [firstPacket, reading, if_pos rfl, (received.packet bs rfl).1, received.input]⟩
    · rw [if_neg packet] at h
      obtain ⟨later, first⟩ := ih h
      refine ⟨quiet.silent later, ?_⟩
      rw [← first, received.input, firstPacket, reading]
      rcases outcome with bs | _ | _
      · exact absurd rfl packet
      · rfl
      · rfl

/-- How a data phase ends: every packet due was handed over, or it aborted for the lack of one. -/
def DataEnds (ret : Int) (calls : List YmodemEvent) (due : Option Input) (left : Input) : Prop :=
  ∃ ds : List YmodemData, ret = ymodemOk ∧ calls = ds.map .recvData ∧ due = some left ∨
    ret = ymodemErrData ∧ calls = ds.map .recvData ++ [.abort ymodemErrData] ∧ due = none

theorem recvData_returns (h : Handlers τ) (fuel : Nat) {offset : UInt32} {s s' : Receiver τ}
    {ret : Int} (run : recvData h.table fuel offset s = (some ret, s')) :
    ∃ calls, Shows s s' calls ∧
      DataEnds ret calls (afterData fuel s.frame.fileSize s.input) s'.input := by
  induction fuel generalizing offset s with
  | zero =>
    obtain ⟨rfl, rfl⟩ : ret = ymodemOk ∧ s' = s := by simpa [recvData, eq_comm] using run
    exact ⟨[], .refl _, [], .inl ⟨rfl, rfl, rfl⟩⟩
  | succ fuel ih =>
    rw [recvData, bind_returns] at run
    obtain ⟨_, _, ⟨⟩, run⟩ := run
    by_cases due : 0 < s.frame.fileSize
    · rw [if_pos due, bind_returns] at run
      obtain ⟨_, s₁, got, run⟩ := run
      obtain ⟨outcome, naks, rest, reading, rfl, received⟩ := ymodemReceivePacket_returns got
      by_cases packet : outcome.code = 0
      · rw [if_neg fun failed => failed packet, bind_returns] at run
        obtain ⟨bs, rfl⟩ := code_eq_ok.mp packet
        obtain ⟨_, _, ⟨⟩, run⟩ := run
        simp only [bind_returns] at run
        obtain ⟨_, s₂, called, _, s₃, changed, _, s₄, acked, run⟩ := run
        obtain ⟨input₂, frame₂, called⟩ := call_returns rfl called
        obtain ⟨-, rfl⟩ := Prod.mk.inj changed
        obtain ⟨input₄, frame₄, acked⟩ := putchar_returns acked
        obtain ⟨calls, later, ds, ends⟩ := ih run
        obtain ⟨-, size⟩ := received.packet bs rfl
        simp only [input₄, frame₄, input₂, frame₂, received.input, received.fileSize, size] at ends
        refine ⟨_, (received_shows received).silent (called.trans (acked.silent later)),
          ⟨s₁.frame.packet, offset, .ofNat s₁.frame.pkgSize⟩ :: ds, ?_⟩
        rw [afterData, if_pos due, reading]
        rcases ends with ⟨ok, rfl, rest⟩ | ⟨err, rfl, rest⟩
        · exact .inl ⟨ok, rfl, rest⟩
        · exact .inr ⟨err, rfl, rest⟩
      · rw [if_pos packet, bind_returns] at run
        obtain ⟨_, s₂, called, run⟩ := run
        obtain ⟨-, -, called⟩ := call_returns rfl called
        obtain ⟨rfl, rfl⟩ : ret = ymodemErrData ∧ s' = s₂ := by simpa [eq_comm] using run
        refine ⟨_, (received_shows received).silent called, [], .inr ⟨rfl, rfl, ?_⟩⟩
        rw [afterData, if_pos due, reading]
        rcases outcome with bs | _ | _
        · exact absurd rfl packet
        · rfl
        · rfl
    · rw [if_neg due] at run
      obtain ⟨rfl, rfl⟩ : ret = ymodemOk ∧ s' = s := by simpa [eq_comm] using run
      exact ⟨[], .refl _, [], .inl ⟨rfl, rfl, by rw [afterData, if_neg due]⟩⟩

theorem recvLast_returns (h : Handlers τ) {s s' : Receiver τ} {ret : Int}
    (run : recvLast h.table s = (some ret, s')) :
    ret = ymodemOk ∧ Shows s s' [.finish] ∨ ret = ymodemErrEot ∧ Shows s s' [.abort ymodemErrEot] := by
  rw [recvLast, bind_returns] at run
  obtain ⟨_, _, ⟨⟩, run⟩ := run
  split at run
  · simp only [bind_returns] at run
    obtain ⟨_, s₁, acked, _, s₂, called, _, s₃, ended, run⟩ := run
    obtain ⟨-, -, acked⟩ := putchar_returns acked
    obtain ⟨-, -, called⟩ := call_returns rfl called
    obtain ⟨-, -, ended⟩ := putchar_returns ended
    obtain ⟨rfl, rfl⟩ : ret = ymodemOk ∧ s' = s₃ := by simpa [eq_comm] using run
    exact .inl ⟨rfl, acked.silent (called.trans ended)⟩
  · rw [bind_returns] at run
    obtain ⟨_, s₁, called, run⟩ := run
    obtain ⟨-, -, called⟩ := call_returns rfl called
    obtain ⟨rfl, rfl⟩ : ret = ymodemErrEot ∧ s' = s₁ := by simpa [eq_comm] using run
    exact .inr ⟨rfl, called⟩

/-- How a closing ends: with one callback where the sender closes, and with none where not. -/
def ClosingEnds (ret : Int) (calls : List YmodemEvent) (input : Input) : Prop :=
  Closes input ∧ (ret = ymodemOk ∧ calls = [.finish] ∨
      ret = ymodemErrEot ∧ calls = [.abort ymodemErrEot]) ∨
    ¬ Closes input ∧ ret = ymodemOk ∧ calls = []

theorem recvClosing_returns (h : Handlers τ) {s s' : Receiver τ} {ret : Int}
    (run : recvClosing h.table s = (some ret, s')) :
    ∃ calls, Shows s s' calls ∧ ClosingEnds ret calls s.input := by
  rw [recvClosing, bind_returns] at run
  obtain ⟨_, s₁, got₁, run⟩ := run
  obtain ⟨first, naks₁, rest₁, reading₁, rfl, received₁⟩ := ymodemReceivePacket_returns got₁
  by_cases eot₁ : first.code = packetEot
  · rw [if_pos eot₁] at run
    obtain rfl := code_eq_eot.mp eot₁
    simp only [bind_returns] at run
    obtain ⟨_, s₂, asked, _, s₃, got₂, run⟩ := run
    obtain ⟨input₂, -, asked⟩ := putchar_returns asked
    obtain ⟨second, naks₂, rest₂, reading₂, rfl, received₂⟩ := ymodemReceivePacket_returns got₂
    rw [input₂, received₁.input] at reading₂
    have quiet := (received_shows received₁).silent (asked.silent (received_shows received₂))
    by_cases eot₂ : second.code = packetEot
    · rw [if_pos eot₂] at run
      obtain rfl := code_eq_eot.mp eot₂
      simp only [bind_returns] at run
      obtain ⟨_, s₄, acked, _, s₅, invited, _, s₆, got₃, run⟩ := run
      obtain ⟨input₄, -, acked⟩ := putchar_returns acked
      obtain ⟨input₅, -, invited⟩ := putchar_returns invited
      obtain ⟨last, naks₃, rest₃, reading₃, rfl, received₃⟩ := ymodemReceivePacket_returns got₃
      rw [input₅, input₄, received₂.input] at reading₃
      have quiet := quiet.silent (acked.silent (invited.silent (received_shows received₃)))
      by_cases packet : last.code = 0
      · rw [if_pos packet] at run
        obtain ⟨bs, rfl⟩ := code_eq_ok.mp packet
        have closes : Closes s.input := ⟨_, _, _, _, _, _, _, reading₁, reading₂, reading₃⟩
        rcases recvLast_returns h run with ⟨ok, finish⟩ | ⟨err, abort⟩
        · exact ⟨_, quiet.silent finish, .inl ⟨closes, .inl ⟨ok, rfl⟩⟩⟩
        · exact ⟨_, quiet.silent abort, .inl ⟨closes, .inr ⟨err, rfl⟩⟩⟩
      · rw [if_neg packet] at run
        obtain ⟨rfl, rfl⟩ : ret = ymodemOk ∧ s' = s₆ := by simpa [eq_comm] using run
        refine ⟨[], quiet, .inr ⟨?_, rfl, rfl⟩⟩
        rintro ⟨_, _, _, _, bs, _, _, one, two, three⟩
        rw [reading₁] at one
        cases one
        rw [reading₂] at two
        cases two
        rw [reading₃] at three
        cases three
        exact packet rfl
    · rw [if_neg eot₂] at run
      obtain ⟨rfl, rfl⟩ : ret = ymodemOk ∧ s' = s₃ := by simpa [eq_comm] using run
      refine ⟨[], quiet, .inr ⟨?_, rfl, rfl⟩⟩
      rintro ⟨_, _, _, _, _, _, _, one, two, -⟩
      rw [reading₁] at one
      cases one
      rw [reading₂] at two
      cases two
      exact eot₂ rfl
  · rw [if_neg eot₁] at run
    obtain ⟨rfl, rfl⟩ : ret = ymodemOk ∧ s' = s₁ := by simpa [eq_comm] using run
    refine ⟨[], received_shows received₁, .inr ⟨?_, rfl, rfl⟩⟩
    rintro ⟨_, _, _, _, _, _, _, one, -, -⟩
    rw [reading₁] at one
    cases one
    exact eot₁ rfl

/-- How a file is received once it is announced. -/
def FileEnds (ret : Int) (calls : List YmodemEvent) (due : Option Input) : Prop :=
  ∃ head, ∃ ds : List YmodemData, ∃ ending, calls = .start head :: ds.map .recvData ++ ending ∧
    ((∃ left, due = some left ∧ ClosingEnds ret ending left) ∨
      due = none ∧ ret = ymodemErrData ∧ ending = [.abort ymodemErrData])

theorem recvFile_returns (h : Handlers τ) (nameLen : Nat) (size : Int) {s s' : Receiver τ} {ret : Int}
    (run : recvFile h.table nameLen size s = (some ret, s')) :
    ∃ calls, Shows s s' calls ∧ FileEnds ret calls (afterData size.toNat size s.input) := by
  simp only [recvFile, bind_returns] at run
  obtain ⟨_, s₁, sized, _, _, ⟨⟩, _, s₂, called, _, s₃, acked, _, s₄, invited, code, s₅, data, run⟩ := run
  obtain ⟨-, rfl⟩ := Prod.mk.inj sized
  obtain ⟨input₂, frame₂, called⟩ := call_returns rfl called
  obtain ⟨input₃, frame₃, acked⟩ := putchar_returns acked
  obtain ⟨input₄, frame₄, invited⟩ := putchar_returns invited
  obtain ⟨calls, shown, ds, ends⟩ := recvData_returns h _ data
  simp only [input₄, frame₄, input₃, frame₃, input₂, frame₂] at ends
  have begun : Shows s s₅ (.start ⟨s.frame.buf, .ofNat nameLen, .ofInt size⟩ :: calls) :=
    called.trans (acked.silent (invited.silent shown))
  rcases ends with ⟨rfl, rfl, due⟩ | ⟨rfl, rfl, due⟩
  · rw [if_neg fun failed => failed rfl] at run
    obtain ⟨ending, closing, ends⟩ := recvClosing_returns h run
    exact ⟨_, begun.trans closing, _, ds, ending, rfl, .inl ⟨_, due, ends⟩⟩
  · rw [if_pos (by decide)] at run
    obtain ⟨rfl, rfl⟩ : ret = ymodemErrData ∧ s' = s₅ := by simpa [eq_comm] using run
    exact ⟨_, begun, _, ds, _, rfl, .inr ⟨due, rfl, rfl⟩⟩

/-- An announced file keeps to the protocol exactly when the sender closes behind it. -/
theorem FileEnds.protocol {ret : Int} {calls : List YmodemEvent} {due : Option Input}
    (h : FileEnds ret calls due) : Protocol ret calls ↔ ∀ left, due = some left → Closes left := by
  obtain ⟨head, ds, ending, rfl, ⟨left, rfl, ends⟩ | ⟨rfl, rfl, rfl⟩⟩ := h
  · rcases ends with ⟨closes, ⟨rfl, rfl⟩ | ⟨rfl, rfl⟩⟩ | ⟨open_, rfl, rfl⟩
    · refine ⟨fun _ left same => ?_, fun _ => ⟨.inr ⟨head, ds, _, rfl, .inl rfl⟩, ?_, ?_⟩⟩
      · cases same
        exact closes
      · simp
      · simp
    · refine ⟨fun _ left same => ?_, fun _ => ⟨.inr ⟨head, ds, _, rfl, .inr ⟨_, rfl⟩⟩, ?_, ?_⟩⟩
      · cases same
        exact closes
      · simp [ymodemErrEot, ymodemOk]
      · simp [ymodemErrEot, ymodemOk]
    · refine ⟨fun protocol => ?_, fun all => absurd (all left rfl) open_⟩
      have finished := protocol.2.1.mp rfl
      simp at finished
  · refine ⟨by simp, fun _ => ⟨.inr ⟨head, ds, _, rfl, .inr ⟨_, rfl⟩⟩, ?_, ?_⟩⟩
    · simp [ymodemErrData, ymodemOk]
    · simp [ymodemErrData, ymodemOk]

private theorem abort_protocol {err : Int} (h : err ≠ ymodemOk) : Protocol err [.abort err] := by
  refine ⟨.inl ⟨err, rfl⟩, ?_, ?_⟩
  · simp [h]
  · simp [h]

/-- A transfer that returns keeps to the callback protocol exactly when, in case a whole file
came, the two ends of transmission and a last block came behind it. -/
theorem ymodemReceive_protocol_iff (h : Handlers τ) {s s' : Receiver τ} {ret : Int}
    (begins : s.trace = []) (run : ymodemReceive true (some h.table) s = (some ret, s')) :
    Protocol ret (callbacks s'.trace) ↔ ClosedBehindData s.input := by
  have whole {calls : List YmodemEvent} (shown : Shows s s' calls) : callbacks s'.trace = calls := by
    obtain ⟨t, trace, rfl⟩ := shown
    rw [trace, begins, List.nil_append]
  simp only [ymodemReceive, Bool.true_eq_false, if_false, bind_returns] at run
  obtain ⟨begun, s₁, first, run⟩ := run
  obtain ⟨quiet, reading⟩ := recvFirst_returns _ first
  cases begun
  · rw [if_pos rfl, bind_returns] at run
    obtain ⟨_, s₂, called, run⟩ := run
    obtain ⟨-, -, called⟩ := call_returns rfl called
    obtain ⟨rfl, rfl⟩ : ret = ymodemErrTimeout ∧ s' = s₂ := by simpa [eq_comm] using run
    rw [whole (quiet.silent called)]
    refine ⟨fun _ bs rest size rest' got => ?_, fun _ => abort_protocol (by decide)⟩
    rw [reading] at got
    cases got
  · rw [if_neg (by decide), bind_returns] at run
    obtain ⟨_, _, ⟨⟩, run⟩ := run
    rw [if_pos rfl] at reading
    rcases size : announced s₁.frame.packet with err | fileSize <;> simp only [size] at run
    · rw [bind_returns] at run
      obtain ⟨_, s₂, called, run⟩ := run
      obtain ⟨-, -, called⟩ := call_returns rfl called
      obtain ⟨rfl, rfl⟩ : ret = ymodemErrHeader ∧ s' = s₂ := by simpa [eq_comm] using run
      rw [whole (quiet.silent called)]
      refine ⟨fun _ bs rest size' rest' got announce => ?_, fun _ => abort_protocol (by decide)⟩
      rw [reading] at got
      cases got
      rw [size] at announce
      cases announce
    · obtain ⟨calls, shown, ends⟩ := recvFile_returns h _ _ run
      rw [whole (quiet.silent shown), ends.protocol]
      constructor
      · intro all bs rest size' rest' got announce
        rw [reading] at got
        cases got
        rw [size] at announce
        cases announce
        exact all rest'
      · intro closed left due
        exact closed _ _ _ _ reading size due

/-- On a complete transfer both sides of the equivalence hold. -/
theorem ymodemReceive_protocol_oneByte : ∃ s',
    ymodemReceive true (some idle.table) (fresh (stream oneByte)) = (some ymodemOk, s') ∧
      (Protocol ymodemOk (callbacks s'.trace) ↔ ClosedBehindData (stream oneByte)) := by
  obtain ⟨s', run⟩ : ∃ s', ymodemReceive true (some idle.table) (fresh (stream oneByte)) =
      (some ymodemOk, s') := by
    obtain ⟨head, frame, run, -⟩ := ymodemReceive_stream oneByte idle (fresh (stream oneByte)) []
      (List.append_nil _).symm fun head => by
        show (clientRun oneByte idle head ()).1 = some ()
        rw [clientRun_idle]
    exact ⟨_, run⟩
  have both := ymodemReceive_protocol_iff idle rfl run
  exact ⟨s', run, both⟩

/-- All blocks of a session, and then silence instead of the ends of transmission. -/
def unclosed (σ : Session) : Input :=
  (Arrival.mk 0 σ.header).input ++ ((σ.blocks.map atOnce).flatMap Arrival.input ++ silence 100)

/-- A file that came in full is then reported as a success with no callback at the end. -/
theorem ymodemReceive_unclosed (σ : Session) : ∃ s',
    ymodemReceive true (some idle.table) (fresh (unclosed σ)) = (some ymodemOk, s') ∧
      .finish ∉ callbacks s'.trace := by
  obtain ⟨frame, header, -⟩ := ymodemReceive_header σ idle.table (s := fresh (unclosed σ))
    (by decide) rfl
  obtain ⟨frame', file⟩ := recvFile_data idle (σ.blocks.map atOnce) (σ.name.length + 1)
    σ.file.length (c := ())
    (s := { fresh (unclosed σ) with
      input := (σ.blocks.map atOnce).flatMap Arrival.input ++ silence 100
      frame := frame
      trace := [] ++ [.putchar ymodemC] })
    (by
      intro a ha
      obtain ⟨b, -, rfl⟩ := List.mem_map.mp ha
      exact (by decide : 0 < ymodemMaxRetry)) rfl (covers_blocks σ) rfl (clientData_idle _)
  have silent : reception ymodemMaxRetry (silence 100) = some (.timeout, 0, []) := by
    rw [← List.append_nil (silence 100)]
    exact reception_timeout 100 []
  obtain ⟨s', closing, -, trace⟩ := recvClosing_other idle.table (s := {
      input := silence 100
      frame := frame'
      trace := [] ++ [.putchar ymodemC] ++ [.start ⟨frame.buf, .ofNat (σ.name.length + 1),
        .ofInt σ.file.length⟩, .putchar ymodemAck, .putchar ymodemC] ++
        acknowledged (deliveries 0 ((σ.blocks.map atOnce).map (·.block.payload)))
      client := () }) silent (by simp)
  refine ⟨s', (header.trans file).trans closing, fun finished => ?_⟩
  rw [trace] at finished
  simp [callbacks, acknowledged] at finished

/-- A one-byte file came in full, the call reports success, and no callback ended it. -/
theorem unclosed_breaks_protocol : ∃ s',
    ymodemReceive true (some idle.table) (fresh (unclosed oneByte)) = (some ymodemOk, s') ∧
      ¬ Protocol ymodemOk (callbacks s'.trace) := by
  obtain ⟨s', run, unfinished⟩ := ymodemReceive_unclosed oneByte
  exact ⟨s', run, fun protocol => unfinished (protocol.2.1.mp rfl)⟩

end T113Boot.Ymodem.CallbackProtocol
