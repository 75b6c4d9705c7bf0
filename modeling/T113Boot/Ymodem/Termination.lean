/- Module: T113Boot/Ymodem/Termination
   layer: results
   digest: On which lines, followed for ever, a packet and a whole transfer come to an end. -/

import Mathlib.Data.List.GetD
import Mathlib.Data.List.ReduceOption
import T113Boot.Lib.Readings
import T113Boot.Ymodem.Wire

set_option autoImplicit false
set_option relaxedAutoImplicit false

namespace T113Boot.Ymodem.Termination

open T113Boot.Lib.Readings
open T113Boot.Lib.Stoppable
open Prog
open T113Boot.Ymodem.Receive
open T113Boot.Ymodem.Wire

/-- What each call of `ymodem_getchar` answers, for ever; `none` is a time-out. -/
abbrev Line := Nat → Option UInt8

variable {line : Line} {q m k n : Nat}

theorem reads_takeBytes (n : Nat) : Reads fun input => takeBytes input n := by
  intro input
  induction input, n using takeBytes.induct with
  | case1 input =>
    intro bs rest taken
    simp only [takeBytes] at taken
    cases taken
    exact ⟨[], rfl, fun more => by cases more <;> rfl⟩
  | case2 n =>
    intro bs rest taken
    simp [takeBytes] at taken
  | case3 input n ih =>
    intro bs rest taken
    simp only [takeBytes] at taken
    obtain ⟨used, split, again⟩ := ih bs rest taken
    refine ⟨none :: used, by rw [split, List.cons_append], fun more => ?_⟩
    simp only [List.cons_append, takeBytes]
    exact again more
  | case4 c input n ih =>
    intro bs rest taken
    simp only [takeBytes, Option.map_eq_some_iff, Prod.mk.injEq, Prod.exists] at taken
    obtain ⟨cs, left, taken, rfl, rfl⟩ := taken
    obtain ⟨used, split, again⟩ := ih cs left taken
    refine ⟨some c :: used, by rw [split, List.cons_append], fun more => ?_⟩
    have more' : takeBytes (used ++ more) n = some (cs, more) := again more
    simp only [List.cons_append, takeBytes, more', Option.map_some]

theorem reads_checksum (bs : List UInt8) : Reads (readChecksum bs) := by
  refine Reads.cons (fun c rest => readChecksum bs (c :: rest)) (fun _ _ => rfl) rfl ?_
  intro c
  rcases c with _ | crcH
  · exact reads_some _
  · refine Reads.cons (fun c rest => readChecksum bs (some crcH :: c :: rest))
      (fun _ _ => rfl) rfl ?_
    intro c
    rcases c with _ | crcL
    · exact reads_some _
    · exact reads_some _

theorem reads_body (n : Nat) : Reads (readBody n) := by
  refine Reads.cons (fun c rest => readBody n (c :: rest)) (fun _ _ => rfl) rfl ?_
  intro c
  rcases c with _ | packNum
  · exact reads_some _
  · refine Reads.cons (fun c rest => readBody n (some packNum :: c :: rest))
      (fun _ _ => rfl) rfl ?_
    intro c
    rcases c with _ | packMask
    · exact reads_some _
    · by_cases mask : packNum ^^^ packMask = 0xFF
      · have whole := (reads_takeBytes n).bind reads_checksum
        have same (input : Input) : readBody n (some packNum :: some packMask :: input) =
            (takeBytes input n).bind fun x => readChecksum x.1 x.2 := by
          rw [readBody, if_pos mask]
          rcases takeBytes input n with _ | ⟨bs, rest⟩
          · rfl
          · rfl
        intro input turn rest read
        obtain ⟨used, split, again⟩ := whole input turn rest ((same input).symm.trans read)
        exact ⟨used, split, fun more => (same _).trans (again more)⟩
      · simp only [readBody, if_neg mask]
        exact reads_some _

theorem reads_turn : Reads readTurn := by
  refine Reads.cons (fun c rest => readTurn (c :: rest)) (fun _ _ => rfl) rfl ?_
  intro c
  rcases c with _ | head
  · exact reads_some _
  · simp only [readTurn]
    by_cases soh : head = ymodemSoh
    · simp only [if_pos soh]
      exact reads_body _
    · by_cases stx : head = ymodemStx
      · simp only [if_neg soh, if_pos stx]
        exact reads_body _
      · by_cases eot : head = ymodemEot
        · simp only [if_neg soh, if_neg stx, if_pos eot]
          exact reads_some _
        · simp only [if_neg soh, if_neg stx, if_neg eot]
          exact reads_some _

/-- A reception without the count of its requests. -/
def readPacket (retries : Nat) (input : Input) : Option (Outcome × Input) :=
  (reception retries input).map fun x => (x.1, x.2.2)

theorem readPacket_succ (retries : Nat) (input : Input) : readPacket (retries + 1) input =
    (readTurn input).bind fun x => match x.1 with
      | .done outcome => some (outcome, x.2)
      | .again => readPacket retries x.2
      | .silent => readPacket retries x.2 := by
  unfold readPacket
  rw [reception]
  rcases readTurn input with _ | ⟨outcome | _ | _, rest⟩
  · rfl
  · rfl
  · dsimp only
    rw [Option.bind_some, Option.map_map]
    rfl
  · rfl

theorem reads_packet (retries : Nat) : Reads (readPacket retries) := by
  induction retries with
  | zero => exact reads_some _
  | succ retries ih =>
    intro input outcome rest read
    simp only [readPacket_succ] at read ⊢
    refine Reads.bind (g := fun turn input => match turn with
      | .done outcome => some (outcome, input)
      | .again => readPacket retries input
      | .silent => readPacket retries input) reads_turn ?_ input outcome rest read
    rintro (outcome | _ | _)
    · exact reads_some _
    · exact ih
    · exact ih

/-- From call `q` on the line brings `n` bytes, with any time-outs between them. -/
def Brings (line : Line) (q n : Nat) : Prop := ∃ m, n ≤ (answers line q m).reduceOption.length

/-- At call `q` stand the first three bytes of a packet of `n`. -/
structure Begins (line : Line) (q n : Nat) : Prop where
  head : line q = some ymodemSoh ∧ n = packetSize128 ∨ line q = some ymodemStx ∧ n = packetSize1K
  number : ∃ packNum packMask, line (q + 1) = some packNum ∧ line (q + 2) = some packMask ∧
    packNum ^^^ packMask = 0xFF

/-- The line feeds a reception with some retries that stands at call `q`: wherever a turn of it
finds the first bytes of a packet, all bytes of the payload come. -/
def Fed (line : Line) : Nat → Nat → Prop
  | 0, _ => True
  | retries + 1, q => (∀ n, Begins line q n → Brings line (q + 3) n) ∧
      ∀ turn k, Takes readTurn line q turn k → turn = .again ∨ turn = .silent →
        Fed line retries (q + k)

theorem takeBytes_isSome (input : Input) (n : Nat) :
    (takeBytes input n).isSome ↔ n ≤ input.reduceOption.length := by
  induction input, n using takeBytes.induct with
  | case1 input => simp [takeBytes]
  | case2 n => simp [takeBytes]
  | case3 input n ih => simpa [takeBytes, List.reduceOption_cons_of_none] using ih
  | case4 c input n ih =>
    rw [takeBytes, Option.isSome_map, ih, List.reduceOption_cons_of_some, List.length_cons]
    exact (Nat.succ_le_succ_iff).symm

theorem brings_iff :
    Brings line q n ↔ ∃ bs k, Takes (fun input => takeBytes input n) line q bs k := by
  constructor
  · rintro ⟨m, enough⟩
    obtain ⟨⟨bs, rest⟩, taken⟩ := Option.isSome_iff_exists.mp ((takeBytes_isSome _ _).mpr enough)
    obtain ⟨k, j, -, -, takes⟩ := (reads_takeBytes n).takes taken
    exact ⟨bs, k, takes⟩
  · rintro ⟨bs, k, takes⟩
    refine ⟨k, (takeBytes_isSome _ _).mp ?_⟩
    exact Option.isSome_iff_exists.mpr ⟨_, takes⟩

theorem takes_checksum (bs : List UInt8) (line : Line) (q : Nat) :
    ∃ turn k, Takes (readChecksum bs) line q turn k := by
  rcases first : line q with _ | crcH
  · exact ⟨_, 1, by rw [Takes, answers_succ, first]; rfl⟩
  · rcases second : line (q + 1) with _ | crcL
    · exact ⟨_, 2, by rw [Takes, answers_succ, answers_succ, first, second]; rfl⟩
    · exact ⟨_, 2, by rw [Takes, answers_succ, answers_succ, first, second]; rfl⟩

theorem takes_body_iff : (∃ turn k, Takes (readBody n) line q turn k) ↔
    ((∃ packNum packMask, line q = some packNum ∧ line (q + 1) = some packMask ∧
      packNum ^^^ packMask = 0xFF) → Brings line (q + 2) n) := by
  constructor
  · rintro ⟨turn, k, takes⟩ ⟨packNum, packMask, first, second, mask⟩
    rcases k with _ | _ | k
    · cases takes
    · rw [Takes, answers_succ, first] at takes
      cases takes
    · rw [Takes, answers_succ, answers_succ, first, second] at takes
      simp only [readBody, if_pos mask] at takes
      refine ⟨k, (takeBytes_isSome _ _).mp ?_⟩
      rw [show q + 2 = q + 1 + 1 from rfl]
      rcases taken : takeBytes (answers line (q + 1 + 1) k) n with _ | ⟨bs, rest⟩
      · rw [taken] at takes
        cases takes
      · rfl
  · intro brings
    rcases first : line q with _ | packNum
    · exact ⟨_, 1, by rw [Takes, answers_succ, first]; rfl⟩
    · rcases second : line (q + 1) with _ | packMask
      · exact ⟨_, 2, by rw [Takes, answers_succ, answers_succ, first, second]; rfl⟩
      · by_cases mask : packNum ^^^ packMask = 0xFF
        · obtain ⟨bs, j, payload⟩ := brings_iff.mp (brings ⟨packNum, packMask, first, second, mask⟩)
          obtain ⟨turn, i, checksum⟩ := takes_checksum bs line (q + 2 + j)
          refine ⟨turn, j + i + 2, ?_⟩
          have more := payload.more (reads_takeBytes n) i
          rw [Takes, answers_succ, answers_succ, first, second]
          simp only [readBody, if_pos mask]
          rw [more]
          exact checksum
        · refine ⟨.again, 2, ?_⟩
          rw [Takes, answers_succ, answers_succ, first, second]
          simp only [readBody, if_neg mask]
          rfl

private theorem takes_head_iff {head : UInt8} (first : line q = some head)
    (body : ∀ rest, readTurn (some head :: rest) = readBody n rest)
    (size : ∀ n', Begins line q n' → n' = n)
    (starts : line q = some ymodemSoh ∧ n = packetSize128 ∨
      line q = some ymodemStx ∧ n = packetSize1K) :
    (∃ turn k, Takes readTurn line q turn k) ↔ ∀ n, Begins line q n → Brings line (q + 3) n := by
  have same : (∃ turn k, Takes readTurn line q turn k) ↔
      ∃ turn k, Takes (readBody n) line (q + 1) turn k := by
    constructor
    · rintro ⟨turn, k, takes⟩
      rcases k with _ | k
      · cases takes
      · rw [Takes, answers_succ, first, body] at takes
        exact ⟨turn, k, takes⟩
    · rintro ⟨turn, k, takes⟩
      refine ⟨turn, k + 1, ?_⟩
      rw [Takes, answers_succ, first, body]
      exact takes
  rw [same, takes_body_iff]
  constructor
  · intro brings n' begins
    rw [size n' begins]
    exact brings begins.number
  · exact fun brings number => brings n ⟨starts, number⟩

theorem takes_turn_iff : (∃ turn k, Takes readTurn line q turn k) ↔
    ∀ n, Begins line q n → Brings line (q + 3) n := by
  rcases first : line q with _ | head
  · refine iff_of_true ⟨_, 1, by rw [Takes, answers_succ, first]; rfl⟩ fun n begins => ?_
    rcases begins.head with ⟨here, -⟩ | ⟨here, -⟩
    · rw [first] at here
      cases here
    · rw [first] at here
      cases here
  · have known {n : Nat} (begins : Begins line q n) :
        head = ymodemSoh ∧ n = packetSize128 ∨ head = ymodemStx ∧ n = packetSize1K := by
      have starts := begins.head
      rw [first] at starts
      simpa using starts
    by_cases soh : head = ymodemSoh
    · subst soh
      refine takes_head_iff first (fun rest => rfl) (fun n' begins => ?_) (.inl ⟨first, rfl⟩)
      rcases known begins with ⟨-, size⟩ | ⟨other, -⟩
      · exact size
      · exact absurd other (by decide)
    · by_cases stx : head = ymodemStx
      · subst stx
        refine takes_head_iff first (fun rest => rfl) (fun n' begins => ?_) (.inr ⟨first, rfl⟩)
        rcases known begins with ⟨other, -⟩ | ⟨-, size⟩
        · exact absurd other (by decide)
        · exact size
      · refine iff_of_true ?_ fun n begins => ?_
        · by_cases eot : head = ymodemEot
          · refine ⟨.done .eot, 1, ?_⟩
            rw [Takes, answers_succ, first]
            simp only [readTurn, if_neg soh, if_neg stx, if_pos eot]
            rfl
          · refine ⟨.silent, 1, ?_⟩
            rw [Takes, answers_succ, first]
            simp only [readTurn, if_neg soh, if_neg stx, if_neg eot]
            rfl
        · rcases known begins with ⟨here, -⟩ | ⟨here, -⟩
          · exact absurd here soh
          · exact absurd here stx

theorem takes_packet_iff (retries q : Nat) :
    (∃ outcome k, Takes (readPacket retries) line q outcome k) ↔ Fed line retries q := by
  induction retries generalizing q with
  | zero => exact iff_of_true ⟨.timeout, 0, rfl⟩ trivial
  | succ retries ih =>
    rw [Fed, ← takes_turn_iff]
    constructor
    · rintro ⟨outcome, m, takes⟩
      rw [Takes, readPacket_succ] at takes
      obtain ⟨⟨turn, rest⟩, read, later⟩ := Option.bind_eq_some_iff.mp takes
      obtain ⟨k, j, rfl, rfl, turns⟩ := reads_turn.takes read
      refine ⟨⟨turn, k, turns⟩, fun turn' k' turns' other => ?_⟩
      obtain ⟨rfl, rfl⟩ := turns.unique turns' reads_turn
      refine (ih (q + k)).mp ⟨outcome, j, ?_⟩
      rcases other with rfl | rfl
      · exact later
      · exact later
    · rintro ⟨⟨turn, k, turns⟩, rest⟩
      have front := fun j => turns.more reads_turn j
      have goesOn (other : turn = .again ∨ turn = .silent) :
          ∃ outcome k, Takes (readPacket (retries + 1)) line q outcome k := by
        obtain ⟨outcome, j, later⟩ := (ih (q + k)).mpr (rest turn k turns other)
        refine ⟨outcome, k + j, ?_⟩
        rw [Takes, readPacket_succ, front, Option.bind_some]
        rcases other with rfl | rfl
        · exact later
        · exact later
      rcases turn with outcome | _ | _
      · refine ⟨outcome, k, ?_⟩
        rw [Takes, readPacket_succ, turns]
        rfl
      · exact goesOn (.inl rfl)
      · exact goesOn (.inr rfl)

section Programs

variable {τ α : Type} {x : RecvM τ α} {P : YmodemFrame → Prop} {C : Prop} {s s' : Receiver τ}

/-- A program that has the line for its input returns, after finitely many calls. -/
def Returns (x : RecvM τ α) (line : Line) (s : Receiver τ) : Prop :=
  ∃ m, (x { s with input := answers line 0 m }).1 ≠ none

/-- From call `q` on and with such a frame, the program returns exactly if `C` holds. -/
structure Decides (x : RecvM τ α) (line : Line) (q : Nat) (P : YmodemFrame → Prop) (C : Prop) :
    Prop where
  needs : ∀ m s, s.input = answers line q m → P s.frame → (x s).1 ≠ none → C
  enough : C → ∃ m, ∀ j s, s.input = answers line q (m + j) → P s.frame → (x s).1 ≠ none

theorem Decides.returns_iff (decides : Decides x line 0 P C) (frame : P s.frame) :
    Returns x line s ↔ C := by
  constructor
  · rintro ⟨m, returns⟩
    exact decides.needs m { s with input := answers line 0 m } rfl frame returns
  · intro holds
    obtain ⟨m, returns⟩ := decides.enough holds
    exact ⟨m, returns 0 { s with input := answers line 0 m } rfl frame⟩

theorem Decides.congr {C' : Prop} (decides : Decides x line q P C) (same : C ↔ C') :
    Decides x line q P C' :=
  ⟨fun m s input frame returns => same.mp (decides.needs m s input frame returns),
    fun holds => decides.enough (same.mpr holds)⟩

theorem decides_total (total : ∀ s, (x s).1 ≠ none) : Decides x line q P True :=
  ⟨fun _ _ _ _ _ => trivial, fun _ => ⟨0, fun _ s _ _ => total s⟩⟩

/-- A first part that reads nothing. -/
theorem Decides.behind {y : RecvM τ α} {P' : YmodemFrame → Prop} (decides : Decides y line q P' C)
    (first : ∀ s, P s.frame → ∃ s', x s = y s' ∧ s'.input = s.input ∧ P' s'.frame) :
    Decides x line q P C := by
  constructor
  · intro m s input frame returns
    obtain ⟨s', same, input', frame'⟩ := first s frame
    rw [same] at returns
    exact decides.needs m s' (input'.trans input) frame' returns
  · intro holds
    obtain ⟨m, returns⟩ := decides.enough holds
    refine ⟨m, fun j s input frame => ?_⟩
    obtain ⟨s', same, input', frame'⟩ := first s frame
    rw [same]
    exact returns j s' (input'.trans input) frame'

/-- What a packet leaves of the frame. -/
structure Framed (frame frame' : YmodemFrame) (outcome : Outcome) : Prop where
  fileSize : frame'.fileSize = frame.fileSize
  packet : ∀ bs, outcome = .packet bs → frame'.packet = bs ∧ frame'.pkgSize = bs.length

/-- A packet first, and what comes then depends on how its reception ends. -/
theorem Decides.packet {retries : Nat} {f : Int → RecvM τ α} (P' : Outcome → YmodemFrame → Prop)
    (C' : Outcome → Nat → Prop)
    (framed : ∀ frame frame' outcome, P frame → Framed frame frame' outcome → P' outcome frame')
    (later : ∀ outcome k, Takes (readPacket retries) line q outcome k →
      Decides (f outcome.code) line (q + k) (P' outcome) (C' outcome k)) :
    Decides (ymodemReceivePacket retries >>= f) line q P
      (Fed line retries q ∧ ∀ outcome k, Takes (readPacket retries) line q outcome k →
        C' outcome k) := by
  constructor
  · intro m s input frame returns
    rcases run : ymodemReceivePacket retries s with ⟨_ | ret, s'⟩
    · rw [bind_of_none run] at returns
      exact absurd rfl returns
    · rw [bind_of_some run] at returns
      obtain ⟨outcome, naks, rest, read, rfl, received⟩ := ymodemReceivePacket_returns run
      rw [input] at read
      have reads : readPacket retries (answers line q m) = some (outcome, rest) := by
        rw [readPacket, read, Option.map_some]
      obtain ⟨k, j, -, left, takes⟩ := (reads_packet retries).takes reads
      refine ⟨(takes_packet_iff retries q).mp ⟨outcome, k, takes⟩, fun outcome' k' takes' => ?_⟩
      obtain ⟨rfl, rfl⟩ := takes.unique takes' (reads_packet retries)
      refine (later outcome k takes).needs j s' (received.input.trans left) ?_ returns
      exact framed _ _ _ frame ⟨received.fileSize, received.packet⟩
  · rintro ⟨fed, holds⟩
    obtain ⟨outcome, k, takes⟩ := (takes_packet_iff retries q).mpr fed
    obtain ⟨m, returns⟩ := (later outcome k takes).enough (holds outcome k takes)
    refine ⟨k + m, fun j s input frame => ?_⟩
    have reads := takes.more (reads_packet retries) (m + j)
    rw [← Nat.add_assoc, ← input, readPacket] at reads
    obtain ⟨⟨outcome', naks, rest⟩, read, same⟩ := Option.map_eq_some_iff.mp reads
    obtain ⟨rfl, rfl⟩ := Prod.mk.inj same
    obtain ⟨s', run, received⟩ := ymodemReceivePacket_run retries s read
    rw [bind_of_some run]
    refine returns j s' received.input ?_
    exact framed _ _ _ frame ⟨received.fileSize, received.packet⟩

/-- A table of callbacks that return whenever they are called. -/
structure Client (τ : Type) where
  table : YmodemCallback τ
  start : ∀ f ∈ table.ymodemStart, ∀ head c, (f head c).1 ≠ none
  recvData : ∀ f ∈ table.ymodemRecvData, ∀ data c, (f data c).1 ≠ none
  abort : ∀ f ∈ table.ymodemAbort, ∀ err c, (f err c).1 ≠ none
  finish : ∀ f ∈ table.ymodemFinish, ∀ c, (f c).1 ≠ none

theorem call_returns {handler : Option (Prog τ Unit)} (returns : ∀ f ∈ handler, ∀ c, (f c).1 ≠ none)
    (event : YmodemEvent) (s : Receiver τ) : ∃ s', call event handler s = (some (), s') ∧
      s'.input = s.input ∧ s'.frame = s.frame := by
  rcases handler with _ | f
  · exact ⟨s, rfl, rfl, rfl⟩
  · have done := returns f rfl s.client
    rcases run : f s.client with ⟨_ | ⟨⟨⟩⟩, c⟩
    · rw [run] at done
      exact absurd rfl done
    · refine ⟨{ s with trace := s.trace ++ [event], client := c }, ?_, rfl, rfl⟩
      simp only [call, bind_apply, emit, modify_apply, inClient, run]

theorem map_returns {β : Type} {handler : Option (β → Prog τ Unit)}
    (returns : ∀ f ∈ handler, ∀ b c, (f b c).1 ≠ none) (b : β) :
    ∀ f ∈ handler.map (· b), ∀ c, (f c).1 ≠ none := by
  rcases handler with _ | f
  · exact fun f member => absurd member (Option.not_mem_none f)
  · intro g member c
    obtain rfl := Option.some.inj member
    exact returns f rfl b c

variable (client : Client τ)

theorem abort_total (err ret : Int) (s : Receiver τ) :
    ((call (.abort err) (client.table.ymodemAbort.map (· err)) >>= fun _ =>
      (pure ret : RecvM τ Int)) s).1 ≠ none := by
  obtain ⟨s', run, -⟩ := call_returns (map_returns client.abort err) (.abort err) s
  rw [bind_of_some run]
  exact Option.some_ne_none _

theorem recvLast_total (s : Receiver τ) : (recvLast client.table s).1 ≠ none := by
  have last : recvLast client.table s =
      (if s.frame.packet.all (· == 0x00) then
        ymodemPutchar ymodemAck >>= fun _ => call .finish client.table.ymodemFinish >>= fun _ =>
          ymodemPutchar recvEndChar >>= fun _ => pure ymodemOk
      else call (.abort ymodemErrEot) (client.table.ymodemAbort.map (· ymodemErrEot)) >>= fun _ =>
        pure ymodemErrEot) s := rfl
  rw [last]
  split
  · obtain ⟨s', run, -⟩ := call_returns client.finish .finish
      { s with trace := s.trace ++ [.putchar ymodemAck] }
    have first : (ymodemPutchar ymodemAck : RecvM τ Unit) s =
        (some (), { s with trace := s.trace ++ [.putchar ymodemAck] }) := rfl
    rw [bind_of_some first, bind_of_some run]
    exact Option.some_ne_none _
  · exact abort_total client ymodemErrEot ymodemErrEot s

/-- The two ends of transmission and the last packet are fed, as far as the transfer comes. -/
def FedClosing (line : Line) (q : Nat) : Prop :=
  Fed line ymodemMaxRetry q ∧ ∀ first k, Takes (readPacket ymodemMaxRetry) line q first k →
    first = .eot → Fed line ymodemMaxRetry (q + k) ∧
      ∀ second k', Takes (readPacket ymodemMaxRetry) line (q + k) second k' →
        second = .eot → Fed line ymodemMaxRetry (q + k + k')

/-- The data packets are fed, up to the one with which the announced size is reached or which is
none. -/
def FedData (line : Line) : Nat → Int → Nat → Prop
  | 0, _, q => FedClosing line q
  | fuel + 1, size, q =>
    if 0 < size then
      Fed line ymodemMaxRetry q ∧ ∀ outcome k, Takes (readPacket ymodemMaxRetry) line q outcome k →
        ∀ bs, outcome = .packet bs → FedData line fuel (size - bs.length) (q + k)
    else FedClosing line q

/-- Behind the first packet: nothing more is read if it announces no size. -/
def FedFile (line : Line) (q : Nat) (bs : List UInt8) : Prop :=
  match announced bs with
  | .error _ => True
  | .ok size => FedData line size.toNat size q

/-- The receptions of the first packet are fed, up to the one that brings it, and then what comes
behind. -/
def FedFirst (line : Line) : Nat → Nat → Prop
  | 0, _ => True
  | n + 1, q => Fed line ymodemMaxRetry q ∧
      ∀ outcome k, Takes (readPacket ymodemMaxRetry) line q outcome k → match outcome with
        | .packet bs => FedFile line (q + k) bs
        | _ => FedFirst line n (q + k)

theorem closing_decides (q : Nat) :
    Decides (recvClosing client.table) line q (fun _ => True) (FedClosing line q) := by
  have done {q : Nat} {first : Outcome} {C : Prop} (other : first ≠ .eot) :
      Decides (pure ymodemOk : RecvM τ Int) line q (fun _ => True) (first = .eot → C) :=
    (decides_total fun s => Option.some_ne_none _).congr
      (iff_of_true trivial fun eot => absurd eot other)
  have code {outcome : Outcome} : outcome.code = packetEot ↔ outcome = .eot := by
    cases outcome <;> simp [Outcome.code, ymodemOk, packetEot, ymodemErrTimeout]
  have last (q : Nat) : Decides (ymodemReceivePacket ymodemMaxRetry >>= fun last =>
      if last = 0 then recvLast client.table else pure ymodemOk) line q (fun _ => True)
      (Fed line ymodemMaxRetry q) := by
    refine (Decides.packet (fun _ _ => True) (fun _ _ => True) (fun _ _ _ _ _ => trivial)
      fun outcome k takes => decides_total fun s => ?_).congr (and_iff_left fun _ _ _ => trivial)
    split
    · exact recvLast_total client s
    · exact Option.some_ne_none _
  have second (q : Nat) : Decides (ymodemReceivePacket ymodemMaxRetry >>= fun second =>
      if second = packetEot then
        ymodemPutchar ymodemAck >>= fun _ => ymodemPutchar ymodemC >>= fun _ =>
          ymodemReceivePacket ymodemMaxRetry >>= fun last =>
            if last = 0 then recvLast client.table else pure ymodemOk
      else pure ymodemOk) line q (fun _ => True) (Fed line ymodemMaxRetry q ∧
        ∀ second k, Takes (readPacket ymodemMaxRetry) line q second k → second = .eot →
          Fed line ymodemMaxRetry (q + k)) := by
    refine Decides.packet (fun _ _ => True) _ (fun _ _ _ _ _ => trivial) fun second k _ => ?_
    by_cases eot : second = .eot
    · rw [if_pos (code.mpr eot)]
      refine Decides.congr ?_ (forall_prop_of_true eot).symm
      exact (last _).behind fun s _ => ⟨_, rfl, rfl, trivial⟩
    · rw [if_neg fun same => eot (code.mp same)]
      exact done eot
  refine Decides.packet (fun _ _ => True) _ (fun _ _ _ _ _ => trivial) fun first k _ => ?_
  by_cases eot : first = .eot
  · rw [if_pos (code.mpr eot)]
    refine Decides.congr ?_ (forall_prop_of_true eot).symm
    exact (second _).behind fun s _ => ⟨_, rfl, rfl, trivial⟩
  · rw [if_neg fun same => eot (code.mp same)]
    exact done eot

/-- What the data loop does with a packet that it has received. -/
def passData (cb : YmodemCallback τ) (fuel : Nat) (offset : UInt32) : RecvM τ Int := do
  let s ← read
  let data : YmodemData :=
    { data := s.frame.packet, offset := offset, size := .ofNat s.frame.pkgSize }
  call (.recvData data) (cb.ymodemRecvData.map (· data))
  setFrame fun frame => { frame with fileSize := frame.fileSize - frame.pkgSize }
  ymodemPutchar ymodemAck
  recvData cb fuel (offset + .ofNat s.frame.pkgSize)

theorem recvData_succ (cb : YmodemCallback τ) (fuel : Nat) (offset : UInt32) :
    recvData cb (fuel + 1) offset = read >>= fun s =>
      if 0 < s.frame.fileSize then
        ymodemReceivePacket ymodemMaxRetry >>= fun ret =>
          if ret ≠ 0 then
            call (.abort ymodemErrData) (cb.ymodemAbort.map (· ymodemErrData)) >>= fun _ =>
              pure ymodemErrData
          else passData cb fuel offset
      else pure ymodemOk := rfl

/-- What comes behind the data loop. -/
def closeAfter (cb : YmodemCallback τ) (ret : Int) : RecvM τ Int :=
  if ret ≠ 0 then pure ret else recvClosing cb

theorem passData_run (fuel : Nat) (offset : UInt32) (s : Receiver τ) : ∃ s' : Receiver τ,
    (passData client.table fuel offset >>= closeAfter client.table) s =
      (recvData client.table fuel (offset + .ofNat s.frame.pkgSize) >>=
        closeAfter client.table) s' ∧
      s'.input = s.input ∧ s'.frame.fileSize = s.frame.fileSize - s.frame.pkgSize := by
  obtain ⟨s', run, input, frame⟩ := call_returns
    (map_returns client.recvData ⟨s.frame.packet, offset, .ofNat s.frame.pkgSize⟩)
    (.recvData ⟨s.frame.packet, offset, .ofNat s.frame.pkgSize⟩) s
  refine ⟨{ s' with
    frame := { s'.frame with fileSize := s'.frame.fileSize - s'.frame.pkgSize }
    trace := s'.trace ++ [.putchar ymodemAck] }, ?_, input, ?_⟩
  · rw [passData, Prog.bind_assoc, bind_of_some (read_apply s), Prog.bind_assoc, bind_of_some run]
    rfl
  · dsimp only
    rw [frame]

/-- What the data loop does with a reception, with the closing behind it. -/
def passOrAbort (cb : YmodemCallback τ) (fuel : Nat) (offset : UInt32) (ret : Int) : RecvM τ Int :=
  (if ret ≠ 0 then
    call (.abort ymodemErrData) (cb.ymodemAbort.map (· ymodemErrData)) >>= fun _ =>
      pure ymodemErrData
  else passData cb fuel offset) >>= closeAfter cb

theorem pass_decides {fuel : Nat} {size : Int} {offset : UInt32}
    (onward : ∀ size offset q, Decides
      (recvData client.table fuel offset >>= closeAfter client.table) line q
      (fun frame => frame.fileSize = size) (FedData line fuel size q))
    (outcome : Outcome) (q : Nat) :
    Decides (passOrAbort client.table fuel offset outcome.code) line q
      (fun frame => frame.fileSize = size ∧
        ∀ bs, outcome = .packet bs → frame.pkgSize = bs.length)
      (∀ bs, outcome = .packet bs → FedData line fuel (size - bs.length) q) := by
  have aborted (other : ∀ bs, outcome ≠ .packet bs) (bad : outcome.code ≠ 0) :
      Decides (passOrAbort client.table fuel offset outcome.code) line q
        (fun frame => frame.fileSize = size ∧
          ∀ bs, outcome = .packet bs → frame.pkgSize = bs.length)
        (∀ bs, outcome = .packet bs → FedData line fuel (size - bs.length) q) := by
    rw [passOrAbort, if_pos bad, Prog.bind_assoc]
    refine (decides_total fun s => ?_).congr
      (iff_of_true trivial fun bs same => absurd same (other bs))
    exact abort_total client ymodemErrData ymodemErrData s
  rcases outcome with bs | _ | _
  · rw [passOrAbort, if_neg (by simp [Outcome.code, ymodemOk])]
    have passed := (onward (size - bs.length) (offset + .ofNat bs.length) q).behind
      (x := passData client.table fuel offset >>= closeAfter client.table)
      (P := fun frame => frame.fileSize = size ∧
        ∀ bs', Outcome.packet bs = .packet bs' → frame.pkgSize = bs'.length) ?_
    · refine passed.congr ⟨fun fed bs' same => ?_, fun fed => fed bs rfl⟩
      cases same
      exact fed
    · rintro s ⟨known, length⟩
      obtain ⟨s', run, input, frame⟩ := passData_run client fuel offset s
      rw [length bs rfl] at run frame
      exact ⟨s', run, input, frame.trans (by rw [known])⟩
  · exact aborted (fun bs same => by cases same) (by decide)
  · exact aborted (fun bs same => by cases same) (by decide)

theorem data_decides (fuel : Nat) (size : Int) (offset : UInt32) (q : Nat) :
    Decides (recvData client.table fuel offset >>= closeAfter client.table) line q
      (fun frame => frame.fileSize = size) (FedData line fuel size q) := by
  induction fuel generalizing size offset q with
  | zero => exact (closing_decides client q).behind fun s _ => ⟨s, rfl, rfl, trivial⟩
  | succ fuel ih =>
    rw [FedData, recvData_succ, Prog.bind_assoc]
    by_cases more : 0 < size
    · rw [if_pos more]
      have looped : Decides (ymodemReceivePacket ymodemMaxRetry >>=
          passOrAbort client.table fuel offset) line q
          (fun frame => frame.fileSize = size) (Fed line ymodemMaxRetry q ∧
            ∀ outcome k, Takes (readPacket ymodemMaxRetry) line q outcome k →
              ∀ bs, outcome = .packet bs → FedData line fuel (size - bs.length) (q + k)) := by
        refine Decides.packet (fun outcome frame => frame.fileSize = size ∧
            ∀ bs, outcome = .packet bs → frame.pkgSize = bs.length) _ ?_ fun outcome k _ =>
              pass_decides client ih outcome (q + k)
        rintro frame frame' outcome known ⟨same, packet⟩
        exact ⟨same.trans known, fun bs taken => (packet bs taken).2⟩
      refine looped.behind fun s known => ⟨s, ?_, rfl, known⟩
      have there : 0 < s.frame.fileSize := by rw [known]; exact more
      rw [bind_of_some (read_apply s), if_pos there, Prog.bind_assoc]
      rfl
    · rw [if_neg more]
      refine (closing_decides client q).behind fun s known => ⟨s, ?_, rfl, trivial⟩
      have none : ¬ 0 < s.frame.fileSize := by rw [known]; exact more
      rw [bind_of_some (read_apply s), if_neg none]
      rfl

theorem file_decides (nameLen : Nat) (size : Int) (q : Nat) :
    Decides (recvFile client.table nameLen size) line q (fun _ => True)
      (FedData line size.toNat size q) := by
  refine (data_decides client size.toNat size 0 q).behind fun s _ => ?_
  let t : Receiver τ := { s with frame := { s.frame with fileSize := size } }
  let head : YmodemHead := ⟨s.frame.buf, .ofNat nameLen, .ofInt size⟩
  obtain ⟨s', run, input, frame⟩ :=
    call_returns (map_returns client.start head) (.start head) t
  refine ⟨{ s' with trace := s'.trace ++ [.putchar ymodemAck] ++ [.putchar ymodemC] }, ?_,
    input, ?_⟩
  · have whole : recvFile client.table nameLen size s =
        (call (.start head) (client.table.ymodemStart.map (· head)) >>= fun _ =>
          ymodemPutchar ymodemAck >>= fun _ => ymodemPutchar ymodemC >>= fun _ =>
            recvData client.table size.toNat 0 >>= closeAfter client.table) t := rfl
    rw [whole, bind_of_some run]
    rfl
  · exact (congrArg YmodemFrame.fileSize frame).trans rfl

/-- What `ymodem_receive` does once it has asked for the first packet. -/
def afterFirst (cb : YmodemCallback τ) (begun : Bool) : RecvM τ Int :=
  if begun = false then
    call (.abort ymodemErrTimeout) (cb.ymodemAbort.map (· ymodemErrTimeout)) >>= fun _ =>
      pure ymodemErrTimeout
  else read >>= fun s => match announced s.frame.packet with
    | .error _ =>
      call (.abort ymodemErrHeader) (cb.ymodemAbort.map (· ymodemErrHeader)) >>= fun _ =>
        pure ymodemErrHeader
    | .ok fileSize => recvFile cb (fnameLen s.frame.packet) fileSize

private theorem begun_decides (bs : List UInt8) (q : Nat) :
    Decides (afterFirst client.table true) line q (fun frame => frame.packet = bs)
      (FedFile line q bs) := by
  unfold FedFile
  rcases known : announced bs with err | size
  · refine (decides_total (P := fun _ => True) fun s =>
      abort_total client ymodemErrHeader ymodemErrHeader s).behind fun s stored =>
        ⟨s, ?_, rfl, trivial⟩
    rw [afterFirst, if_neg Bool.noConfusion, bind_of_some (read_apply s), stored, known]
  · refine (file_decides client (fnameLen bs) size q).behind fun s stored => ⟨s, ?_, rfl, trivial⟩
    rw [afterFirst, if_neg Bool.noConfusion, bind_of_some (read_apply s), stored, known]

theorem first_decides (n q : Nat) :
    Decides (recvFirst n >>= afterFirst client.table) line q (fun _ => True)
      (FedFirst line n q) := by
  induction n generalizing q with
  | zero =>
    exact decides_total fun s => abort_total client ymodemErrTimeout ymodemErrTimeout s
  | succ n ih =>
    have asked : Decides (ymodemReceivePacket ymodemMaxRetry >>= fun ret =>
        (if ret = 0 then pure true else recvFirst n) >>= afterFirst client.table) line q
        (fun _ => True) (FedFirst line (n + 1) q) := by
      refine Decides.packet (fun outcome frame => ∀ bs, outcome = .packet bs → frame.packet = bs) _
        (fun frame frame' outcome _ framed bs same => (framed.packet bs same).1)
        fun outcome k _ => ?_
      rcases outcome with bs | _ | _
      · refine (begun_decides client bs (q + k)).behind fun s known => ⟨s, ?_, rfl, known bs rfl⟩
        rw [if_pos (show (Outcome.packet bs).code = 0 from rfl)]
        rfl
      · refine (ih (q + k)).behind fun s _ => ⟨s, ?_, rfl, trivial⟩
        rw [if_neg (show ¬ Outcome.eot.code = 0 by decide)]
      · refine (ih (q + k)).behind fun s _ => ⟨s, ?_, rfl, trivial⟩
        rw [if_neg (show ¬ Outcome.timeout.code = 0 by decide)]
    refine asked.behind fun s _ => ⟨{ s with trace := s.trace ++ [.putchar ymodemC] }, ?_, rfl,
      trivial⟩
    have first : recvFirst (n + 1) = (ymodemPutchar ymodemC >>= fun _ =>
      ymodemReceivePacket ymodemMaxRetry >>= fun ret =>
        if ret = 0 then pure true else recvFirst n : RecvM τ Bool) := rfl
    rw [first, Prog.bind_assoc]
    have sent : (ymodemPutchar ymodemC : RecvM τ Unit) s =
      (some (), { s with trace := s.trace ++ [.putchar ymodemC] }) := rfl
    rw [bind_of_some sent, Prog.bind_assoc]

theorem packet_returns_iff (retries : Nat) (line : Line) (s : Receiver τ) :
    Returns (ymodemReceivePacket retries) line s ↔ Fed line retries 0 := by
  have alone : Decides (ymodemReceivePacket retries >>= fun ret => pure ret : RecvM τ Int) line 0
      (fun _ => True) (Fed line retries 0) :=
    (Decides.packet (fun _ _ => True) (fun _ _ => True) (fun _ _ _ _ _ => trivial)
      fun _ _ _ => decides_total fun s => Option.some_ne_none _).congr
        (and_iff_left fun _ _ _ => trivial)
  rw [← alone.returns_iff (s := s) trivial]
  refine exists_congr fun m => not_congr ?_
  rw [bind_apply]
  rcases ymodemReceivePacket retries { s with input := answers line 0 m } with ⟨_ | ret, s'⟩
  · rfl
  · exact iff_of_false (Option.some_ne_none _) (Option.some_ne_none _)

theorem receive_returns_iff (line : Line) (s : Receiver τ) :
    Returns (ymodemReceive true (some client.table)) line s ↔ FedFirst line ymodemMaxRetry 0 :=
  (first_decides client ymodemMaxRetry 0).returns_iff (s := s) trivial

/-- `ymodem_receive_packet` and `ymodem_receive` return exactly on the lines that, behind every
header of a packet they come to, bring the bytes of its payload. -/
theorem returns_iff_fed (retries : Nat) (line : Line) (s : Receiver τ) :
    (Returns (ymodemReceivePacket retries) line s ↔ Fed line retries 0) ∧
      (Returns (ymodemReceive true (some client.table)) line s ↔ FedFirst line ymodemMaxRetry 0) :=
  ⟨packet_returns_iff retries line s, receive_returns_iff client line s⟩

end Programs

section Lively

variable (lively : ∀ q n, Brings line q n)
include lively

theorem fed_of_lively (retries q : Nat) : Fed line retries q := by
  induction retries generalizing q with
  | zero => trivial
  | succ retries ih => exact ⟨fun n _ => lively (q + 3) n, fun _ k _ _ => ih (q + k)⟩

theorem fedClosing_of_lively (q : Nat) : FedClosing line q :=
  ⟨fed_of_lively lively _ q, fun _ k _ _ => ⟨fed_of_lively lively _ (q + k),
    fun _ k' _ _ => fed_of_lively lively _ (q + k + k')⟩⟩

theorem fedData_of_lively (fuel : Nat) (size : Int) (q : Nat) : FedData line fuel size q := by
  induction fuel generalizing size q with
  | zero => exact fedClosing_of_lively lively q
  | succ fuel ih =>
    rw [FedData]
    split
    · exact ⟨fed_of_lively lively _ q, fun _ k _ bs _ => ih (size - bs.length) (q + k)⟩
    · exact fedClosing_of_lively lively q

theorem fedFirst_of_lively (n q : Nat) : FedFirst line n q := by
  induction n generalizing q with
  | zero => trivial
  | succ n ih =>
    refine ⟨fed_of_lively lively _ q, fun outcome k _ => ?_⟩
    rcases outcome with bs | _ | _
    · dsimp only [FedFile]
      rcases announced bs with err | size
      · trivial
      · exact fedData_of_lively lively _ size (q + k)
    · exact ih (q + k)
    · exact ih (q + k)

/-- While the line goes on bringing bytes, whatever they are, every transfer comes to an end. -/
theorem lively_returns {τ : Type} (client : Client τ) (s : Receiver τ) :
    Returns (ymodemReceive true (some client.table)) line s :=
  (receive_returns_iff client line s).mpr (fedFirst_of_lively lively _ 0)

end Lively

/-- The first three bytes of a packet, and nothing behind them. -/
def cutOff : Line := fun i => [some ymodemSoh, some 0x00, some 0xFF].getD i none

theorem cutOff_silent (m : Nat) (q : Nat) (behind : 3 ≤ q) :
    (answers cutOff q m).reduceOption = [] := by
  induction m generalizing q with
  | zero => rfl
  | succ m ih =>
    have here : cutOff q = none := List.getD_eq_default _ _ behind
    rw [answers_succ, here, List.reduceOption_cons_of_none]
    exact ih (q + 1) (by omega)

theorem cutOff_not_fed (retries : Nat) : ¬ Fed cutOff (retries + 1) 0 := by
  rintro ⟨fed, -⟩
  obtain ⟨m, enough⟩ := fed packetSize128 ⟨.inl ⟨rfl, rfl⟩, 0x00, 0xFF, rfl, rfl, rfl⟩
  rw [cutOff_silent m 3 (Nat.le_refl 3)] at enough
  exact absurd enough (by decide)

/-- A client that has set no function. -/
def deaf : Client Unit where
  table := ⟨none, none, none, none⟩
  start _ member := absurd member (Option.not_mem_none _)
  recvData _ member := absurd member (Option.not_mem_none _)
  abort _ member := absurd member (Option.not_mem_none _)
  finish _ member := absurd member (Option.not_mem_none _)

/-- The receiver before its first call. -/
def waiting : Receiver Unit := { input := [], frame := ⟨0, [], 0⟩, trace := [], client := () }

/-- Waiting for the payload of a packet has no end. -/
theorem silence_holds_reception :
    ¬ Returns (ymodemReceivePacket ymodemMaxRetry) cutOff waiting ∧
      ¬ Returns (ymodemReceive true (some deaf.table)) cutOff waiting := by
  constructor
  · rw [packet_returns_iff]
    exact cutOff_not_fed 99
  · rw [receive_returns_iff]
    rintro ⟨fed, -⟩
    exact cutOff_not_fed 99 fed

end T113Boot.Ymodem.Termination
