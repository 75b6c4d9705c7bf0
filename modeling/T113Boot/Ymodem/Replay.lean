/- Module: T113Boot/Ymodem/Replay
   layer: specification
   digest: A transfer depends on its input alone, and its client sees the events replayed. -/

import T113Boot.Ymodem.CallbackProtocol

set_option autoImplicit false
set_option relaxedAutoImplicit false

namespace T113Boot.Ymodem.Replay

open T113Boot.Lib.Stoppable
open Prog
open T113Boot.Ymodem.Receive
open T113Boot.Ymodem.Wire
open T113Boot.Ymodem.Transfer
open T113Boot.Ymodem.LossFree

variable {τ α β : Type}

/-- The client's part of one event. -/
def handle (h : Handlers τ) : YmodemEvent → Prog τ Unit
  | .putchar _ => pure ()
  | .start head => h.start head
  | .recvData data => h.recvData data
  | .abort err => h.abort err
  | .finish => h.finish

/-- The client's part of some events. -/
def replay (h : Handlers τ) : List YmodemEvent → Prog τ Unit
  | [] => pure ()
  | event :: events => handle h event >>= fun _ => replay h events

theorem replay_append (h : Handlers τ) (events events' : List YmodemEvent) :
    replay h (events ++ events') = replay h events >>= fun _ => replay h events' := by
  induction events with
  | nil => rfl
  | cons event events ih => rw [List.cons_append, replay, ih, replay, Prog.bind_assoc]

/-- The receiver without its client. -/
def alone (s : Receiver τ) : Receiver Unit := { s with client := () }

/-- With a client `x` runs as `y` does without, shows the same events and replays them to the
client; where the client stops, `x` stops with it. -/
def Follows (h : Handlers τ) (x : RecvM τ α) (y : RecvM Unit α) : Prop := ∀ s, ∃ events,
  (y (alone s)).2.trace = s.trace ++ events ∧
  ((replay h events s.client).1 = some () → x s =
    ((y (alone s)).1, { (y (alone s)).2 with client := (replay h events s.client).2 })) ∧
  ((replay h events s.client).1 = none →
    (x s).1 = none ∧ (x s).2.client = (replay h events s.client).2)

/-- A step that shows nothing and leaves the client alone. -/
theorem Follows.silent {h : Handlers τ} {x : RecvM τ α} {y : RecvM Unit α}
    (trace : ∀ s : Receiver τ, (y (alone s)).2.trace = s.trace)
    (same : ∀ s, x s = ((y (alone s)).1, { (y (alone s)).2 with client := s.client })) :
    Follows h x y :=
  fun s => ⟨[], by rw [trace, List.append_nil], fun _ => same s, fun stopped => nomatch stopped⟩

theorem follows_pure (h : Handlers τ) (a : α) : Follows h (pure a) (pure a) :=
  .silent (fun _ => rfl) fun _ => rfl

theorem Follows.bind {h : Handlers τ} {x : RecvM τ α} {y : RecvM Unit α} {f : α → RecvM τ β}
    {g : α → RecvM Unit β} (first : Follows h x y) (rest : ∀ a, Follows h (f a) (g a)) :
    Follows h (x >>= f) (y >>= g) := by
  intro s
  obtain ⟨events, trace, returns, stops⟩ := first s
  rcases ran : replay h events s.client with ⟨_ | ⟨⟩, c⟩ <;> rw [ran] at returns stops
  · obtain ⟨none, client⟩ := stops rfl
    have stopped : (x >>= f) s = (Option.none, (x s).2) := bind_of_none (Prod.ext none rfl)
    rcases run : y (alone s) with ⟨_ | a, t⟩ <;> rw [run] at trace
    · refine ⟨events, by rw [bind_of_none run, trace], fun ok => ?_, fun _ => ?_⟩
      · simp [ran] at ok
      · rw [stopped, ran]
        exact ⟨rfl, client⟩
    · obtain ⟨more, later, -, -⟩ := rest a { t with client := s.client }
      have stays : replay h (events ++ more) s.client = (Option.none, c) := by
        rw [replay_append, bind_of_none ran]
      refine ⟨events ++ more, ?_, fun ok => ?_, fun _ => ?_⟩
      · rw [bind_of_some run, ← List.append_assoc, ← trace]
        exact later
      · simp [stays] at ok
      · rw [stopped, stays]
        exact ⟨rfl, client⟩
  · have same := returns rfl
    rcases run : y (alone s) with ⟨_ | a, t⟩ <;> rw [run] at trace same
    · refine ⟨events, by rw [bind_of_none run, trace], fun _ => ?_, fun none => ?_⟩
      · rw [bind_of_none same, bind_of_none run, ran]
      · simp [ran] at none
    · obtain ⟨more, later, returns', stops'⟩ := rest a { t with client := c }
      have joined : replay h (events ++ more) s.client = replay h more c := by
        rw [replay_append, bind_of_some ran]
      change (g a t).2.trace = t.trace ++ more at later
      refine ⟨events ++ more, ?_, fun ok => ?_, fun none => ?_⟩
      · rw [bind_of_some run, ← List.append_assoc, ← trace]
        exact later
      · rw [joined] at ok
        rw [bind_of_some same, bind_of_some run, joined]
        exact returns' ok
      · rw [joined] at none
        rw [bind_of_some same, joined]
        exact stops' none

theorem follows_read {h : Handlers τ} {f : Receiver τ → RecvM τ α} {g : Receiver Unit → RecvM Unit α}
    (rest : ∀ s t, s.frame = t.frame → Follows h (f s) (g t)) :
    Follows h (read >>= f) (read >>= g) :=
  fun s => rest s (alone s) rfl s

theorem follows_ite {h : Handlers τ} {c : Prop} [Decidable c] {x x' : RecvM τ α}
    {y y' : RecvM Unit α} (yes : Follows h x y) (no : Follows h x' y') :
    Follows h (if c then x else x') (if c then y else y') := by
  split <;> assumption

theorem follows_getchar (h : Handlers τ) : Follows h ymodemGetchar ymodemGetchar := by
  apply Follows.silent
  · rintro ⟨_ | ⟨c, rest⟩, frame, trace, client⟩ <;> rfl
  · rintro ⟨_ | ⟨c, rest⟩, frame, trace, client⟩ <;> rfl

theorem follows_putchar (h : Handlers τ) (ch : UInt8) :
    Follows h (ymodemPutchar ch) (ymodemPutchar ch) :=
  fun _ => ⟨[.putchar ch], rfl, fun _ => rfl, fun stopped => nomatch stopped⟩

theorem follows_setFrame (h : Handlers τ) (change : YmodemFrame → YmodemFrame) :
    Follows h (setFrame change) (setFrame change) :=
  .silent (fun _ => rfl) fun _ => rfl

theorem follows_payload (h : Handlers τ) (n : Nat) : Follows h (recvPayload n) (recvPayload n) := by
  apply Follows.silent
  · intro s
    simp only [recvPayload, alone]
    split <;> rfl
  · intro s
    simp only [recvPayload, alone]
    split <;> rfl

theorem follows_call (h : Handlers τ) (event : YmodemEvent) :
    Follows h (call event (some (handle h event))) (call event (some (pure ()))) := by
  intro s
  have single : replay h [event] s.client = handle h event s.client := by
    rcases run : handle h event s.client with ⟨_ | ⟨⟩, c⟩
    · rw [replay, bind_of_none run]
    · rw [replay, bind_of_some run]
      rfl
  refine ⟨[event], rfl, fun ok => ?_, fun stopped => ?_⟩
  · rw [single] at ok ⊢
    rw [call_some _ (Prod.ext ok rfl)]
    rfl
  · rw [single] at stopped ⊢
    exact ⟨stopped, rfl⟩

theorem follows_askAgain (h : Handlers τ) : Follows h askAgain askAgain :=
  (follows_putchar h _).bind fun _ => follows_pure h none

theorem follows_checksum (h : Handlers τ) : Follows h recvChecksum recvChecksum := by
  refine (follows_getchar h).bind fun crcH => ?_
  rcases crcH with _ | crcH
  · exact follows_askAgain h
  · refine (follows_getchar h).bind fun crcL => ?_
    rcases crcL with _ | crcL
    · exact follows_askAgain h
    · refine follows_read fun s t same => ?_
      rw [same]
      exact follows_ite (follows_askAgain h) (follows_pure h _)

theorem follows_body (h : Handlers τ) (n : Nat) : Follows h (recvBody n) (recvBody n) := by
  refine (follows_setFrame h _).bind fun _ => (follows_getchar h).bind fun packNum => ?_
  rcases packNum with _ | packNum
  · exact follows_askAgain h
  · refine (follows_getchar h).bind fun packMask => ?_
    rcases packMask with _ | packMask
    · exact follows_askAgain h
    · exact follows_ite (follows_askAgain h)
        ((follows_payload h n).bind fun _ => follows_checksum h)

theorem follows_turn (h : Handlers τ) : Follows h recvTurn recvTurn := by
  refine (follows_getchar h).bind fun head => ?_
  rcases head with _ | head
  · exact follows_pure h none
  · exact follows_ite (follows_body h _) (follows_ite (follows_body h _)
      (follows_ite (follows_pure h _) (follows_pure h _)))

theorem follows_packet (h : Handlers τ) (n : Nat) :
    Follows h (ymodemReceivePacket n) (ymodemReceivePacket n) := by
  induction n with
  | zero => exact follows_pure h _
  | succ n ih =>
    refine (follows_turn h).bind fun ret => ?_
    rcases ret with _ | ret
    · exact ih
    · exact follows_pure h ret

theorem follows_first (h : Handlers τ) (n : Nat) : Follows h (recvFirst n) (recvFirst n) := by
  induction n with
  | zero => exact follows_pure h _
  | succ n ih =>
    exact (follows_putchar h _).bind fun _ => (follows_packet h _).bind fun _ =>
      follows_ite (follows_pure h true) ih

theorem follows_data (h : Handlers τ) (fuel : Nat) (offset : UInt32) :
    Follows h (recvData h.table fuel offset) (recvData idle.table fuel offset) := by
  induction fuel generalizing offset with
  | zero => exact follows_pure h _
  | succ fuel ih =>
    refine follows_read fun s t same => ?_
    rw [same]
    refine follows_ite ((follows_packet h _).bind fun ret => ?_) (follows_pure h _)
    refine follows_ite ((follows_call h (.abort _)).bind fun _ => follows_pure h _) ?_
    refine follows_read fun s' t' same' => ?_
    simp only [same']
    exact (follows_call h (.recvData _)).bind fun _ => (follows_setFrame h _).bind fun _ =>
      (follows_putchar h _).bind fun _ => ih _

theorem follows_last (h : Handlers τ) : Follows h (recvLast h.table) (recvLast idle.table) := by
  refine follows_read fun s t same => ?_
  rw [same]
  exact follows_ite ((follows_putchar h _).bind fun _ => (follows_call h .finish).bind fun _ =>
      (follows_putchar h _).bind fun _ => follows_pure h _)
    ((follows_call h (.abort _)).bind fun _ => follows_pure h _)

theorem follows_closing (h : Handlers τ) :
    Follows h (recvClosing h.table) (recvClosing idle.table) := by
  refine (follows_packet h _).bind fun _ => follows_ite ?_ (follows_pure h _)
  refine (follows_putchar h _).bind fun _ => (follows_packet h _).bind fun _ =>
    follows_ite ?_ (follows_pure h _)
  exact (follows_putchar h _).bind fun _ => (follows_putchar h _).bind fun _ =>
    (follows_packet h _).bind fun _ => follows_ite (follows_last h) (follows_pure h _)

theorem follows_file (h : Handlers τ) (nameLen : Nat) (fileSize : Int) :
    Follows h (recvFile h.table nameLen fileSize) (recvFile idle.table nameLen fileSize) := by
  refine (follows_setFrame h _).bind fun _ => follows_read fun s t same => ?_
  simp only [same]
  exact (follows_call h (.start _)).bind fun _ => (follows_putchar h _).bind fun _ =>
    (follows_putchar h _).bind fun _ => (follows_data h _ _).bind fun _ =>
      follows_ite (follows_pure h _) (follows_closing h)

theorem ymodemReceive_follows (h : Handlers τ) (port : Bool) :
    Follows h (ymodemReceive port (some h.table)) (ymodemReceive port (some idle.table)) := by
  refine follows_ite (follows_pure h _) ((follows_first h _).bind fun begun => ?_)
  refine follows_ite ((follows_call h (.abort _)).bind fun _ => follows_pure h _) ?_
  refine follows_read fun s t same => ?_
  simp only [same]
  rcases announced t.frame.packet with err | fileSize
  · exact (follows_call h (.abort _)).bind fun _ => follows_pure h _
  · exact follows_file h _ _

theorem reception_size {n naks : Nat} {input rest : Input} {bs : List UInt8}
    (h : reception n input = some (.packet bs, naks, rest)) :
    bs.length = packetSize128 ∨ bs.length = packetSize1K := by
  have body (size : Nat) (input rest : Input)
      (read : readBody size input = some (.done (.packet bs), rest)) : bs.length = size := by
    unfold readBody at read
    split at read
    · simp at read
    · simp at read
    · split at read
      · split at read
        · simp at read
        · rename_i taken
          unfold readChecksum at read
          split at read <;> simp only [reduceCtorEq, Option.some.injEq, Prod.mk.injEq,
            false_and] at read
          obtain ⟨accepted, -⟩ := read
          split at accepted
          · cases accepted
            exact takeBytes_length taken
          · cases accepted
      · simp at read
    · simp at read
  induction n generalizing input naks with
  | zero => simp [reception] at h
  | succ n ih =>
    rcases turn : readTurn input with _ | ⟨⟨done⟩ | _ | _, left⟩ <;>
      simp only [reception, turn, reduceCtorEq] at h
    · simp only [Option.some.injEq, Prod.mk.injEq] at h
      obtain ⟨rfl, -, rfl⟩ := h
      unfold readTurn at turn
      split at turn
      · simp at turn
      · simp at turn
      · split at turn
        · exact .inl (body _ _ _ turn)
        · split at turn
          · exact .inr (body _ _ _ turn)
          · split at turn <;> simp at turn
    · obtain ⟨⟨outcome, naks', rest'⟩, later, same⟩ := Option.map_eq_some_iff.mp h
      simp only [Prod.mk.injEq] at same
      obtain ⟨rfl, -, rfl⟩ := same
      exact ih later
    · exact ih h

/-! What a transfer adds to the trace, whatever is asked of each event. -/

section Emits

variable {P : YmodemEvent → Prop}

/-- The events added all have a property. -/
def Emits (P : YmodemEvent → Prop) (s s' : Receiver τ) : Prop :=
  ∃ events, s'.trace = s.trace ++ events ∧ ∀ event ∈ events, P event

theorem Emits.refl (s : Receiver τ) : Emits P s s :=
  ⟨[], (List.append_nil _).symm, fun _ h => by simp at h⟩

theorem Emits.trans (s t u : Receiver τ) (first : Emits P s t) (later : Emits P t u) :
    Emits P s u := by
  obtain ⟨events, trace, all⟩ := first
  obtain ⟨more, trace', all'⟩ := later
  refine ⟨events ++ more, by rw [trace', trace, List.append_assoc], fun event member => ?_⟩
  rcases List.mem_append.mp member with member | member
  · exact all event member
  · exact all' event member

theorem Emits.of_trace {s s' : Receiver τ} (same : s'.trace = s.trace) : Emits P s s' :=
  ⟨[], by rw [same, List.append_nil], fun _ h => by simp at h⟩

theorem emits_bind {x : RecvM τ α} {f : α → RecvM τ β} (hx : Keeps (Emits P) x)
    (hf : ∀ a, Keeps (Emits P) (f a)) : Keeps (Emits P) (x >>= f) := keeps_bind Emits.trans hx hf

theorem emits_pure (a : α) : Keeps (Emits P) (pure a : RecvM τ α) := keeps_pure Emits.refl a

theorem emits_read : Keeps (Emits P) (read : RecvM τ (Receiver τ)) := keeps_read Emits.refl

theorem emits_setFrame (change : YmodemFrame → YmodemFrame) :
    Keeps (Emits P) (setFrame change : RecvM τ Unit) := fun _ => .of_trace rfl

private theorem emits_getchar : Keeps (Emits P) (ymodemGetchar : RecvM τ (Option UInt8)) := by
  rintro ⟨_ | ⟨c, rest⟩, frame, trace, client⟩ <;> exact .of_trace rfl

private theorem emits_emit {event : YmodemEvent} (h : P event) :
    Keeps (Emits P) (emit event : RecvM τ Unit) :=
  fun _ => ⟨[event], rfl, fun _ member => by rwa [List.mem_singleton.mp member]⟩

theorem emits_call {event : YmodemEvent} (f : Option (Prog τ Unit)) (h : P event) :
    Keeps (Emits P) (call event f) := by
  rcases f with _ | f
  · exact emits_pure ()
  · exact emits_bind (emits_emit h) fun _ s => .of_trace rfl

variable (sent : ∀ ch, P (.putchar ch))
include sent

theorem emits_putchar (ch : UInt8) : Keeps (Emits P) (ymodemPutchar ch : RecvM τ Unit) :=
  emits_emit (sent ch)

private theorem emits_askAgain : Keeps (Emits P) (askAgain : RecvM τ (Option Int)) :=
  emits_bind (emits_putchar sent _) fun _ => emits_pure none

private theorem emits_checksum : Keeps (Emits P) (recvChecksum : RecvM τ (Option Int)) := by
  refine emits_bind emits_getchar fun crcH => ?_
  rcases crcH with _ | crcH
  · exact emits_askAgain sent
  · refine emits_bind emits_getchar fun crcL => ?_
    rcases crcL with _ | crcL
    · exact emits_askAgain sent
    · exact emits_bind emits_read fun s => keeps_ite (emits_askAgain sent) (emits_pure _)

private theorem emits_body (n : Nat) : Keeps (Emits P) (recvBody n : RecvM τ (Option Int)) := by
  refine emits_bind (emits_setFrame _) fun _ => emits_bind emits_getchar fun packNum => ?_
  rcases packNum with _ | packNum
  · exact emits_askAgain sent
  · refine emits_bind emits_getchar fun packMask => ?_
    rcases packMask with _ | packMask
    · exact emits_askAgain sent
    · refine keeps_ite (emits_askAgain sent)
        (emits_bind (fun s => .of_trace ?_) fun _ => emits_checksum sent)
      simp only [recvPayload]
      split <;> rfl

theorem emits_packet (n : Nat) : Keeps (Emits P) (ymodemReceivePacket n : RecvM τ Int) := by
  induction n with
  | zero => exact emits_pure _
  | succ n ih =>
    refine emits_bind (emits_bind emits_getchar fun head => ?_) fun ret => ?_
    · rcases head with _ | head
      · exact emits_pure none
      · exact keeps_ite (emits_body sent _) (keeps_ite (emits_body sent _)
          (keeps_ite (emits_pure _) (emits_pure _)))
    · rcases ret with _ | ret
      · exact ih
      · exact emits_pure ret

theorem emits_first (n : Nat) : Keeps (Emits P) (recvFirst n : RecvM τ Bool) := by
  induction n with
  | zero => exact emits_pure false
  | succ n ih =>
    exact emits_bind (emits_putchar sent _) fun _ => emits_bind (emits_packet sent _) fun _ =>
      keeps_ite (emits_pure true) ih

theorem emits_data (cb : YmodemCallback τ) (delivered : ∀ d, P (.recvData d))
    (aborted : ∀ err, P (.abort err)) (fuel : Nat) (offset : UInt32) :
    Keeps (Emits P) (recvData cb fuel offset) := by
  induction fuel generalizing offset with
  | zero => exact emits_pure _
  | succ fuel ih =>
    refine emits_bind emits_read fun s => keeps_ite ?_ (emits_pure _)
    refine emits_bind (emits_packet sent _) fun ret => keeps_ite ?_ ?_
    · exact emits_bind (emits_call _ (aborted _)) fun _ => emits_pure _
    · exact emits_bind emits_read fun s => emits_bind (emits_call _ (delivered _)) fun _ =>
        emits_bind (emits_setFrame _) fun _ => emits_bind (emits_putchar sent _) fun _ => ih _

theorem emits_closing (cb : YmodemCallback τ) (aborted : ∀ err, P (.abort err))
    (finished : P .finish) : Keeps (Emits P) (recvClosing cb) := by
  have last : Keeps (Emits P) (recvLast cb) := emits_bind emits_read fun s => keeps_ite
    (emits_bind (emits_putchar sent _) fun _ => emits_bind (emits_call _ finished) fun _ =>
      emits_bind (emits_putchar sent _) fun _ => emits_pure _)
    (emits_bind (emits_call _ (aborted _)) fun _ => emits_pure _)
  refine emits_bind (emits_packet sent _) fun _ => keeps_ite ?_ (emits_pure _)
  refine emits_bind (emits_putchar sent _) fun _ => emits_bind (emits_packet sent _) fun _ =>
    keeps_ite ?_ (emits_pure _)
  exact emits_bind (emits_putchar sent _) fun _ => emits_bind (emits_putchar sent _) fun _ =>
    emits_bind (emits_packet sent _) fun _ => keeps_ite last (emits_pure _)

end Emits

/-- A delivery is one packet, and it starts below the largest size that can be announced. -/
structure Placed (d : YmodemData) : Prop where
  size : d.data.length = d.size.toNat
  packet : d.data.length = packetSize128 ∨ d.data.length = packetSize1K
  low : d.offset.toNat < 2147483648

/-- Every delivery among the events added is a placed one. -/
def Adds (s s' : Receiver τ) : Prop := ∃ events, s'.trace = s.trace ++ events ∧
  ∀ d, .recvData d ∈ events → Placed d

theorem Adds.refl (s : Receiver τ) : Adds s s := ⟨[], (List.append_nil _).symm, fun _ h => by simp at h⟩

theorem Adds.trans (s t u : Receiver τ) (first : Adds s t) (later : Adds t u) : Adds s u := by
  obtain ⟨events, trace, placed⟩ := first
  obtain ⟨more, trace', placed'⟩ := later
  refine ⟨events ++ more, by rw [trace', trace, List.append_assoc], fun d member => ?_⟩
  rcases List.mem_append.mp member with member | member
  · exact placed d member
  · exact placed' d member

/-- An event that is a placed packet, if it is a delivery. -/
def Delivers (event : YmodemEvent) : Prop := ∀ d, event = .recvData d → Placed d

private theorem adds_of_emits {x : RecvM τ α} (hx : Keeps (Emits Delivers) x) : Keeps Adds x := by
  intro s
  obtain ⟨events, trace, placed⟩ := hx s
  exact ⟨events, trace, fun d member => placed _ member d rfl⟩

private theorem delivers_putchar (ch : UInt8) : Delivers (.putchar ch) :=
  fun d same => by cases same

private theorem delivers_abort (err : Int) : Delivers (.abort err) := fun d same => by cases same

private theorem adds_bind_at {x : RecvM τ α} {f : α → RecvM τ β} {s : Receiver τ}
    (hx : Adds s (x s).2) (hf : ∀ a, Keeps Adds (f a)) : Adds s ((x >>= f) s).2 := by
  rw [bind_apply]
  rcases run : x s with ⟨_ | a, s'⟩ <;> rw [run] at hx
  · exact hx
  · exact hx.trans _ _ _ (hf a s')

private theorem adds_packet (n : Nat) : Keeps Adds (ymodemReceivePacket n : RecvM τ Int) :=
  adds_of_emits (emits_packet delivers_putchar n)

private theorem adds_aborted (err ret : Int) (f : Option (Prog τ Unit)) :
    Keeps Adds (call (.abort err) f >>= fun _ => pure ret) :=
  adds_of_emits (emits_bind (emits_call f (delivers_abort err)) fun _ => emits_pure ret)

private theorem adds_after_call {event : YmodemEvent} (f : Option (Prog τ Unit)) {x : RecvM τ α}
    {s : Receiver τ} (placed : ∀ d, event = .recvData d → Placed d)
    (rest : ∀ s', s'.frame = s.frame → Adds s' (x s').2) :
    Adds s ((call event f >>= fun _ => x) s).2 := by
  have called := adds_of_emits (emits_call f placed) s
  have frame : (call event f s).2.frame = s.frame := by
    rcases f with _ | f <;> rfl
  rw [bind_apply]
  rcases handed : call event f s with ⟨_ | ⟨⟩, s'⟩ <;> rw [handed] at called frame
  · exact called
  · exact called.trans _ _ _ (rest s' frame)

theorem recvData_adds (cb : YmodemCallback τ) (fuel : Nat) (offset : UInt32) (s : Receiver τ)
    (due : 0 < s.frame.fileSize → offset.toNat + s.frame.fileSize < 2147483648) :
    Adds s (recvData cb fuel offset s).2 := by
  induction fuel generalizing offset s with
  | zero => exact .refl s
  | succ fuel ih =>
    rw [recvData, bind_apply, read_apply]
    dsimp only
    by_cases more : 0 < s.frame.fileSize
    · rw [if_pos more, bind_apply]
      have first := adds_packet ymodemMaxRetry s
      rcases got : ymodemReceivePacket ymodemMaxRetry s with ⟨_ | ret, s₁⟩ <;> rw [got] at first
      · exact first
      · refine first.trans _ _ _ ?_
        dsimp only
        by_cases failed : ret = 0
        · obtain ⟨outcome, naks, rest, reading, rfl, received⟩ := ymodemReceivePacket_returns got
          obtain ⟨bs, rfl⟩ := CallbackProtocol.code_eq_ok.mp failed
          obtain ⟨packet, size⟩ := received.packet bs rfl
          have sizes := reception_size reading
          have left := received.fileSize
          have bound := due more
          have length : (UInt32.ofNat bs.length).toNat = bs.length := by
            rw [UInt32.toNat_ofNat']
            simp only [packetSize128, packetSize1K] at sizes
            omega
          have placed : Placed ⟨s₁.frame.packet, offset, .ofNat s₁.frame.pkgSize⟩ := by
            refine ⟨?_, ?_, ?_⟩
            · rw [packet, size, length]
            · rw [packet]
              exact sizes
            · simp only
              omega
          rw [if_neg fun bad => bad failed, bind_apply, read_apply]
          dsimp only
          generalize (⟨s₁.frame.packet, offset, .ofNat s₁.frame.pkgSize⟩ : YmodemData) = d at placed ⊢
          refine adds_after_call _ (fun d' same => by cases same; exact placed) fun s₂ frame => ?_
          have step : (offset + .ofNat s₁.frame.pkgSize).toNat = offset.toNat + bs.length := by
            rw [size, UInt32.toNat_add, length]
            simp only [packetSize128, packetSize1K] at sizes
            omega
          have rest := ih (offset + .ofNat s₁.frame.pkgSize) { s₂ with
            frame := { s₂.frame with fileSize := s₂.frame.fileSize - s₂.frame.pkgSize }
            trace := s₂.trace ++ [.putchar ymodemAck] } (by
              dsimp only
              rw [frame, step, size, left]
              omega)
          exact Adds.trans _ _ _ ⟨[.putchar ymodemAck], rfl, fun _ h => by simp at h⟩ rest
        · rw [if_pos failed]
          exact adds_aborted _ _ _ s₁
    · rw [if_neg more]
      exact .refl s

/-- Every packet is longer than zero, so more fuel than bytes due changes nothing. -/
theorem recvData_fuel (cb : YmodemCallback τ) (fuel : Nat) (offset : UInt32) (s : Receiver τ)
    (enough : s.frame.fileSize ≤ fuel) :
    recvData cb (fuel + 1) offset s = recvData cb fuel offset s := by
  induction fuel generalizing offset s with
  | zero =>
    simp only [recvData, bind_apply, read_apply]
    rw [if_neg (by omega)]
  | succ fuel ih =>
    rw [recvData, recvData, bind_apply, bind_apply, read_apply]
    dsimp only
    by_cases more : 0 < s.frame.fileSize
    · rw [if_pos more, if_pos more, bind_apply, bind_apply]
      rcases got : ymodemReceivePacket ymodemMaxRetry s with ⟨_ | ret, s₁⟩
      · rfl
      · dsimp only
        by_cases failed : ret = 0
        · obtain ⟨outcome, naks, rest, reading, rfl, received⟩ := ymodemReceivePacket_returns got
          obtain ⟨bs, rfl⟩ := CallbackProtocol.code_eq_ok.mp failed
          obtain ⟨-, size⟩ := received.packet bs rfl
          have sizes := reception_size reading
          have left := received.fileSize
          rw [if_neg fun bad => bad failed, if_neg fun bad => bad failed, bind_apply, bind_apply,
            read_apply]
          dsimp only
          generalize (⟨s₁.frame.packet, offset, .ofNat s₁.frame.pkgSize⟩ : YmodemData) = d
          have frame : (call (.recvData d) (cb.ymodemRecvData.map (· d)) s₁).2.frame = s₁.frame := by
            rcases cb.ymodemRecvData with _ | f <;> rfl
          rw [bind_apply, bind_apply]
          rcases handed : call (.recvData d) (cb.ymodemRecvData.map (· d)) s₁ with ⟨_ | ⟨⟩, s₂⟩
          · rw [handed]
          · rw [handed] at frame ⊢
            have same := ih (offset + .ofNat s₁.frame.pkgSize) { s₂ with
              frame := { s₂.frame with fileSize := s₂.frame.fileSize - s₂.frame.pkgSize }
              trace := s₂.trace ++ [.putchar ymodemAck] } (by
                dsimp only at frame ⊢
                simp only [packetSize128, packetSize1K] at sizes
                rw [frame, size, left]
                omega)
            exact same
        · rw [if_pos failed, if_pos failed]
    · rw [if_neg more, if_neg more]

private theorem int32_lt (n : Int) : int32 n < 2147483648 := by
  have bound := Int.bmod_lt (x := n) (m := 4294967296) (by decide)
  exact bound

theorem announced_lt {packet : List UInt8} {size : Int} (h : announced packet = .ok size) :
    size < 2147483648 := by
  unfold announced ymodemStrtol at h
  dsimp only at h
  split_ifs at h <;> cases h <;> exact int32_lt _

private theorem adds_closing (cb : YmodemCallback τ) : Keeps Adds (recvClosing cb) :=
  adds_of_emits (emits_closing delivers_putchar cb delivers_abort fun d same => by cases same)

theorem ymodemReceive_adds (port : Bool) (cb : YmodemCallback τ) :
    Keeps Adds (ymodemReceive port (some cb)) := by
  have first := adds_of_emits (emits_first delivers_putchar ymodemMaxRetry) (τ := τ)
  refine keeps_ite (adds_of_emits (emits_pure _)) (keeps_bind Adds.trans first fun begun => ?_)
  refine keeps_ite (adds_aborted _ _ _) (keeps_bind Adds.trans (adds_of_emits emits_read) fun s => ?_)
  rcases size : announced s.frame.packet with err | fileSize
  · exact adds_aborted _ _ _
  · have bound := announced_lt size
    intro t
    refine adds_after_call (s := { t with frame := { t.frame with fileSize := fileSize } }) _
      (fun d same => by cases same) fun s₁ frame => ?_
    have data := recvData_adds cb fileSize.toNat 0 { s₁ with
      trace := s₁.trace ++ [.putchar ymodemAck] ++ [.putchar ymodemC] } (by
        dsimp only
        rw [frame, UInt32.toNat_zero]
        dsimp only
        omega)
    have ending := adds_bind_at data (f := fun ret => if ret ≠ 0 then pure ret else recvClosing cb)
      fun ret => keeps_ite (adds_of_emits (emits_pure ret)) (adds_closing cb)
    refine Adds.trans _ _ _ ⟨[.putchar ymodemAck, .putchar ymodemC], ?_, fun _ h => by simp at h⟩ ending
    rw [List.append_assoc]
    rfl

end T113Boot.Ymodem.Replay
