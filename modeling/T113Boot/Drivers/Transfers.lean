/- Module: T113Boot/Drivers/Transfers
   layer: results
   digest: Which I2C messages that succeed have moved their bytes, however earlier ones ended. -/

import T113Boot.Drivers.Twi
import T113Boot.Lib.Moves
import T113Boot.Lib.Runs

set_option autoImplicit false
set_option relaxedAutoImplicit false

namespace T113Boot.Drivers.Transfers

open T113Boot.Lib.Cells T113Boot.Lib.Moves
open T113Boot.Lib.Runs
open T113Boot.Drivers.Twi

/-- The bytes of the buffer that were put on the bus. -/
def puts (bus : List Signal) : List UInt8 :=
  bus.filterMap fun sig => match sig with
    | .put byte => some byte
    | _ => none

/-- The bytes that were received. -/
def gots (bus : List Signal) : List UInt8 :=
  bus.filterMap fun sig => match sig with
    | .got byte => some byte
    | _ => none

/-- The access is to the buffer of a message. -/
def Within (a : Access) : Prop := ∃ msg ∈ a.msgs, a.index.toNat < msg.len.toNat

/-- What was put is what the buffer held, or what was received is what it holds. -/
def Exact (t : Transfer) : Prop :=
  if t.msg.isRead = true then gots t.bus = t.left else puts t.bus = t.held

/-- The interrupt puts a byte of the message on the bus. -/
def Puts (s : TwiDev) (msg : RtI2cMsg) (stat : UInt32) : Prop :=
  (stat = 0x18 ∨ stat = 0xd0 ∨ stat = 0x28) ∧ s.msgPtr < msg.len.toUInt32

/-- The interrupt stores a byte into the buffer of the message. -/
def Gets (s : TwiDev) (msg : RtI2cMsg) (stat : UInt32) : Prop :=
  stat = 0x50 ∧ s.msgPtr < msg.len.toUInt32 ∨ stat = 0x58 ∧ s.msgPtr = msg.len.toUInt32 - 1

/-- A message with bytes starts from index 0, with the flag down, and one that is written with what
its buffer held when it was made the device's. While it is waited for, the interrupt moves bytes its
way until the flag is up, and the other way from then on. And none moves a byte while the device
points to no message. -/
def Fits (s : TwiDev) : Event → Prop
  | .thread => ∀ msg rest num, s.pc = .start msg rest num → msg.len = 0 ∨
      s.msgPtr = 0 ∧ s.lock = false ∧ (msg.isRead = false → msg.holds s.mem = s.held)
  | .irq stat _ stale =>
      (Puts s (s.message stale) stat ∨ Gets s (s.message stale) stat → s.msgs ≠ none) ∧
      ∀ msg cnt rest num, s.pc = .poll msg cnt rest num →
        (Puts s msg stat → s.lock = msg.isRead) ∧ (Gets s msg stat → s.lock = !msg.isRead)
  | _ => True

/-- The bytes of a message that is waited for, up to the index until the flag is up. -/
structure Tracks (s : TwiDev) (msg : RtI2cMsg) : Prop where
  length : s.held.length = msg.len.toNat
  sending : msg.isRead = false → s.lock = false →
    puts s.bus = s.held.take s.msgPtr.toNat ∧ msg.holds s.mem = s.held
  sent : msg.isRead = false → s.lock = true → puts s.bus = s.held
  receiving : msg.isRead = true → s.lock = false →
    gots s.bus = (msg.holds s.mem).take s.msgPtr.toNat
  received : msg.isRead = true → s.lock = true → gots s.bus = msg.holds s.mem

variable {s s' : TwiDev} {msg stale : RtI2cMsg} {ptr : UInt32}

theorem inside_iff : ptr < msg.len.toUInt32 ↔ ptr.toNat < msg.len.toNat := Iff.rfl

theorem toNat_next (inside : ptr < msg.len.toUInt32) : (ptr + 1).toNat = ptr.toNat + 1 := by
  have below := UInt16.toNat_lt msg.len
  have inside := inside_iff.mp inside
  rw [UInt32.toNat_add]
  exact Nat.mod_eq_of_lt (by change ptr.toNat + 1 < 2 ^ 32; omega)

theorem last_iff (bound : ptr.toNat ≤ 0xFFFF) :
    ptr = msg.len.toUInt32 - 1 ↔ ptr.toNat + 1 = msg.len.toNat := by
  have below := UInt16.toNat_lt msg.len
  have small := UInt32.toNat_lt ptr
  have value : (msg.len.toUInt32 - 1).toNat = (2 ^ 32 - 1 + msg.len.toNat) % 2 ^ 32 :=
    UInt32.toNat_sub _ _
  rw [← UInt32.toNat_inj, value]
  omega

theorem length_holds (mem : Mem) : (msg.holds mem).length = msg.len.toNat := length_slice _ _ _

theorem take_all {held : List UInt8} (length : held.length = msg.len.toNat)
    (past : ¬ ptr < msg.len.toUInt32) : held.take ptr.toNat = held := by
  refine List.take_of_length_le ?_
  rw [length]
  exact Nat.le_of_not_lt past

theorem take_next (mem : Mem) (inside : ptr < msg.len.toUInt32) :
    (msg.holds mem).take (ptr.toNat + 1) =
      (msg.holds mem).take ptr.toNat ++ [mem (msg.cell ptr)] := by
  have upTo : ptr.toNat + 1 ≤ msg.len.toNat := inside
  unfold RtI2cMsg.holds
  rw [take_slice _ _ _ _ upTo, take_slice _ _ _ _ (Nat.le_of_succ_le upTo), slice_add]
  rfl

theorem drop_next (mem : Mem) (inside : ptr < msg.len.toUInt32) :
    (msg.holds mem).drop ptr.toNat =
      mem (msg.cell ptr) :: (msg.holds mem).drop (ptr.toNat + 1) := by
  have there : ptr.toNat < (msg.holds mem).length := (length_holds mem).symm ▸ inside
  rw [List.drop_eq_getElem_cons there]
  exact congrArg (· :: _) (getElem_slice _ _ _ _ there)

theorem take_store (mem : Mem) (data : UInt8) (inside : ptr < msg.len.toUInt32) :
    (msg.holds (store mem (msg.cell ptr) [data])).take (ptr.toNat + 1) =
      (msg.holds mem).take ptr.toNat ++ [data] := by
  have upTo : ptr.toNat + 1 ≤ msg.len.toNat := inside
  unfold RtI2cMsg.holds RtI2cMsg.cell
  rw [take_slice _ _ _ _ upTo, take_slice _ _ _ _ (Nat.le_of_succ_le upTo),
    slice_store_end mem (n := ptr.toNat + 1) [data] (Nat.le_add_right _ _)
      (Nat.add_assoc _ _ _).symm, Nat.add_sub_cancel_left]

theorem puts_append (bus bus' : List Signal) : puts (bus ++ bus') = puts bus ++ puts bus' :=
  List.filterMap_append

theorem gots_append (bus bus' : List Signal) : gots (bus ++ bus') = gots bus ++ gots bus' :=
  List.filterMap_append

/-- What it leaves alone. -/
structure Frame (s s' : TwiDev) : Prop where
  pc : s'.pc = s.pc
  msgs : s'.msgs = s.msgs
  held : s'.held = s.held
  succeeded : s'.succeeded = s.succeeded

theorem Frame.refl (s : TwiDev) : Frame s s := ⟨rfl, rfl, rfl, rfl⟩

theorem Frame.trans {s'' : TwiDev} (first : Frame s s') (later : Frame s' s'') : Frame s s'' :=
  ⟨later.pc.trans first.pc, later.msgs.trans first.msgs, later.held.trans first.held,
    later.succeeded.trans first.succeeded⟩

theorem frame_take (s : TwiDev) (msg : RtI2cMsg) (data : UInt8) :
    Frame s (s.take msg data).next := ⟨rfl, rfl, rfl, rfl⟩

/-- Nothing that concerns the bytes of a message. -/
structure Calm (s s' : TwiDev) : Prop where
  index : s'.msgPtr = s.msgPtr
  lock : s'.lock = s.lock
  mem : s'.mem = s.mem
  accesses : s'.accesses = s.accesses
  puts : puts s'.bus = puts s.bus
  gots : gots s'.bus = gots s.bus

theorem Calm.refl (s : TwiDev) : Calm s s := ⟨rfl, rfl, rfl, rfl, rfl, rfl⟩

theorem calm_signal {sig : Signal} (nothing : puts [sig] = [] ∧ gots [sig] = []) (s : TwiDev) :
    Calm s (s.signal sig) := by
  refine ⟨rfl, rfl, rfl, rfl, ?_, ?_⟩
  · exact (puts_append _ _).trans (by rw [nothing.1, List.append_nil])
  · exact (gots_append _ _).trans (by rw [nothing.2, List.append_nil])

theorem calm_error (s : TwiDev) (code : UInt32) : Frame s (s.error code) ∧ Calm s (s.error code) :=
  have stopped : Calm s (s.signal .stop) := calm_signal ⟨rfl, rfl⟩ s
  ⟨⟨rfl, rfl, rfl, rfl⟩, rfl, rfl, rfl, rfl, stopped.puts, stopped.gots⟩

theorem calm_putAddress (s : TwiDev) (msg : RtI2cMsg) :
    Frame s (s.putAddress msg) ∧ Calm s (s.putAddress msg) :=
  ⟨⟨rfl, rfl, rfl, rfl⟩, calm_signal ⟨rfl, rfl⟩ s⟩

theorem calm_enableAck (s : TwiDev) (msg : RtI2cMsg) :
    Frame s (s.enableAck msg) ∧ Calm s (s.enableAck msg) := by
  unfold TwiDev.enableAck
  split
  · exact ⟨⟨rfl, rfl, rfl, rfl⟩, calm_signal ⟨rfl, rfl⟩ s⟩
  · exact ⟨Frame.refl s, Calm.refl s⟩

theorem calm_lastButOne (s : TwiDev) (msg : RtI2cMsg) :
    Frame s (s.lastButOne msg) ∧ Calm s (s.lastButOne msg) := by
  unfold TwiDev.lastButOne
  split
  · exact ⟨⟨rfl, rfl, rfl, rfl⟩, calm_signal ⟨rfl, rfl⟩ s⟩
  · exact ⟨Frame.refl s, Calm.refl s⟩

theorem next_took (s : TwiDev) (msg : RtI2cMsg) (data : UInt8) :
    (s.take msg data).next.msgPtr = s.msgPtr + 1 ∧ (s.take msg data).next.lock = s.lock ∧
      gots (s.take msg data).next.bus = gots s.bus ++ [data] :=
  ⟨rfl, rfl, gots_append _ _⟩

/-- The interrupt puts a byte, takes one, takes the last one, or does nothing to the bytes. -/
inductive Handled (s : TwiDev) (stat : UInt32) (data : UInt8) (msg : RtI2cMsg) (s' : TwiDev) :
    Prop where
  | calm (frame : Frame s s') (calm : Calm s s')
  | put (isPut : stat = 0x18 ∨ stat = 0xd0 ∨ stat = 0x28) (same : s' = s.putNext msg)
  | get (isGet : stat = 0x50) (same : s' = s.getNext msg data)
  | last (isLast : stat = 0x58) (same : s' = s.getLast msg data)

theorem handled (s : TwiDev) (stat : UInt32) (data : UInt8) (stale : RtI2cMsg) :
    Handled s stat data (s.message stale) (s.twiIrqHandler stat data stale) := by
  have error (code : UInt32) : Handled s stat data (s.message stale) (s.error code) :=
    .calm (calm_error s code).1 (calm_error s code).2
  unfold TwiDev.twiIrqHandler
  refine iteInduction (fun _ => error _) fun _ => ?_
  refine iteInduction (fun _ => .calm (calm_putAddress s _).1 (calm_putAddress s _).2) fun _ => ?_
  refine iteInduction (fun _ => error _) fun _ => ?_
  refine iteInduction (fun isPut => .put isPut rfl) fun _ => ?_
  refine iteInduction (fun _ => error _) fun _ => ?_
  refine iteInduction (fun _ => error _) fun _ => ?_
  refine iteInduction (fun _ => .calm (calm_enableAck s _).1 (calm_enableAck s _).2) fun _ => ?_
  refine iteInduction (fun _ => error _) fun _ => ?_
  refine iteInduction (fun isGet => .get isGet rfl) fun _ => ?_
  refine iteInduction (fun isLast => .last isLast rfl) fun _ => ?_
  exact iteInduction (fun _ => error _) fun _ => error _

theorem putNext_cases (s : TwiDev) (msg : RtI2cMsg) :
    (s.msgPtr < msg.len.toUInt32 ∧
      s.putNext msg = (s.access.signal (.put (s.mem (msg.cell s.msgPtr)))).next) ∨
    ¬ s.msgPtr < msg.len.toUInt32 ∧ s.putNext msg = s.finish := by
  rw [TwiDev.putNext]
  by_cases inside : s.msgPtr < msg.len.toUInt32
  · exact .inl ⟨inside, if_pos inside⟩
  · exact .inr ⟨inside, if_neg inside⟩

theorem getNext_cases (s : TwiDev) (msg : RtI2cMsg) (data : UInt8) :
    (s.msgPtr < msg.len.toUInt32 ∧ s.getNext msg data = ((s.lastButOne msg).take msg data).next) ∨
    ¬ s.msgPtr < msg.len.toUInt32 ∧ s.getNext msg data = s := by
  rw [TwiDev.getNext]
  by_cases inside : s.msgPtr < msg.len.toUInt32
  · exact .inl ⟨inside, if_pos inside⟩
  · exact .inr ⟨inside, if_neg inside⟩

theorem getLast_cases (s : TwiDev) (msg : RtI2cMsg) (data : UInt8) :
    (s.msgPtr = msg.len.toUInt32 - 1 ∧ s.getLast msg data = (s.take msg data).finish) ∨
    ¬ s.msgPtr = msg.len.toUInt32 - 1 ∧ s.getLast msg data = s := by
  rw [TwiDev.getLast]
  by_cases last : s.msgPtr = msg.len.toUInt32 - 1
  · exact .inl ⟨last, if_pos last⟩
  · exact .inr ⟨last, if_neg last⟩

theorem message_of (msgs : s.msgs = some msg) (stale : RtI2cMsg) : s.message stale = msg := by
  rw [TwiDev.message, msgs]
  rfl

theorem Tracks.calm (tracks : Tracks s msg) (frame : Frame s s') (calm : Calm s s') :
    Tracks s' msg := by
  constructor
  · rw [frame.held]
    exact tracks.length
  · rw [calm.lock, calm.puts, frame.held, calm.index, calm.mem]
    exact tracks.sending
  · rw [calm.lock, calm.puts, frame.held]
    exact tracks.sent
  · rw [calm.lock, calm.gots, calm.index, calm.mem]
    exact tracks.receiving
  · rw [calm.lock, calm.gots, calm.mem]
    exact tracks.received

/-- With no byte left, the message can be finished. -/
theorem Tracks.finish (tracks : Tracks s msg) (past : ¬ s.msgPtr < msg.len.toUInt32) :
    Tracks s.finish msg := by
  have quiet : Calm s (s.signal .stop) := calm_signal ⟨rfl, rfl⟩ s
  refine ⟨tracks.length, fun _ => Bool.noConfusion, ?_, fun _ => Bool.noConfusion, ?_⟩
  · intro written _
    apply quiet.puts.trans
    rcases up : s.lock with _ | _
    · rw [(tracks.sending written up).1, take_all tracks.length past]
      rfl
    · exact tracks.sent written up
  · intro read _
    apply quiet.gots.trans
    rcases up : s.lock with _ | _
    · rw [tracks.receiving read up, take_all (length_holds _) past]
      rfl
    · exact tracks.received read up

theorem Tracks.putNext (tracks : Tracks s msg)
    (fits : s.msgPtr < msg.len.toUInt32 → s.lock = msg.isRead) : Tracks (s.putNext msg) msg := by
  rcases putNext_cases s msg with ⟨inside, put⟩ | ⟨past, finished⟩
  · rw [put]
    have way := fits inside
    refine ⟨tracks.length, ?_, ?_, ?_, ?_⟩
    · intro written down
      obtain ⟨sent, same⟩ := tracks.sending written down
      have more : puts s.bus ++ [s.mem (msg.cell s.msgPtr)] =
          s.held.take (s.msgPtr + 1).toNat := by
        rw [sent, toNat_next inside, ← same]
        exact (take_next s.mem inside).symm
      exact ⟨(puts_append _ _).trans more, same⟩
    · intro written up
      exact absurd (up.symm.trans (way.trans written)) Bool.noConfusion
    · intro read down
      exact absurd (down.symm.trans (way.trans read)) Bool.noConfusion
    · intro read up
      apply ((gots_append _ _).trans (List.append_nil _)).trans
      exact tracks.received read up
  · rw [finished]
    exact tracks.finish past

/-- A byte of a message that is read; one that is written has been sent. -/
theorem Tracks.take (tracks : Tracks s msg) (inside : s.msgPtr < msg.len.toUInt32)
    (way : s.lock = !msg.isRead) (data : UInt8) :
    Tracks (s.take msg data).next msg := by
  refine ⟨tracks.length, ?_, ?_, ?_, ?_⟩
  · intro written down
    rw [written] at way
    exact absurd (down.symm.trans way) Bool.noConfusion
  · intro written up
    apply ((puts_append _ _).trans (List.append_nil _)).trans
    exact tracks.sent written up
  · intro read down
    have more : gots s.bus ++ [data] =
        (msg.holds (store s.mem (msg.cell s.msgPtr) [data])).take (s.msgPtr + 1).toNat := by
      rw [tracks.receiving read down, toNat_next inside]
      exact (take_store s.mem data inside).symm
    exact (gots_append _ _).trans more
  · intro read up
    rw [read] at way
    exact absurd (up.symm.trans way) Bool.noConfusion

theorem Tracks.getNext (tracks : Tracks s msg) (data : UInt8)
    (fits : s.msgPtr < msg.len.toUInt32 → s.lock = !msg.isRead) :
    Tracks (s.getNext msg data) msg := by
  rcases getNext_cases s msg data with ⟨inside, got⟩ | ⟨-, nothing⟩
  · obtain ⟨frame, calm⟩ := calm_lastButOne s msg
    have way := fits inside
    rw [got]
    refine (tracks.calm frame calm).take ?_ ?_ data
    · rw [calm.index]
      exact inside
    · rw [calm.lock]
      exact way
  · rw [nothing]
    exact tracks

theorem Tracks.getLast (tracks : Tracks s msg) (bound : s.msgPtr.toNat ≤ 0xFFFF) (data : UInt8)
    (fits : s.msgPtr = msg.len.toUInt32 - 1 → s.lock = !msg.isRead) :
    Tracks (s.getLast msg data) msg := by
  rcases getLast_cases s msg data with ⟨last, got⟩ | ⟨-, nothing⟩
  · have end_ := (last_iff bound).mp last
    have inside : s.msgPtr < msg.len.toUInt32 := by
      rw [inside_iff]
      omega
    have past : ¬ s.msgPtr + 1 < msg.len.toUInt32 := by
      rw [inside_iff, toNat_next inside]
      omega
    rw [got]
    exact (tracks.take inside (fits last) data).finish past
  · rw [nothing]
    exact tracks

/-- The index is one of a message's, or just behind, and every access was to a buffer. -/
structure Inside (s : TwiDev) : Prop where
  bound : s.msgPtr.toNat ≤ 0xFFFF
  accesses : ∀ a ∈ s.accesses, Within a

private theorem inside_access (h : Inside s) (msgs : s.msgs = some msg)
    (inside : s.msgPtr < msg.len.toUInt32) {a : Access} (made : a ∈ s.access.accesses) :
    Within a := by
  rcases List.mem_append.mp made with old | new
  · exact h.accesses a old
  · obtain rfl := List.mem_singleton.mp new
    exact ⟨msg, msgs, inside_iff.mp inside⟩

private theorem bound_next (inside : s.msgPtr < msg.len.toUInt32) :
    (s.msgPtr + 1).toNat ≤ 0xFFFF := by
  have below := UInt16.toNat_lt msg.len
  have inside' := inside_iff.mp inside
  rw [toNat_next inside]
  omega

private theorem inside_next (h : Inside s) (msgs : s.msgs = some msg)
    (inside : s.msgPtr < msg.len.toUInt32) (data : UInt8) : Inside (s.take msg data).next :=
  ⟨bound_next inside, fun _ made => inside_access h msgs inside made⟩

theorem Inside.irq (h : Inside s) {stat : UInt32} (data : UInt8)
    (there : Puts s (s.message stale) stat ∨ Gets s (s.message stale) stat → s.msgs ≠ none) :
    Inside (s.twiIrqHandler stat data stale) := by
  have pointed (moves : Puts s (s.message stale) stat ∨ Gets s (s.message stale) stat) :
      s.msgs = some (s.message stale) := by
    obtain ⟨msg, msgs⟩ := Option.ne_none_iff_exists'.mp (there moves)
    rw [message_of msgs, msgs]
  rcases handled s stat data stale with ⟨-, calm⟩ | ⟨isPut, put⟩ | ⟨isGet, got⟩ | ⟨isLast, got⟩
  · refine ⟨?_, ?_⟩
    · rw [calm.index]
      exact h.bound
    · rw [calm.accesses]
      exact h.accesses
  · rw [put]
    rcases putNext_cases s (s.message stale) with ⟨inside, put⟩ | ⟨-, finished⟩
    · have msgs := pointed (.inl ⟨isPut, inside⟩)
      rw [put]
      exact ⟨bound_next inside, fun a made => inside_access h msgs inside made⟩
    · rw [finished]
      exact ⟨Nat.zero_le _, h.accesses⟩
  · rw [got]
    rcases getNext_cases s (s.message stale) data with ⟨inside, got⟩ | ⟨-, nothing⟩
    · have msgs := pointed (.inr (.inl ⟨isGet, inside⟩))
      obtain ⟨frame, calm⟩ := calm_lastButOne s (s.message stale)
      have kept : Inside (s.lastButOne (s.message stale)) := by
        refine ⟨?_, ?_⟩
        · rw [calm.index]
          exact h.bound
        · rw [calm.accesses]
          exact h.accesses
      rw [← calm.index] at inside
      rw [got]
      exact inside_next kept (frame.msgs.trans msgs) inside data
    · rw [nothing]
      exact h
  · rw [got]
    rcases getLast_cases s (s.message stale) data with ⟨last, got⟩ | ⟨-, nothing⟩
    · have msgs := pointed (.inr (.inr ⟨isLast, last⟩))
      have end_ := (last_iff h.bound).mp last
      have inside : s.msgPtr < (s.message stale).len.toUInt32 := by
        rw [inside_iff]
        omega
      rw [got]
      exact ⟨Nat.zero_le _, (inside_next h msgs inside data).accesses⟩
    · rw [nothing]
      exact h

theorem frame_irq (s : TwiDev) (stat : UInt32) (data : UInt8) (stale : RtI2cMsg) :
    Frame s (s.twiIrqHandler stat data stale) := by
  rcases handled s stat data stale with ⟨frame, -⟩ | ⟨-, put⟩ | ⟨-, got⟩ | ⟨-, got⟩
  · exact frame
  · rw [put]
    rcases putNext_cases s (s.message stale) with ⟨-, put⟩ | ⟨-, finished⟩
    · rw [put]
      exact ⟨rfl, rfl, rfl, rfl⟩
    · rw [finished]
      exact ⟨rfl, rfl, rfl, rfl⟩
  · rw [got]
    rcases getNext_cases s (s.message stale) data with ⟨-, got⟩ | ⟨-, nothing⟩
    · obtain ⟨frame, -⟩ := calm_lastButOne s (s.message stale)
      rw [got]
      exact frame.trans (frame_take _ _ data)
    · rw [nothing]
      exact Frame.refl s
  · rw [got]
    rcases getLast_cases s (s.message stale) data with ⟨-, got⟩ | ⟨-, nothing⟩
    · rw [got]
      exact ⟨rfl, rfl, rfl, rfl⟩
    · rw [nothing]
      exact Frame.refl s

theorem Tracks.irq (tracks : Tracks s msg) (msgs : s.msgs = some msg)
    (bound : s.msgPtr.toNat ≤ 0xFFFF) {stat : UInt32} (data : UInt8)
    (putsFit : Puts s msg stat → s.lock = msg.isRead)
    (getsFit : Gets s msg stat → s.lock = !msg.isRead) :
    Tracks (s.twiIrqHandler stat data stale) msg := by
  have read := message_of msgs stale
  rcases handled s stat data stale with ⟨frame, calm⟩ | ⟨isPut, put⟩ | ⟨isGet, got⟩ | ⟨isLast, got⟩
  · exact tracks.calm frame calm
  · rw [put, read]
    exact tracks.putNext fun inside => putsFit ⟨isPut, inside⟩
  · rw [got, read]
    exact tracks.getNext data fun inside => getsFit (.inl ⟨isGet, inside⟩)
  · rw [got, read]
    exact tracks.getLast bound data fun last => getsFit (.inr ⟨isLast, last⟩)

/-- The message that the thread is at. -/
def current : Pc → Option RtI2cMsg
  | .unlock msg _ _ => some msg
  | .start msg _ _ => some msg
  | .poll msg _ _ _ => some msg
  | _ => none

/-- The device points to that message, and the bytes of one that is waited for are as they should
be; as were those of the messages that succeeded. -/
structure Isolated (s : TwiDev) : Prop where
  inside : Inside s
  succeeded : ∀ t ∈ s.succeeded, Exact t
  current : ∀ msg, current s.pc = some msg → s.msgs = some msg ∧ s.held.length = msg.len.toNat
  tracks : ∀ msg cnt rest num, s.pc = .poll msg cnt rest num → Tracks s msg

theorem isolated_away (away : current s.pc = none) (inside : Inside s)
    (succeeded : ∀ t ∈ s.succeeded, Exact t) : Isolated s := by
  refine ⟨inside, succeeded, ?_, ?_⟩
  · intro _ there
    rw [away] at there
    cases there
  · intro _ _ _ _ there
    rw [there] at away
    cases away

theorem isolated_twi0 (mem : Mem) : Isolated (twi0 mem) :=
  isolated_away rfl ⟨Nat.zero_le _, fun _ made => absurd made List.not_mem_nil⟩
    fun _ member => absurd member List.not_mem_nil

theorem tracks_start (length : s.held.length = msg.len.toNat) (pc : Pc)
    (fits : msg.len = 0 ∨
      s.msgPtr = 0 ∧ s.lock = false ∧ (msg.isRead = false → msg.holds s.mem = s.held)) :
    Tracks { s with bus := [.start], pc := pc } msg := by
  rcases fits with empty | ⟨first, down, same⟩
  · rw [empty] at length
    have none : s.held = [] := List.eq_nil_of_length_eq_zero length
    have nothing : msg.holds s.mem = [] := by
      refine List.eq_nil_of_length_eq_zero ?_
      rw [length_holds, empty]
      rfl
    refine ⟨by rw [empty]; exact length, ?_, fun _ _ => none.symm, ?_, fun _ _ => nothing.symm⟩
    · intro _ _
      refine ⟨?_, nothing.trans none.symm⟩
      show [] = s.held.take _
      rw [none, List.take_nil]
    · intro _ _
      show [] = (msg.holds s.mem).take _
      rw [nothing, List.take_nil]
  · refine ⟨length, ?_, ?_, ?_, ?_⟩
    · intro written _
      refine ⟨?_, same written⟩
      show [] = s.held.take s.msgPtr.toNat
      rw [first]
      rfl
    · intro _ up
      exact absurd (down.symm.trans up) Bool.noConfusion
    · intro _ _
      show [] = (msg.holds s.mem).take s.msgPtr.toNat
      rw [first]
      rfl
    · intro _ up
      exact absurd (down.symm.trans up) Bool.noConfusion

/-- With the flag up the bytes have moved. -/
theorem Tracks.exact (tracks : Tracks s msg) (up : s.lock = true) :
    Exact ⟨msg, s.held, s.bus, msg.holds s.mem⟩ := by
  unfold Exact
  dsimp only
  split
  · rename_i read
    exact tracks.received read up
  · rename_i written
    exact tracks.sent (Bool.eq_false_iff.mpr written) up

theorem isolated_thread (isolated : Isolated s) (fits : Fits s .thread)
    (step : s.thread = some s') : Isolated s' := by
  obtain ⟨inside, succeeded, at_, tracks⟩ := isolated
  unfold TwiDev.thread at step
  cases pc : s.pc with
  | idle =>
    simp only [pc] at step
    cases step
  | select rest num =>
    cases rest with
    | nil =>
      simp only [pc] at step
      cases step
      exact isolated_away rfl ⟨inside.bound, inside.accesses⟩ succeeded
    | cons msg rest =>
      simp only [pc] at step
      cases step
      refine ⟨⟨inside.bound, inside.accesses⟩, succeeded, fun msg' there => ?_,
        fun _ _ _ _ there => Pc.noConfusion there⟩
      obtain rfl := Option.some.inj there
      exact ⟨rfl, length_holds _⟩
  | unlock msg rest num =>
    simp only [pc] at step
    rw [pc] at at_
    cases step
    exact ⟨⟨inside.bound, inside.accesses⟩, succeeded, at_,
      fun _ _ _ _ there => Pc.noConfusion there⟩
  | start msg rest num =>
    simp only [pc] at step
    rw [pc] at at_
    cases step
    refine ⟨⟨inside.bound, inside.accesses⟩, succeeded, at_, fun msg' cnt rest' num' there => ?_⟩
    cases there
    exact tracks_start (at_ msg rfl).2 _ (fits msg rest num pc)
  | poll msg cnt rest num =>
    simp only [pc] at step
    have before := tracks msg cnt rest num pc
    rw [pc] at at_
    split at step
    · rename_i up
      cases step
      refine isolated_away rfl ⟨inside.bound, inside.accesses⟩ fun t member => ?_
      rcases List.mem_append.mp member with old | new
      · exact succeeded t old
      · obtain rfl := List.mem_singleton.mp new
        exact before.exact up
    · split at step
      · cases step
        exact isolated_away rfl ⟨inside.bound, inside.accesses⟩ succeeded
      · cases step
        refine ⟨⟨inside.bound, inside.accesses⟩, succeeded, at_, fun _ _ _ _ there => ?_⟩
        cases there
        exact ⟨before.length, before.sending, before.sent, before.receiving, before.received⟩

theorem isolated_irq (isolated : Isolated s) {stat : UInt32} {data : UInt8}
    (fits : Fits s (.irq stat data stale)) : Isolated (s.twiIrqHandler stat data stale) := by
  have frame := frame_irq s stat data stale
  refine ⟨isolated.inside.irq data fits.1, ?_, ?_, ?_⟩
  · rw [frame.succeeded]
    exact isolated.succeeded
  · rw [frame.pc, frame.msgs, frame.held]
    exact isolated.current
  · intro msg cnt rest num there
    rw [frame.pc] at there
    obtain ⟨putsFit, getsFit⟩ := fits.2 msg cnt rest num there
    have msgs := (isolated.current msg (by rw [there]; rfl)).1
    exact (isolated.tracks msg cnt rest num there).irq msgs isolated.inside.bound data putsFit
      getsFit

theorem isolated_write (isolated : Isolated s) {p : Nat} (free : s.busy p = false) (v : UInt8) :
    Isolated { s with mem := store s.mem p [v] } := by
  refine ⟨⟨isolated.inside.bound, isolated.inside.accesses⟩, isolated.succeeded,
    isolated.current, ?_⟩
  intro msg cnt rest num there
  have tracks := isolated.tracks msg cnt rest num there
  have apart : msg.buf + msg.len.toNat ≤ p ∨ p + 1 ≤ msg.buf := by
    have pc : s.pc = .poll msg cnt rest num := there
    rw [TwiDev.busy, pc] at free
    simp only [Bool.and_eq_false_iff, decide_eq_false_iff_not] at free
    omega
  have same : msg.holds (store s.mem p [v]) = msg.holds s.mem := slice_store_apart s.mem apart
  constructor
  · exact tracks.length
  · dsimp only
    rw [same]
    exact tracks.sending
  · exact tracks.sent
  · dsimp only
    rw [same]
    exact tracks.receiving
  · dsimp only
    rw [same]
    exact tracks.received

theorem isolated_step {event : Event} (isolated : Isolated s) (fits : Fits s event)
    (step : s.step event = some s') : Isolated s' := by
  cases event with
  | call msgs =>
    unfold TwiDev.step at step
    cases pc : s.pc with
    | idle =>
      simp only [pc] at step
      cases step
      exact isolated_away rfl ⟨isolated.inside.bound, isolated.inside.accesses⟩ isolated.succeeded
    | select rest num | unlock msg rest num | start msg rest num | poll msg cnt rest num =>
      simp only [pc] at step
      cases step
  | thread => exact isolated_thread isolated fits step
  | irq stat data stale =>
    cases step
    exact isolated_irq isolated fits
  | write p v =>
    unfold TwiDev.step at step
    dsimp only at step
    split at step
    · cases step
    · rename_i free
      cases step
      exact isolated_write isolated (Bool.eq_false_iff.mpr free) v

/-- In every run whose steps meet the condition, every access is to the buffer of a message, and
every message that succeeded has moved its bytes. -/
theorem transfers_isolated {mem : Mem} {events : List Event}
    (meets : Along TwiDev.step Fits (twi0 mem) events)
    (reached : run TwiDev.step (twi0 mem) events = some s) :
    (∀ a ∈ s.accesses, Within a) ∧ ∀ t ∈ s.succeeded, Exact t := by
  have isolated := run_invariant_along Isolated isolated_step (isolated_twi0 mem) meets reached
  exact ⟨isolated.inside.accesses, isolated.succeeded⟩

theorem fits_waiting {cnt num : Nat} {rest : List RtI2cMsg} {stat : UInt32} {data : UInt8}
    (pc : s.pc = .poll msg cnt rest num) (msgs : s.msgs = some msg)
    (putsFit : Puts s msg stat → s.lock = msg.isRead)
    (getsFit : Gets s msg stat → s.lock = !msg.isRead) : Fits s (.irq stat data stale) := by
  constructor
  · intro _ none
    rw [msgs] at none
    cases none
  · intro msg' _ _ _ there
    rw [pc] at there
    cases there
    exact ⟨putsFit, getsFit⟩

theorem step_put (msgs : s.msgs = some msg) : s.step (.irq 0x28 0 msg) = some (s.putNext msg) :=
  congrArg (some ∘ s.putNext) (message_of msgs msg)

theorem step_get (msgs : s.msgs = some msg) : s.step (.irq 0x50 0 msg) = some (s.getNext msg 0) :=
  congrArg (some ∘ (s.getNext · 0)) (message_of msgs msg)

theorem not_gets {stat : UInt32} (other : stat ≠ 0x50 ∧ stat ≠ 0x58) : ¬ Gets s msg stat := by
  rintro (⟨get, -⟩ | ⟨last, -⟩)
  · exact other.1 get
  · exact other.2 last

theorem fits_written {cnt num : Nat} {rest : List RtI2cMsg} {stat : UInt32} {data : UInt8}
    (pc : s.pc = .poll msg cnt rest num) (msgs : s.msgs = some msg) (written : msg.isRead = false)
    (down : s.lock = false) (other : stat ≠ 0x50 ∧ stat ≠ 0x58) : Fits s (.irq stat data stale) :=
  fits_waiting pc msgs (fun _ => down.trans written.symm) fun gets => absurd gets (not_gets other)

/-- A message of two bytes to be written, and what memory holds of it. -/
def twoBytes : RtI2cMsg := { addr := 0x50, flags := 0, len := 2, buf := 0 }

def blank : Mem := fun p => if p = 0 then 0xA0 else 0xA1

/-- A call for it, up to the address. -/
def addressed : List Event := .call [twoBytes] :: (List.replicate 3 .thread ++ [.irq 0x08 0 twoBytes])

/-- The slave takes everything. -/
def accepted : List Event :=
  addressed ++ [.irq 0x18 0 twoBytes, .irq 0x28 0 twoBytes, .irq 0x28 0 twoBytes, .thread, .thread]

theorem fits_accepted : Along TwiDev.step Fits (twi0 blank) accepted := by
  have quiet {s : TwiDev} (other : ∀ msg rest num, s.pc ≠ .start msg rest num) : Fits s .thread :=
    fun msg rest num there => absurd there (other msg rest num)
  refine ⟨trivial, fun s step => ?_⟩
  cases step
  iterate 2
    refine ⟨quiet fun _ _ _ => Pc.noConfusion, fun s step => ?_⟩
    cases step
  refine ⟨fun msg rest num there => ?_, fun s step => ?_⟩
  · cases there
    exact .inr ⟨rfl, rfl, fun _ => rfl⟩
  cases step
  iterate 4
    refine ⟨fits_written rfl rfl rfl rfl (by decide), fun s step => ?_⟩
    cases step
  iterate 2
    refine ⟨quiet fun _ _ _ => Pc.noConfusion, fun s step => ?_⟩
    cases step
  exact trivial

theorem transfers_isolated_accepted : ∃ s, run TwiDev.step (twi0 blank) accepted = some s ∧
    s.returned = [1] ∧ s.succeeded.map (puts ·.bus) = [[0xA0, 0xA1]] ∧
    (∀ a ∈ s.accesses, Within a) ∧ ∀ t ∈ s.succeeded, Exact t :=
  ⟨_, rfl, rfl, rfl, transfers_isolated fits_accepted rfl⟩

/-- The slave refuses the first byte, and the call gives up; then the same call comes again, and the
slave takes what it gets. -/
def refused : List Event :=
  addressed ++ [.irq 0x18 0 twoBytes, .irq 0x30 0 twoBytes] ++ List.replicate 12 .thread ++
    addressed ++ [.irq 0x18 0 twoBytes, .irq 0x28 0 twoBytes, .thread, .thread]

/-- The second call succeeds, and the first byte was not put on the bus. -/
theorem position_leaks : ∃ s, run TwiDev.step (twi0 blank) refused = some s ∧
    s.returned = [0, 1] ∧ s.succeeded.map (puts ·.bus) = [[0xA1]] ∧
    ¬ ((∀ a ∈ s.accesses, Within a) ∧ ∀ t ∈ s.succeeded, Exact t) := by
  refine ⟨_, rfl, rfl, rfl, fun sound => ?_⟩
  have sent : [(0xA1 : UInt8)] = [0xA0, 0xA1] := sound.2 _ List.mem_cons_self
  exact absurd sent (by decide)

/-- Steps that meet the condition lead from here to a message that succeeds without having moved its
bytes. -/
def Breaks (s : TwiDev) : Prop :=
  ∃ events s', Along TwiDev.step Fits s events ∧ run TwiDev.step s events = some s' ∧
    ∃ t ∈ s'.succeeded, ¬ Exact t

theorem puts_of_exact {held left : List UInt8} {bus : List Signal} (written : msg.isRead = false)
    (exact_ : Exact ⟨msg, held, bus, left⟩) : puts bus = held := by
  rwa [Exact, if_neg (ne_true_of_eq_false written)] at exact_

theorem gots_of_exact {held left : List UInt8} {bus : List Signal} (read : msg.isRead = true)
    (exact_ : Exact ⟨msg, held, bus, left⟩) : gots bus = left := by
  rwa [Exact, if_pos read] at exact_

theorem breaks_of_step {event : Event} (fits : Fits s event) (step : s.step event = some s')
    (breaks : Breaks s') : Breaks s := by
  obtain ⟨events, s'', meets, later, wrong⟩ := breaks
  refine ⟨event :: events, s'', ⟨fits, ?_⟩, ?_, wrong⟩
  · intro t other
    rw [step] at other
    obtain rfl := Option.some.inj other
    exact meets
  · rw [run_cons step]
    exact later

section Waiting

variable {cnt num : Nat} {rest : List RtI2cMsg}

theorem breaks_of_up (pc : s.pc = .poll msg cnt rest num) (up : s.lock = true)
    (wrong : ¬ Exact ⟨msg, s.held, s.bus, msg.holds s.mem⟩) : Breaks s := by
  refine ⟨[.thread], { s with
    succeeded := s.succeeded ++ [⟨msg, s.held, s.bus, msg.holds s.mem⟩]
    pc := .select rest num }, ⟨fun _ _ _ there => ?_, fun _ _ => trivial⟩, ?_, _,
    List.mem_append_right _ List.mem_cons_self, wrong⟩
  · rw [pc] at there
    cases there
  · have step : s.thread = some { s with
        succeeded := s.succeeded ++ [⟨msg, s.held, s.bus, msg.holds s.mem⟩]
        pc := .select rest num } := by
      rw [TwiDev.thread, pc]
      exact if_pos up
    exact run_cons step

theorem breaks_written (pc : s.pc = .poll msg cnt rest num) (msgs : s.msgs = some msg)
    (written : msg.isRead = false) (down : s.lock = false)
    (wrong : puts s.bus ++ (msg.holds s.mem).drop s.msgPtr.toNat ≠ s.held) : Breaks s := by
  generalize count : msg.len.toNat - s.msgPtr.toNat = n
  induction n generalizing s with
  | zero =>
    have past : ¬ s.msgPtr < msg.len.toUInt32 := by
      rw [inside_iff]
      omega
    have fits : Fits s (.irq 0x28 0 msg) := fits_written pc msgs written down (by decide)
    have step := step_put msgs
    obtain ⟨inside, -⟩ | ⟨-, finished⟩ := putNext_cases s msg
    · exact absurd inside past
    refine breaks_of_step fits step ?_
    rw [finished]
    refine breaks_of_up pc rfl ?_
    intro exact_
    apply wrong
    rw [List.drop_of_length_le (by rw [length_holds]; omega)]
    exact (puts_append s.bus [.stop]).symm.trans (puts_of_exact written exact_)
  | succ n ih =>
    have inside : s.msgPtr < msg.len.toUInt32 := by
      rw [inside_iff]
      omega
    have fits : Fits s (.irq 0x28 0 msg) := fits_written pc msgs written down (by decide)
    have step := step_put msgs
    obtain ⟨-, put⟩ | ⟨past, -⟩ := putNext_cases s msg
    · refine breaks_of_step fits step ?_
      rw [put]
      refine ih pc msgs down (fun whole => wrong ?_) ?_
      · rw [drop_next s.mem inside, ← toNat_next inside, List.append_cons]
        exact (congrArg (· ++ _) (puts_append s.bus [_])).symm.trans whole
      · show msg.len.toNat - (s.msgPtr + 1).toNat = n
        rw [toNat_next inside]
        omega
    · exact absurd inside past

theorem breaks_read (pc : s.pc = .poll msg cnt rest num) (msgs : s.msgs = some msg)
    (read : msg.isRead = true) (down : s.lock = false)
    (wrong : (gots s.bus).length + (msg.len.toNat - s.msgPtr.toNat) ≠ msg.len.toNat) :
    Breaks s := by
  generalize count : msg.len.toNat - s.msgPtr.toNat = n at wrong
  induction n generalizing s with
  | zero =>
    have past : ¬ s.msgPtr < msg.len.toUInt32 := by
      rw [inside_iff]
      omega
    have fits : Fits s (.irq 0x28 0 msg) := fits_waiting pc msgs (fun put => absurd put.2 past)
      fun gets => absurd gets (not_gets (by decide))
    have step := step_put msgs
    obtain ⟨inside, -⟩ | ⟨-, finished⟩ := putNext_cases s msg
    · exact absurd inside past
    refine breaks_of_step fits step ?_
    rw [finished]
    refine breaks_of_up pc rfl ?_
    intro exact_
    apply wrong
    have same : gots s.bus ++ [] = msg.holds s.mem :=
      (gots_append s.bus [.stop]).symm.trans (gots_of_exact read exact_)
    rw [← List.append_nil (gots s.bus), same, length_holds]
    rfl
  | succ n ih =>
    have inside : s.msgPtr < msg.len.toUInt32 := by
      rw [inside_iff]
      omega
    have fits : Fits s (.irq 0x50 0 msg) := by
      refine fits_waiting pc msgs (fun put => absurd put.1 (by decide)) fun _ => ?_
      rw [down, read]
      rfl
    have step := step_get msgs
    obtain ⟨-, got⟩ | ⟨past, -⟩ := getNext_cases s msg 0
    · obtain ⟨frame, calm⟩ := calm_lastButOne s msg
      refine breaks_of_step fits step ?_
      rw [got]
      have taken := frame.trans (frame_take _ msg 0)
      obtain ⟨index, lock, more⟩ := next_took (s.lastButOne msg) msg 0
      rw [calm.index] at index
      rw [calm.gots] at more
      have still := lock.trans (calm.lock.trans down)
      refine ih (taken.pc.trans pc) (taken.msgs.trans msgs) still ?_ ?_
      · rw [index, toNat_next inside]
        omega
      · rw [more, List.length_append, List.length_singleton]
        omega
    · exact absurd inside past

theorem breaks_of_length (pc : s.pc = .poll msg cnt rest num) (up : s.lock = true)
    (length : s.held.length = msg.len.toNat)
    (wrong : (if msg.isRead = true then gots s.bus else puts s.bus).length ≠ msg.len.toNat) :
    Breaks s := by
  apply breaks_of_up pc up
  intro exact_
  apply wrong
  split
  · rename_i read
    rw [gots_of_exact read exact_, length_holds]
  · rename_i written
    rw [puts_of_exact (Bool.eq_false_iff.mpr written) exact_, length]

theorem missed_start (msgs : s.msgs = some msg) (length : s.held.length = msg.len.toNat)
    (missed : ¬ (msg.len = 0 ∨
      s.msgPtr = 0 ∧ s.lock = false ∧ (msg.isRead = false → msg.holds s.mem = s.held))) :
    Breaks { s with bus := [.start], pc := .poll msg 0 rest num } := by
  rw [not_or] at missed
  obtain ⟨some, other⟩ := missed
  have positive : msg.len.toNat ≠ 0 := fun none => some (UInt16.toNat_inj.mp none)
  have first (none : s.msgPtr.toNat = 0) : s.msgPtr = 0 := UInt32.toNat_inj.mp none
  by_cases up : s.lock = true
  · refine breaks_of_length rfl up length ?_
    have nothing : (if msg.isRead = true then gots [Signal.start] else puts [Signal.start]) = [] :=
      by split <;> rfl
    exact fun whole => positive ((congrArg List.length nothing).symm.trans whole).symm
  have down := (Bool.not_eq_true _).mp up
  rcases way : msg.isRead with _ | _
  · refine breaks_written rfl msgs way down ?_
    intro whole
    have whole : (msg.holds s.mem).drop s.msgPtr.toNat = s.held := whole
    have counts := congrArg List.length whole
    rw [List.length_drop, length_holds, length] at counts
    have none : s.msgPtr.toNat = 0 := by omega
    rw [none, List.drop_zero] at whole
    exact other ⟨first none, down, fun _ => whole⟩
  · refine breaks_read rfl msgs way down ?_
    intro whole
    have counts : 0 + (msg.len.toNat - s.msgPtr.toNat) = msg.len.toNat := whole
    refine other ⟨first (by omega), down, fun written => ?_⟩
    rw [way] at written
    cases written

theorem missed_put (pc : s.pc = .poll msg cnt rest num) (msgs : s.msgs = some msg)
    (tracks : Tracks s msg) (inside : s.msgPtr < msg.len.toUInt32)
    (missed : s.lock ≠ msg.isRead) : Breaks (s.putNext msg) := by
  obtain ⟨-, put⟩ | ⟨past, -⟩ := putNext_cases s msg
  · rw [put]
    rcases way : msg.isRead with _ | _
    · rw [way] at missed
      have up := (Bool.not_eq_false _).mp missed
      refine breaks_of_length pc up tracks.length ?_
      have more : puts (s.bus ++ [.put (s.mem (msg.cell s.msgPtr))]) =
          s.held ++ [s.mem (msg.cell s.msgPtr)] := by
        rw [puts_append, tracks.sent way up]
        rfl
      rw [if_neg (ne_true_of_eq_false way)]
      intro whole
      have counts := (congrArg List.length more).symm.trans whole
      rw [List.length_append, tracks.length, List.length_singleton] at counts
      omega
    · rw [way] at missed
      have down := (Bool.not_eq_true _).mp missed
      refine breaks_read pc msgs way down ?_
      have more : gots (s.bus ++ [.put (s.mem (msg.cell s.msgPtr))]) =
          (msg.holds s.mem).take s.msgPtr.toNat := by
        rw [gots_append, tracks.receiving way down]
        exact List.append_nil _
      have before := inside_iff.mp inside
      intro whole
      have counts : (gots (s.bus ++ [.put (s.mem (msg.cell s.msgPtr))])).length +
          (msg.len.toNat - (s.msgPtr + 1).toNat) = msg.len.toNat := whole
      rw [more, List.length_take, length_holds, toNat_next inside] at counts
      omega
  · exact absurd inside past

theorem missed_get (pc : s.pc = .poll msg cnt rest num) (msgs : s.msgs = some msg)
    (tracks : Tracks s msg) (inside : s.msgPtr < msg.len.toUInt32)
    (missed : s.lock ≠ !msg.isRead) (data : UInt8) : Breaks (s.take msg data).next := by
  obtain ⟨index, lock, more⟩ := next_took s msg data
  rcases way : msg.isRead with _ | _
  · rw [way] at missed
    have down := (Bool.not_eq_true _).mp missed
    refine breaks_written pc msgs way (lock.trans down) fun whole => ?_
    have same : puts (s.take msg data).next.bus = s.held.take s.msgPtr.toNat := by
      refine (puts_append _ _).trans ?_
      rw [← (tracks.sending way down).1]
      exact List.append_nil _
    have counts := congrArg List.length whole
    rw [same, index, toNat_next inside, List.length_append, List.length_take, List.length_drop,
      length_holds, tracks.length] at counts
    have before := inside_iff.mp inside
    have held : (s.take msg data).next.held.length = msg.len.toNat := tracks.length
    omega
  · rw [way] at missed
    have up := (Bool.not_eq_false _).mp missed
    refine breaks_of_length pc (lock.trans up) tracks.length ?_
    rw [if_pos way, more, tracks.received way up, List.length_append, length_holds,
      List.length_singleton]
    omega

theorem missed_last (pc : s.pc = .poll msg cnt rest num) (tracks : Tracks s msg)
    (inside : s.msgPtr < msg.len.toUInt32) (missed : s.lock ≠ !msg.isRead) (data : UInt8) :
    Breaks (s.take msg data).finish := by
  refine breaks_of_length pc rfl tracks.length ?_
  have before := inside_iff.mp inside
  split
  · rename_i read
    rw [read] at missed
    have up := (Bool.not_eq_false _).mp missed
    have more : gots (s.take msg data).finish.bus = (msg.holds s.mem ++ [data]) ++ [] := by
      rw [← tracks.received read up]
      exact (gots_append _ _).trans (congrArg (· ++ _) (gots_append _ _))
    rw [more, List.append_nil, List.length_append, length_holds, List.length_singleton]
    omega
  · rename_i written
    rw [Bool.eq_false_iff.mpr written] at missed
    have down := (Bool.not_eq_true _).mp missed
    have same : puts (s.take msg data).finish.bus = (s.held.take s.msgPtr.toNat ++ []) ++ [] := by
      rw [← (tracks.sending (Bool.eq_false_iff.mpr written) down).1]
      exact (puts_append _ _).trans (congrArg (· ++ _) (puts_append _ _))
    rw [same, List.append_nil, List.append_nil, List.length_take, tracks.length]
    omega

theorem missed_irq (isolated : Isolated s) (pc : s.pc = .poll msg cnt rest num) {stat : UInt32}
    (data : UInt8)
    (missed : ¬ ((Puts s msg stat → s.lock = msg.isRead) ∧
      (Gets s msg stat → s.lock = !msg.isRead))) : Breaks (s.twiIrqHandler stat data stale) := by
  have msgs := (isolated.current msg (by rw [pc]; rfl)).1
  have tracks := isolated.tracks msg cnt rest num pc
  have read := message_of msgs stale
  rcases not_and_or.mp missed with missed | missed
  · obtain ⟨⟨isPut, inside⟩, missed⟩ := Classical.not_imp.mp missed
    have step : s.twiIrqHandler stat data stale = s.putNext (s.message stale) := by
      rcases isPut with rfl | rfl | rfl <;> rfl
    rw [step, read]
    exact missed_put pc msgs tracks inside missed
  · obtain ⟨get, wrong⟩ := Classical.not_imp.mp missed
    rcases get with ⟨rfl, inside⟩ | ⟨rfl, last⟩
    · have step : s.twiIrqHandler 0x50 data stale = s.getNext (s.message stale) data := rfl
      obtain ⟨frame, calm⟩ := calm_lastButOne s msg
      obtain ⟨-, got⟩ | ⟨past, -⟩ := getNext_cases s msg data
      · rw [step, read, got]
        refine missed_get (frame.pc.trans pc) (frame.msgs.trans msgs) (tracks.calm frame calm) ?_ ?_
          data
        · rw [calm.index]
          exact inside
        · rw [calm.lock]
          exact wrong
      · exact absurd inside past
    · have step : s.twiIrqHandler 0x58 data stale = s.getLast (s.message stale) data := rfl
      have inside : s.msgPtr < msg.len.toUInt32 := by
        have end_ := (last_iff isolated.inside.bound).mp last
        rw [inside_iff]
        omega
      obtain ⟨-, got⟩ | ⟨other, -⟩ := getLast_cases s msg data
      · rw [step, read, got]
        exact missed_last pc tracks inside wrong data
      · exact absurd last other

end Waiting

theorem missed_data {stat : UInt32} (data : UInt8)
    (moves : Puts s (s.message stale) stat ∨ Gets s (s.message stale) stat) (msgs : s.msgs = none) :
    ∃ a ∈ (s.twiIrqHandler stat data stale).accesses, ¬ Within a := by
  have made : (s.twiIrqHandler stat data stale).accesses = s.access.accesses := by
    rcases moves with ⟨isPut, inside⟩ | ⟨rfl, inside⟩ | ⟨rfl, last⟩
    · have step : s.twiIrqHandler stat data stale = s.putNext (s.message stale) := by
        rcases isPut with rfl | rfl | rfl <;> rfl
      rw [step, TwiDev.putNext, if_pos inside]
      rfl
    · have step : s.twiIrqHandler 0x50 data stale = s.getNext (s.message stale) data := rfl
      obtain ⟨frame, calm⟩ := calm_lastButOne s (s.message stale)
      have kept : (s.lastButOne (s.message stale)).access.accesses = s.access.accesses := by
        rw [TwiDev.access, TwiDev.access, calm.accesses, calm.index, frame.msgs]
      rw [step, TwiDev.getNext, if_pos inside]
      exact kept
    · have step : s.twiIrqHandler 0x58 data stale = s.getLast (s.message stale) data := rfl
      rw [step, TwiDev.getLast, if_pos last]
      rfl
  rw [made]
  refine ⟨_, List.mem_append_right _ List.mem_cons_self, ?_⟩
  rintro ⟨msg, there, -⟩
  rw [msgs] at there
  cases there

/-- Whatever step misses the condition, there is an access to no buffer, or the steps behind it may
all meet the condition and a message succeed without having moved its bytes. -/
theorem missed_breaks {event : Event} (isolated : Isolated s) (missed : ¬ Fits s event)
    (step : s.step event = some s') : (∃ a ∈ s'.accesses, ¬ Within a) ∨ Breaks s' := by
  cases event with
  | thread =>
    obtain ⟨msg, missed⟩ := not_forall.mp missed
    obtain ⟨rest, missed⟩ := not_forall.mp missed
    obtain ⟨num, missed⟩ := not_forall.mp missed
    obtain ⟨pc, missed⟩ := Classical.not_imp.mp missed
    obtain ⟨msgs, length⟩ := isolated.current msg (by rw [pc]; rfl)
    have started : s.thread = some { s with bus := [.start], pc := .poll msg 0 rest num } := by
      rw [TwiDev.thread, pc]
    obtain rfl := Option.some.inj (started.symm.trans step)
    exact .inr (missed_start msgs length missed)
  | irq stat data stale =>
    obtain rfl := Option.some.inj step
    rcases not_and_or.mp missed with missed | missed
    · obtain ⟨moves, nothing⟩ := Classical.not_imp.mp missed
      exact .inl (missed_data data moves (not_not.mp nothing))
    · obtain ⟨msg, missed⟩ := not_forall.mp missed
      obtain ⟨cnt, missed⟩ := not_forall.mp missed
      obtain ⟨rest, missed⟩ := not_forall.mp missed
      obtain ⟨num, missed⟩ := not_forall.mp missed
      obtain ⟨pc, missed⟩ := Classical.not_imp.mp missed
      exact .inr (missed_irq isolated pc data missed)
  | call msgs => exact absurd trivial missed
  | write p v => exact absurd trivial missed

end T113Boot.Drivers.Transfers
