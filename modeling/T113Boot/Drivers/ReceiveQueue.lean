/- Module: T113Boot/Drivers/ReceiveQueue
   layer: proof
   digest: Over every run of interrupts and reads the receive FIFO is a bounded queue. -/

import T113Boot.Drivers.Uart
import T113Boot.Lib.Runs

set_option autoImplicit false
set_option relaxedAutoImplicit false

namespace T113Boot.Drivers.ReceiveQueue

open T113Boot.Lib.BoundedQueue
open T113Boot.Lib.Cells
open T113Boot.Lib.Runs
open T113Boot.Drivers.Uart

/-- The FIFO holds the unread bytes, and the flag is set only where a byte is unread. -/
structure Holds (fifo : RxFifo) (unread : List UInt8) : Prop where
  ring : Ring uartSoftFifoSize (fun i ch => fifo.buffer i = ch) fifo.getIndex fifo.putIndex unread
  flag : fifo.isFull = 0 ∨ fifo.isFull = 1 ∧ unread ≠ []

variable {fifo : RxFifo} {unread : List UInt8}

theorem holds_initial : Holds RxFifo.initial [] where
  ring := ring_nil (by decide)
  flag := .inl rfl

theorem putChar_holds (holds : Holds fifo unread) (rbr : UInt32) :
    ∃ fifo', putChar fifo rbr = some fifo' ∧
      Holds fifo' (keepLast (uartSoftFifoSize - 1) (unread ++ [rbr.toUInt8])) := by
  have ring := holds.ring
  have filled : store fifo.buffer fifo.putIndex [rbr.toUInt8] fifo.putIndex = rbr.toUInt8 := by
    rw [store_inside (Nat.le_refl _) (by simp), Nat.sub_self]
    rfl
  have keeps : ∀ i ≠ fifo.putIndex, ∀ c, fifo.buffer i = c →
      store fifo.buffer fifo.putIndex [rbr.toUInt8] i = c := by
    intro i other c held
    rw [store_outside (by simp only [List.length_singleton]; omega), held]
  unfold putChar
  rw [if_pos ring.put_lt]
  by_cases full : unread.length + 1 = uartSoftFifoSize
  · obtain ⟨met, ring'⟩ := ring.push_full full filled keeps
    refine ⟨_, if_pos met, ?_⟩
    have excess : (unread ++ [rbr.toUInt8]).length - (uartSoftFifoSize - 1) = 1 := by
      rw [List.length_append, List.length_singleton]
      omega
    have positive : unread ≠ [] := by
      rintro rfl
      exact absurd full (by decide)
    rw [keepLast, excess]
    exact ⟨ring', .inr ⟨rfl, by simp [positive]⟩⟩
  · have room : unread.length + 1 < uartSoftFifoSize := by
      have := ring.short
      omega
    obtain ⟨apart, ring'⟩ := ring.push room filled keeps
    refine ⟨_, if_neg apart, ?_⟩
    rw [keepLast_of_le (by simp; omega)]
    exact ⟨ring', holds.flag.imp_right fun is => ⟨is.1, by simp⟩⟩

theorem uartIrqHandler_holds (holds : Holds fifo unread) (rbr : List UInt32) :
    ∃ fifo', uartIrqHandler fifo rbr = some fifo' ∧
      Holds fifo' (keepLast (uartSoftFifoSize - 1) (unread ++ rbr.map UInt32.toUInt8)) := by
  induction rbr generalizing fifo unread with
  | nil =>
    refine ⟨fifo, rfl, ?_⟩
    have := holds.ring.short
    rw [List.map_nil, List.append_nil, keepLast_of_le (by omega)]
    exact holds
  | cons ch rbr ih =>
    obtain ⟨mid, first, holdsMid⟩ := putChar_holds holds ch
    obtain ⟨fifo', rest, holds'⟩ := ih holdsMid
    rw [keepLast_append, List.append_assoc] at holds'
    refine ⟨fifo', ?_, holds'⟩
    unfold uartIrqHandler
    rw [List.foldlM_cons, first]
    exact rest

theorem uartGetc_empty (holds : Holds fifo []) : uartGetc fifo = some (-1, fifo) := by
  have met := holds.ring.empty_iff.mpr rfl
  have flag : fifo.isFull = 0 := holds.flag.resolve_right fun is => is.2 rfl
  exact if_pos ⟨met, flag⟩

theorem uartGetc_cons {ch : UInt8} (holds : Holds fifo (ch :: unread)) :
    ∃ fifo', uartGetc fifo = some ((ch.toNat : Int), fifo') ∧ Holds fifo' unread := by
  have apart : fifo.getIndex ≠ fifo.putIndex := by
    intro met
    exact absurd (holds.ring.empty_iff.mp met) (List.cons_ne_nil _ _)
  have cleared : (if fifo.isFull = 1 then 0 else fifo.isFull) = 0 := by
    rcases holds.flag with flag | ⟨flag, -⟩
    · rw [flag]
      decide
    · exact if_pos flag
  unfold uartGetc
  rw [if_neg fun is => apart is.1, if_pos holds.ring.inside, holds.ring.head]
  exact ⟨_, rfl, holds.ring.tail, .inl cleared⟩

/-- The FIFO and the calls are those of the queue. -/
def Refines (r : Receiver) (a : Reader) : Prop := Holds r.fifo a.unread ∧ r.returned = a.returned

theorem step_refines {r : Receiver} {a : Reader} (related : Refines r a) (event : Event) :
    ∃ r', r.step event = some r' ∧ Refines r' (a.next event) := by
  obtain ⟨holds, same⟩ := related
  cases event with
  | irq rbr =>
    obtain ⟨fifo', stored, holds'⟩ := uartIrqHandler_holds holds rbr
    refine ⟨⟨fifo', r.returned⟩, ?_, ?_⟩
    · rw [Receiver.step, stored, Option.map_some]
    · dsimp only [Refines, Reader.next]
      exact ⟨holds', same⟩
  | getc =>
    rcases a with ⟨_ | ⟨ch, unread⟩, returned⟩
    · refine ⟨⟨r.fifo, r.returned ++ [-1]⟩, ?_, holds, congrArg (· ++ [-1]) same⟩
      rw [Receiver.step, uartGetc_empty holds, Option.map_some]
    · obtain ⟨fifo', read, holds'⟩ := uartGetc_cons holds
      refine ⟨⟨fifo', r.returned ++ [(ch.toNat : Int)]⟩, ?_, holds', ?_⟩
      · rw [Receiver.step, read, Option.map_some]
      · exact congrArg (· ++ [(ch.toNat : Int)]) same

/-- Over every run of interrupts and calls no index leaves the buffer, the calls return what those
on a queue of the last unread bytes return, and the FIFO holds these bytes. -/
theorem receiver_refines (events : List Event) :
    ∃ r, run Receiver.step ⟨RxFifo.initial, []⟩ events = some r ∧
      Refines r (events.foldl Reader.next ⟨[], []⟩) :=
  run_refines Refines (fun related event => step_refines related event) ⟨holds_initial, rfl⟩ events

end T113Boot.Drivers.ReceiveQueue
