/- Module: T113Boot/Drivers/Frames
   layer: results
   digest: The buffers that the receive driver returns are the frames that arrived, in order. -/

import T113Boot.Drivers.Emac
import T113Boot.Lib.OwnedRing

set_option autoImplicit false
set_option relaxedAutoImplicit false

namespace T113Boot.Drivers.Frames

open T113Boot.Lib.OwnedRing
open T113Boot.Lib.Runs
open T113Boot.Drivers.Emac

variable {s s' : EmacDev} {allocated : Bool}

/-- The DMA writes into no descriptor that was just handed back and whose buffer is still to be
copied. -/
def Spares (s : EmacDev) : Event → Prop
  | .dma _ _ => (∃ len, s.pc = .invalidate len ∨ s.pc = .copy len) → s.dma ≠ s.index
  | _ => True

def owned (s : EmacDev) (i : Nat) : Bool := (s.pool i).owned

/-- A buffer holds a frame, and while the driver owns its descriptor this has the frame's length. -/
structure Holds (s : EmacDev) (i : Nat) (frame : List UInt8) : Prop where
  bytes : ∀ k (inside : k < frame.length), s.mem i k = frame[k]
  length : owned s i = false → frameLen (s.pool i).desc0 = frame.length

/-- The descriptor of the first frame is handed back, and the frame not yet copied. -/
def lent : Pc → Bool
  | .invalidate _ | .copy _ => true
  | _ => false

/-- A buffer that is filled and not yet returned. -/
def filled : Pc → List (List UInt8)
  | .advance puf | .count (some puf) | .exit _ (some puf) | .reset (some puf) | .enable (some puf)
  | .unmask (some puf) | .back (some puf) => [puf]
  | _ => []

/-- What the thread knows of the first frame in the ring. -/
def Knows (s : EmacDev) (q : List (List UInt8)) : Pc → Prop
  | .measure => q ≠ []
  | .alloc len | .handBack len | .invalidate len =>
    ∃ frame, q.head? = some frame ∧ len = frame.length
  | .copy len => ∃ frame, q.head? = some frame ∧ len = frame.length ∧
      ∀ k < len, s.view s.index k = s.mem s.index k
  | _ => True

/-- The driver's index before it goes on to the next descriptor, and otherwise. -/
def Stands (t index : Nat) : Pc → Prop
  | .advance _ => (index + 1) % emacDmaRxDescNum = t % emacDmaRxDescNum
  | _ => index = t % emacDmaRxDescNum

/-- The ring holds, from the driver's index to the DMA's, the frames that arrived and were not yet
taken out. -/
structure Ordered (s : EmacDev) (t : Nat) (q : List (List UInt8)) : Prop where
  ring : Backed emacDmaRxDescNum (owned s) (Holds s) t q (lent s.pc)
  wired : ∀ i < emacDmaRxDescNum, (s.pool i).desc2 = i ∧
    (s.pool i).desc3 = (i + 1) % emacDmaRxDescNum
  index : Stands t s.index s.pc
  dma : s.dma = (t + q.length) % emacDmaRxDescNum
  arrived : s.arrived = s.returned ++ filled s.pc ++ q
  knows : Knows s q s.pc

theorem ownBit_set : ((0x80000000 : UInt32) &&& ownBit != 0) = true := by decide

theorem setDesc_other (s : EmacDev) {i j : Nat} (desc0 : UInt32) (other : j ≠ i) :
    s.setDesc i desc0 j = s.pool j := if_neg other

theorem setDesc_self (s : EmacDev) (i : Nat) (desc0 : UInt32) :
    s.setDesc i desc0 i = { s.pool i with desc0 := desc0 } := if_pos rfl

theorem setDesc_wired (s : EmacDev) (i j : Nat) (desc0 : UInt32) :
    (s.setDesc i desc0 j).desc1 = (s.pool j).desc1 ∧
      (s.setDesc i desc0 j).desc2 = (s.pool j).desc2 ∧
      (s.setDesc i desc0 j).desc3 = (s.pool j).desc3 := by
  unfold EmacDev.setDesc
  split
  · rename_i same
    rw [same]
    exact ⟨rfl, rfl, rfl⟩
  · exact ⟨rfl, rfl, rfl⟩

theorem num_pos : 0 < emacDmaRxDescNum := Nat.succ_pos 127

theorem ordered_started (mem : Nat → Nat → UInt8) (cache : Nat → Nat → Option UInt8) :
    Ordered (started mem cache) 0 [] := by
  refine ⟨backed_nil 0 (fun _ _ => ownBit_set) num_pos, fun i inside => ⟨rfl, ?_⟩, rfl, rfl, rfl,
    trivial⟩
  show (if i + 1 < emacDmaRxDescNum then i + 1 else 0) = (i + 1) % emacDmaRxDescNum
  split
  · exact (Nat.mod_eq_of_lt ‹_›).symm
  · rw [show i + 1 = emacDmaRxDescNum by omega, Nat.mod_self]

section Thread

variable {t : Nat} {q : List (List UInt8)}

theorem Ordered.go {p p' : Pc} (ordered : Ordered s t q) (pc : s.pc = p) (pc' : s'.pc = p')
    (ring : s'.pool = s.pool ∧ s'.mem = s.mem ∧ s'.index = s.index ∧ s'.dma = s.dma)
    (frames : s'.arrived = s.arrived ∧ s'.returned = s.returned)
    (lends : lent p' = lent p) (fills : filled p' = filled p)
    (stands : ∀ index, Stands t index p → Stands t index p') (knows : Knows s' q p') :
    Ordered s' t q := by
  obtain ⟨pool, mem, index, dma⟩ := ring
  have own : owned s' = owned s := by
    funext i
    rw [owned, owned, pool]
  have backed := ordered.ring
  have arrived := ordered.arrived
  have place := ordered.index
  rw [pc] at backed arrived place
  refine ⟨?_, by rw [pool]; exact ordered.wired, by rw [index, pc']; exact stands _ place,
    by rw [dma]; exact ordered.dma, ?_, by rw [pc']; exact knows⟩
  · rw [own, pc', lends]
    refine backed.mono fun i frame holds => ⟨?_, ?_⟩
    · rw [mem]
      exact holds.bytes
    · rw [own, pool]
      exact holds.length
  · rw [frames.1, frames.2, pc', fills]
    exact arrived

/-- Where the driver looks, unless it is about to go on. -/
theorem Ordered.place (ordered : Ordered s t q) (here : ∀ puf, s.pc ≠ .advance puf) :
    s.index = t % emacDmaRxDescNum := by
  have stands := ordered.index
  unfold Stands at stands
  split at stands
  · rename_i puf pc
    exact absurd pc (here puf)
  · exact stands

/-- A descriptor that the DMA does not own has a frame for the driver. -/
theorem Ordered.check (ordered : Ordered s t q) (pc : s.pc = .check)
    (free : s.current.owned = false) : q ≠ [] := by
  have place := ordered.place fun puf => by rw [pc]; exact Pc.noConfusion
  refine ordered.ring.ne_nil num_pos ?_
  rw [← place]
  exact free

theorem Ordered.measure (ordered : Ordered s t q) (pc : s.pc = .measure) :
    ∃ frame, q.head? = some frame ∧ frameLen s.current.desc0 = frame.length := by
  have place := ordered.place fun puf => by rw [pc]; exact Pc.noConfusion
  have some := ordered.knows
  rw [pc] at some
  rcases q with _ | ⟨frame, q⟩
  · exact absurd rfl some
  · refine ⟨frame, rfl, ?_⟩
    have own := ordered.ring.first some
    have holds := ordered.ring.head
    rw [← place] at own holds
    rw [pc] at own
    exact holds.length own

/-- The descriptor is handed back before its buffer is copied. -/
theorem Ordered.handBack {len : Nat} (ordered : Ordered s t q) (pc : s.pc = .handBack len) :
    Ordered { s with pool := s.setDesc s.index 0x80000000, pc := .invalidate len } t q := by
  have place := ordered.place fun puf => by rw [pc]; exact Pc.noConfusion
  have knows := ordered.knows
  rw [pc] at knows
  have same (i : Nat) (other : i ≠ s.index) : s.setDesc s.index 0x80000000 i = s.pool i :=
    setDesc_other s 0x80000000 other
  have given : (s.setDesc s.index 0x80000000 s.index).owned = true := by
    rw [setDesc_self]
    exact ownBit_set
  refine ⟨?_, fun i inside => ?_, place, ordered.dma, ?_, knows⟩
  · have ring := ordered.ring
    rw [pc] at ring
    refine ring.handBack ?_ ?_ (fun i other => ?_) fun i frame holds =>
      ⟨holds.bytes, fun mine => ?_⟩
    · obtain ⟨frame, first, -⟩ := knows
      rintro rfl
      cases first
    · rw [← place]
      exact given
    · rw [← place] at other
      exact congrArg DmaDesc.owned (same i other)
    · have other : i ≠ s.index := by
        rintro rfl
        exact Bool.noConfusion (given.symm.trans mine)
      have mine' : owned s i = false := (congrArg DmaDesc.owned (same i other)).symm.trans mine
      show frameLen (s.setDesc s.index 0x80000000 i).desc0 = frame.length
      rw [same i other]
      exact holds.length mine'
  · obtain ⟨-, buffer, next⟩ := setDesc_wired s s.index i 0x80000000
    have wired := ordered.wired i inside
    rw [← buffer, ← next] at wired
    exact wired
  · have arrived := ordered.arrived
    rw [pc] at arrived
    exact arrived

theorem Ordered.invalidate {len : Nat} (ordered : Ordered s t q) (pc : s.pc = .invalidate len) :
    Ordered { s with
      cache := fun i k => if i = s.index ∧ k < len then none else s.cache i k
      pc := .copy len } t q := by
  have knows := ordered.knows
  rw [pc] at knows
  obtain ⟨frame, first, length⟩ := knows
  refine ordered.go pc rfl ⟨rfl, rfl, rfl, rfl⟩ ⟨rfl, rfl⟩ rfl rfl (fun _ => id)
    ⟨frame, first, length, fun k inside => ?_⟩
  show (if s.index = s.index ∧ k < len then none else s.cache s.index k).getD
    (s.mem s.index k) = s.mem s.index k
  rw [if_pos ⟨rfl, inside⟩]
  rfl

/-- The first frame is copied, and with that it is out of the ring. -/
theorem Ordered.copy {len : Nat} (ordered : Ordered s t q) (pc : s.pc = .copy len) :
    ∃ q', Ordered { s with pc := .advance ((List.range len).map (s.view s.index)) } (t + 1) q' := by
  have place := ordered.place fun puf => by rw [pc]; exact Pc.noConfusion
  have knows := ordered.knows
  have ring := ordered.ring
  have arrived := ordered.arrived
  rw [pc] at knows ring arrived
  obtain ⟨frame, first, length, seen⟩ := knows
  obtain ⟨q', rfl⟩ : ∃ q', q = frame :: q' := List.head?_eq_some_iff.mp first
  have holds := ring.head
  rw [← place] at holds
  have copied : (List.range len).map (s.view s.index) = frame := by
    have sized : ((List.range len).map (s.view s.index)).length = frame.length := by
      rw [List.length_map, List.length_range, length]
    refine List.ext_getElem sized fun k _ inside => ?_
    rw [List.getElem_map, List.getElem_range, seen k (by rw [length]; exact inside)]
    exact holds.bytes k inside
  refine ⟨q', ring.pop.mono fun i frame holds => ⟨holds.bytes, holds.length⟩, ordered.wired, ?_, ?_,
    ?_, trivial⟩
  · show (s.index + 1) % emacDmaRxDescNum = (t + 1) % emacDmaRxDescNum
    rw [place, Nat.mod_add_mod]
  · rw [ordered.dma, List.length_cons]
    congr 1
    omega
  · rw [copied, arrived]
    simp [filled]

/-- The index goes to the next descriptor. -/
theorem Ordered.advance {puf : List UInt8} (ordered : Ordered s t q) (pc : s.pc = .advance puf) :
    Ordered { s with index := (s.index + 1) % emacDmaRxDescNum, pc := .count (some puf) } t q := by
  have ring := ordered.ring
  have stands := ordered.index
  have arrived := ordered.arrived
  rw [pc] at ring stands arrived
  exact ⟨ring.mono fun i frame holds => ⟨holds.bytes, holds.length⟩, ordered.wired, stands,
    ordered.dma, arrived, trivial⟩

/-- A buffer is returned. -/
theorem Ordered.back {puf : List UInt8} (ordered : Ordered s t q) (pc : s.pc = .back (some puf)) :
    Ordered { s with returned := s.returned ++ [puf], pc := .check } t q := by
  have ring := ordered.ring
  have stands := ordered.index
  have arrived := ordered.arrived
  rw [pc] at ring stands arrived
  refine ⟨ring.mono fun i frame holds => ⟨holds.bytes, holds.length⟩, ordered.wired, stands,
    ordered.dma, ?_, trivial⟩
  rw [arrived]
  exact congrArg (· ++ q) (List.append_nil _).symm

theorem ordered_thread (ordered : Ordered s t q) (step : s.thread allocated = some s') :
    ∃ t' q', Ordered s' t' q' := by
  unfold EmacDev.thread at step
  cases pc : s.pc with
  | asleep =>
    simp only [pc] at step
    split at step
    · cases step
    · cases step
      exact ⟨t, q, ordered.go pc rfl ⟨rfl, rfl, rfl, rfl⟩ ⟨rfl, rfl⟩ rfl rfl (fun _ => id) trivial⟩
  | woken | reset puf | enable puf | unmask puf | count puf =>
    simp only [pc] at step
    cases step
    refine ⟨t, q, ordered.go pc rfl ⟨rfl, rfl, rfl, rfl⟩ ⟨rfl, rfl⟩ rfl ?_ (fun _ => id) trivial⟩
    first
      | rfl
      | rcases puf with _ | puf <;> rfl
  | check =>
    cases own : s.current.owned with
    | true =>
      simp only [pc, own, if_true] at step
      cases step
      exact ⟨t, q, ordered.go pc rfl ⟨rfl, rfl, rfl, rfl⟩ ⟨rfl, rfl⟩ rfl rfl (fun _ => id) trivial⟩
    | false =>
      simp only [pc, own, Bool.false_eq_true, if_false] at step
      cases step
      exact ⟨t, q, ordered.go pc rfl ⟨rfl, rfl, rfl, rfl⟩ ⟨rfl, rfl⟩ rfl rfl (fun _ => id)
        (ordered.check pc own)⟩
  | measure =>
    simp only [pc] at step
    cases step
    obtain ⟨frame, first, length⟩ := ordered.measure pc
    exact ⟨t, q, ordered.go pc rfl ⟨rfl, rfl, rfl, rfl⟩ ⟨rfl, rfl⟩ rfl rfl (fun _ => id)
      ⟨frame, first, length⟩⟩
  | alloc len =>
    simp only [pc] at step
    cases step
    have knows := ordered.knows
    rw [pc] at knows
    cases allocated with
    | true =>
      exact ⟨t, q, ordered.go pc rfl ⟨rfl, rfl, rfl, rfl⟩ ⟨rfl, rfl⟩ rfl rfl (fun _ => id) knows⟩
    | false =>
      exact ⟨t, q, ordered.go pc rfl ⟨rfl, rfl, rfl, rfl⟩ ⟨rfl, rfl⟩ rfl rfl (fun _ => id) trivial⟩
  | handBack len =>
    simp only [pc] at step
    cases step
    exact ⟨t, q, ordered.handBack pc⟩
  | invalidate len =>
    simp only [pc] at step
    cases step
    exact ⟨t, q, ordered.invalidate pc⟩
  | copy len =>
    simp only [pc] at step
    cases step
    obtain ⟨q', later⟩ := ordered.copy pc
    exact ⟨t + 1, q', later⟩
  | advance puf =>
    simp only [pc] at step
    cases step
    exact ⟨t, q, ordered.advance pc⟩
  | exit overFlag puf =>
    simp only [pc] at step
    cases step
    refine ⟨t, q, ?_⟩
    by_cases leaves : emacRxFrameMax < s.rxCount ∨ overFlag = true
    · exact ordered.go pc (if_pos leaves) ⟨rfl, rfl, rfl, rfl⟩ ⟨rfl, rfl⟩ rfl (by cases puf <;> rfl)
        (fun _ => id) trivial
    · exact ordered.go pc (if_neg leaves) ⟨rfl, rfl, rfl, rfl⟩ ⟨rfl, rfl⟩ rfl (by cases puf <;> rfl)
        (fun _ => id) trivial
  | back puf =>
    cases puf with
    | none =>
      simp only [pc] at step
      cases step
      exact ⟨t, q, ordered.go pc rfl ⟨rfl, rfl, rfl, rfl⟩ ⟨rfl, rfl⟩ rfl rfl (fun _ => id) trivial⟩
    | some puf =>
      simp only [pc] at step
      cases step
      exact ⟨t, q, ordered.back pc⟩

theorem lent_eq_true {p : Pc} (lends : lent p = true) :
    ∃ len, p = .invalidate len ∨ p = .copy len := by
  cases p with
  | invalidate len => exact ⟨len, .inl rfl⟩
  | copy len => exact ⟨len, .inr rfl⟩
  | _ => cases lends

/-- A descriptor that is handed back and not yet copied is not the DMA's next. -/
theorem Ordered.apart {frame : List UInt8} {desc0 : UInt32} (ordered : Ordered s t q)
    (spares : Spares s (.dma frame desc0)) (lends : lent s.pc = true) :
    s.dma ≠ s.index ∧ s.index = t % emacDmaRxDescNum := by
  obtain ⟨len, pc⟩ := lent_eq_true lends
  refine ⟨spares ⟨len, pc⟩, ordered.place fun puf => ?_⟩
  rcases pc with pc | pc
  · rw [pc]
    exact Pc.noConfusion
  · rw [pc]
    exact Pc.noConfusion

theorem knows_append (knows : Knows s q s.pc) (frame : List UInt8) (pc : s'.pc = s.pc)
    (index : s'.index = s.index)
    (same : lent s.pc = true → s'.mem s.index = s.mem s.index ∧ s'.cache = s.cache) :
    Knows s' (q ++ [frame]) s'.pc := by
  have first {f : List UInt8} (head : q.head? = some f) : (q ++ [frame]).head? = some f := by
    rw [List.head?_append, head]
    rfl
  rw [pc]
  cases here : s.pc with
  | measure => simp [Knows]
  | alloc len | handBack len | invalidate len =>
    rw [here] at knows
    obtain ⟨f, head, length⟩ := knows
    exact ⟨f, first head, length⟩
  | copy len =>
    rw [here] at knows
    obtain ⟨f, head, length, seen⟩ := knows
    obtain ⟨mem, cache⟩ := same (by rw [here]; rfl)
    refine ⟨f, first head, length, fun k inside => ?_⟩
    rw [index, EmacDev.view, mem, cache]
    exact seen k inside
  | _ => trivial

theorem ordered_dma {frame : List UInt8} {desc0 : UInt32} (ordered : Ordered s t q)
    (spares : Spares s (.dma frame desc0)) (step : s.dmaWrite frame desc0 = some s') :
    Ordered s' t (q ++ [frame]) := by
  unfold EmacDev.dmaWrite at step
  split at step
  · rename_i given
    obtain ⟨own, clear, length, -⟩ := given
    have inside : s.dma < emacDmaRxDescNum := by
      rw [ordered.dma]
      exact Nat.mod_lt _ num_pos
    obtain ⟨buffer, next⟩ := ordered.wired s.dma inside
    rw [buffer, next] at step
    have mem_other {i : Nat} (other : i ≠ s.dma) :
        (fun k => if i = s.dma then frame.getD k (s.mem i k) else s.mem i k) = s.mem i :=
      funext fun k => if_neg other
    have room : q.length < emacDmaRxDescNum := by
      refine ordered.ring.room num_pos ?_ fun lends => ?_
      · rw [← ordered.dma]
        exact own
      · obtain ⟨other, place⟩ := ordered.apart spares lends
        rw [← ordered.dma, ← place]
        exact other
    cases step
    refine ⟨?_, fun i bound => ?_, ordered.index, ?_, ?_, ?_⟩
    · refine ordered.ring.push room ?_ (fun i other => ?_) ?_ fun i other frame' holds => ?_
      · rw [← ordered.dma]
        show (s.setDesc s.dma desc0 s.dma).owned = false
        rw [setDesc_self, DmaDesc.owned, clear]
        rfl
      · rw [← ordered.dma] at other
        exact congrArg DmaDesc.owned (setDesc_other s desc0 other)
      · rw [← ordered.dma]
        refine ⟨fun k short => ?_, fun _ => ?_⟩
        · show (if s.dma = s.dma then frame.getD k (s.mem s.dma k) else s.mem s.dma k) = frame[k]
          rw [if_pos rfl, List.getD_eq_getElem?_getD, List.getElem?_eq_getElem short]
          rfl
        · show frameLen (s.setDesc s.dma desc0 s.dma).desc0 = frame.length
          rw [setDesc_self]
          exact length
      · rw [← ordered.dma] at other
        have same := setDesc_other s desc0 other
        refine ⟨fun k short => ?_, fun mine => ?_⟩
        · exact (congrFun (mem_other other) k).trans (holds.bytes k short)
        · show frameLen (s.setDesc s.dma desc0 i).desc0 = frame'.length
          rw [same]
          exact holds.length ((congrArg DmaDesc.owned same).symm.trans mine)
    · obtain ⟨-, buffer', next'⟩ := setDesc_wired s s.dma i desc0
      have wired := ordered.wired i bound
      rw [← buffer', ← next'] at wired
      exact wired
    · show (s.dma + 1) % emacDmaRxDescNum = (t + (q ++ [frame]).length) % emacDmaRxDescNum
      rw [ordered.dma, Nat.mod_add_mod, List.length_append]
      rfl
    · show s.arrived ++ [frame] = s.returned ++ filled s.pc ++ (q ++ [frame])
      rw [ordered.arrived, List.append_assoc]
    · refine knows_append ordered.knows frame rfl rfl fun lends => ⟨?_, rfl⟩
      obtain ⟨other, -⟩ := ordered.apart spares lends
      exact mem_other (Ne.symm other)
  · cases step

theorem ordered_fill (ordered : Ordered s t q) (i k : Nat) :
    Ordered { s with cache := fun j l => if j = i ∧ l = k then some (s.mem i k) else s.cache j l }
      t q := by
  refine ordered.go rfl rfl ⟨rfl, rfl, rfl, rfl⟩ ⟨rfl, rfl⟩ rfl rfl (fun _ => id) ?_
  have knows := ordered.knows
  cases here : s.pc with
  | copy len =>
    rw [here] at knows
    obtain ⟨frame, first, length, seen⟩ := knows
    refine ⟨frame, first, length, fun l inside => ?_⟩
    show (if s.index = i ∧ l = k then some (s.mem i k) else s.cache s.index l).getD
      (s.mem s.index l) = s.mem s.index l
    by_cases taken : s.index = i ∧ l = k
    · rw [if_pos taken, taken.1, taken.2]
      rfl
    · rw [if_neg taken]
      exact seen l inside
  | _ =>
    rw [here] at knows
    exact knows

theorem ordered_irq (ordered : Ordered s t q) (status : UInt32) :
    Ordered (s.emacIrqHandle status) t q := by
  unfold EmacDev.emacIrqHandle
  dsimp only
  split
  · unfold EmacDev.ethDeviceReady
    split
    · exact ordered.go rfl rfl ⟨rfl, rfl, rfl, rfl⟩ ⟨rfl, rfl⟩ rfl rfl (fun _ => id) ordered.knows
    · exact ordered.go rfl rfl ⟨rfl, rfl, rfl, rfl⟩ ⟨rfl, rfl⟩ rfl rfl (fun _ => id) ordered.knows
  · exact ordered.go rfl rfl ⟨rfl, rfl, rfl, rfl⟩ ⟨rfl, rfl⟩ rfl rfl (fun _ => id) ordered.knows

/-- A step in which the DMA spares a descriptor just handed back keeps the frames in order. -/
theorem ordered_step {event : Event} (ordered : Ordered s t q) (spares : Spares s event)
    (step : s.step event = some s') : ∃ t' q', Ordered s' t' q' := by
  cases event with
  | thread allocated => exact ordered_thread ordered step
  | irq status =>
    cases step
    exact ⟨t, q, ordered_irq ordered status⟩
  | dma frame desc0 => exact ⟨t, q ++ [frame], ordered_dma ordered spares step⟩
  | fill i k =>
    cases step
    exact ⟨t, q, ordered_fill ordered i k⟩

end Thread

/-- In every run in which the DMA spares the descriptors just handed back, the buffers returned are
the frames that arrived first, whole and in their order. -/
theorem returned_in_order {mem : Nat → Nat → UInt8} {cache : Nat → Nat → Option UInt8}
    {events : List Event} (meets : Along EmacDev.step Spares (started mem cache) events)
    (reached : run EmacDev.step (started mem cache) events = some s) :
    s.returned <+: s.arrived := by
  have keeps {s s' : EmacDev} {event : Event} (ordered : ∃ t q, Ordered s t q)
      (spares : Spares s event) (step : s.step event = some s') : ∃ t q, Ordered s' t q := by
    obtain ⟨t, q, ordered⟩ := ordered
    exact ordered_step ordered spares step
  obtain ⟨t, q, ordered⟩ := run_invariant_along (fun s => ∃ t q, Ordered s t q) keeps
    ⟨0, [], ordered_started mem cache⟩ meets reached
  rw [ordered.arrived, List.append_assoc]
  exact List.prefix_append _ _

/-- The thread stands before the copy of a frame whose descriptor it has handed back. -/
def copying : Pc → Bool
  | .invalidate _ | .copy _ => true
  | _ => false

theorem copying_iff (pc : Pc) :
    copying pc = true ↔ ∃ len, pc = .invalidate len ∨ pc = .copy len := by
  cases pc <;> simp [copying]

instance (s : EmacDev) : ∀ event, Decidable (Spares s event)
  | .dma _ _ => decidable_of_iff (copying s.pc = true → s.dma ≠ s.index)
      (imp_congr_left (copying_iff s.pc))
  | .thread _ | .irq _ | .fill _ _ => inferInstanceAs (Decidable True)

/-- Two frames come, and while the first one is copied a third; for the second one there is no
buffer at first, so that it waits for the next interrupt. -/
def threeFrames : List Event :=
  [.dma [0x5A] 0x00010000, .dma [0x11, 0x22] 0x00020000, .irq rxInt] ++
    List.replicate 6 (.thread true) ++ .dma [0x33] 0x00010000 :: List.replicate 8 (.thread true) ++
    .thread false :: List.replicate 3 (.thread true) ++ .irq rxInt :: List.replicate 22 (.thread true)

private theorem threeFrames_run : (run EmacDev.step blank threeFrames).map EmacDev.returned =
    some [[0x5A], [0x11, 0x22], [0x33]] := by
  decide +kernel

theorem returned_in_order_threeFrames : ∃ s, run EmacDev.step blank threeFrames = some s ∧
    s.returned = [[0x5A], [0x11, 0x22], [0x33]] ∧ s.returned <+: s.arrived := by
  obtain ⟨s, reached, returned⟩ := Option.map_eq_some_iff.mp threeFrames_run
  have spares : Along EmacDev.step Spares blank threeFrames := by decide +kernel
  exact ⟨s, reached, returned, returned_in_order spares reached⟩

/-- The whole ring is filled, and the next frame comes just when the first descriptor is handed
back. -/
def backlog : List Event :=
  List.replicate 128 (.dma [0x11] 0x00010000) ++ .irq rxInt :: List.replicate 6 (.thread true) ++
    .dma [0x22] 0x00010000 :: List.replicate 6 (.thread true)

private theorem backlog_run : (run EmacDev.step blank backlog).map
    (fun s => (s.returned, s.arrived.head?)) = some ([[0x22]], some [0x11]) := by
  decide +kernel

theorem handed_back_too_early : ∃ s, run EmacDev.step blank backlog = some s ∧
    s.returned = [[0x22]] ∧ s.arrived.head? = some [0x11] ∧ ¬ s.returned <+: s.arrived := by
  obtain ⟨s, reached, seen⟩ := Option.map_eq_some_iff.mp backlog_run
  obtain ⟨returned, arrived⟩ := Prod.mk.inj seen
  refine ⟨s, reached, returned, arrived, fun ordered => ?_⟩
  obtain ⟨rest, split⟩ := ordered
  rw [← split, returned] at arrived
  have same : ([0x22] : List UInt8) = [0x11] := Option.some.inj arrived
  exact absurd same (by decide)

end T113Boot.Drivers.Frames
