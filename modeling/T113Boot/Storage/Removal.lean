/- Module: T113Boot/Storage/Removal
   layer: specification
   digest: The registry under additions and removals mirrors the ledger of what is registered. -/

import T113Boot.Storage.Effects
import Mathlib.Data.List.Find
import Mathlib.Data.List.InsertIdx
import Mathlib.Data.List.Nodup

set_option autoImplicit false
set_option relaxedAutoImplicit false

namespace T113Boot.Storage.Removal

open T113Boot.Lib.LittleEndian
open T113Boot.Storage.Table
open T113Boot.Storage.Names
open T113Boot.Storage.Effects

variable {σ : Type}

/-- A device as it was registered. -/
structure Drive (σ : Type) where
  name : CName
  ops : PartitionDevOps σ
  size : UInt32

/-- A partition as it was registered. -/
structure Placing where
  name : CName
  dev : CName
  start : UInt32
  size : UInt32

structure Ledger (σ : Type) where
  devices : List (Drive σ)
  partitions : List Placing

def Ledger.empty : Ledger σ := ⟨[], []⟩

/-- A call that changes the registry. -/
inductive Call (σ : Type) where
  | deviceRegister (devName : CName) (ops : PartitionDevOps σ) (size : UInt32)
  | register (partitionName devName : CName) (start size : UInt32)
  | unregister (partitionName : CName)
  | deviceUnregister (devName : CName)

def Call.run (reg : Registry σ) : Call σ → Option (Int × Registry σ)
  | .deviceRegister devName ops size =>
    some (partitionDeviceRegister reg (some devName.chars) (some ops) size)
  | .register partitionName devName start size =>
    some (partitionRegister reg (some partitionName.chars) (some devName.chars) start size)
  | .unregister partitionName => partitionUnregister reg (some partitionName.chars)
  | .deviceUnregister devName => partitionDeviceUnregister reg (some devName.chars)

/-- What a call that succeeds is there to do. -/
def Ledger.record (l : Ledger σ) : Call σ → Ledger σ
  | .deviceRegister devName ops size => { l with devices := l.devices ++ [⟨devName, ops, size⟩] }
  | .register partitionName devName start size =>
    { l with partitions := l.partitions ++ [⟨partitionName, devName, start, size⟩] }
  | .unregister partitionName =>
    { l with partitions := l.partitions.filter fun p => p.name.chars ≠ partitionName.chars }
  | .deviceUnregister devName =>
    { devices := l.devices.filter fun d => d.name.chars ≠ devName.chars
      partitions := l.partitions.filter fun p => p.dev.chars ≠ devName.chars }

/-- The tables and the ledger after some calls. -/
def perform : List (Call σ) → Registry σ → Ledger σ → Option (Registry σ × Ledger σ)
  | [], reg, l => some (reg, l)
  | call :: calls, reg, l =>
    match call.run reg with
    | none => none
    | some (ret, reg') => perform calls reg' (if ret = partitionOk then l.record call else l)

/-- Names that no lookup takes for one another. -/
structure Plain (names : List CName) : Prop where
  nonempty : ∀ n ∈ names, n.chars ≠ []
  short : ∀ n ∈ names, n.chars.length < partitionNameMax
  apart : ∀ n ∈ names, ∀ m ∈ names, n.chars <+: m.chars → n.chars = m.chars

theorem Plain.matched {names : List CName} (plain : Plain names) {s n : CName} (hs : s ∈ names)
    (hn : n ∈ names) (rest : List UInt8) :
    partitionStrncmp s.chars (storedName n.chars ++ rest) s.chars.length = 0 ↔
      n.chars = s.chars := by
  have short := plain.short s hs
  rw [partitionStrncmp_eq_zero s.noNul, prefix_stored s.noNul (by omega)]
  constructor
  · exact fun h => (plain.apart s hs n hn h).symm
  · intro same
    rw [same]

theorem Plain.stored_inj {names : List CName} (plain : Plain names) {s n : CName} (hs : s ∈ names)
    (hn : n ∈ names) (h : storedName s.chars = storedName n.chars) : s.chars = n.chars := by
  have first := takeWhile_stored s.noNul (plain.short s hs) []
  have second := takeWhile_stored n.noNul (plain.short n hn) []
  rw [h] at first
  exact first.symm.trans second

theorem eraseIdx_eq_filter {α : Type} {p : α → Bool} {l : List α} {k : Nat}
    (h : ∀ j a, l[j]? = some a → (p a = true ↔ j ≠ k)) : l.eraseIdx k = l.filter p := by
  induction l generalizing k with
  | nil => rfl
  | cons a l ih =>
    have first := h 0 a rfl
    rcases k with _ | k
    · have drop : p a = false := by simpa using first
      have all : l.filter p = l := by
        rw [List.filter_eq_self]
        intro b member
        obtain ⟨j, at_j⟩ := List.getElem?_of_mem member
        exact (h (j + 1) b (by rw [List.getElem?_cons_succ]; exact at_j)).mpr (by omega)
      rw [List.eraseIdx_cons_zero, List.filter_cons, drop, if_neg (by simp), all]
    · have keep : p a = true := first.mpr (by omega)
      rw [List.eraseIdx_cons_succ, List.filter_cons, keep, if_pos rfl, ih fun j b at_j => ?_]
      have there := h (j + 1) b (by rw [List.getElem?_cons_succ]; exact at_j)
      rw [there]
      omega

theorem slot_of_key {α β : Type} {f : α → β} {l : List α} (distinct : (l.map f).Nodup) {i j : Nat}
    {a b : α} (hi : l[i]? = some a) (hj : l[j]? = some b) : f a = f b ↔ i = j := by
  constructor
  · intro same
    obtain ⟨inside, -⟩ := List.getElem?_eq_some_iff.mp hi
    refine (List.getElem?_inj (by rw [List.length_map]; exact inside) distinct).mp ?_
    rw [List.getElem?_map, List.getElem?_map, hi, hj, Option.map_some, Option.map_some, same]
  · rintro rfl
    rw [hi] at hj
    rw [Option.some.inj hj]

/-- A slot holds what was registered. -/
def Holds (devs : List (Drive σ × PartitionDevice σ)) (e : Placing × Partition) : Prop :=
  e.2.name = storedName e.1.name.chars ∧ e.2.start = e.1.start ∧ e.2.size = e.1.size ∧
    ∃ d, devs[e.2.dev]? = some d ∧ d.1.name.chars = e.1.dev.chars

/-- Slot by slot the two tables hold what the ledger lists, in its order. The stored number of a
device is its slot; that of a partition need not be. -/
structure Mirrors (dn pn : List CName) (reg : Registry σ) (l : Ledger σ)
    (devs : List (Drive σ × PartitionDevice σ)) (parts : List (Placing × Partition)) : Prop where
  devices : reg.devices = devs.map (·.2)
  drives : l.devices = devs.map (·.1)
  partitions : reg.partitions = parts.map (·.2)
  placings : l.partitions = parts.map (·.1)
  device : ∀ (i : Nat) (e : Drive σ × PartitionDevice σ), devs[i]? = some e →
    e.2 = ⟨storedName e.1.name.chars, e.1.size, e.1.ops, .ofNat i⟩
  partition : ∀ e ∈ parts, Holds devs e
  deviceNames : (devs.map (·.1.name.chars)).Nodup
  partitionNames : (parts.map (·.1.name.chars)).Nodup
  knownDevices : ∀ e ∈ devs, e.1.name ∈ dn
  knownPartitions : ∀ e ∈ parts, e.1.name ∈ pn
  fewDevices : devs.length ≤ partitionDevMax

section Mirrors

variable {dn pn : List CName} {reg : Registry σ} {l : Ledger σ}
  {devs : List (Drive σ × PartitionDevice σ)} {parts : List (Placing × Partition)}

private theorem findIdx_congr {α : Type} {l : List α} {p q : α → Bool}
    (same : ∀ a ∈ l, p a = q a) : l.findIdx? p = l.findIdx? q := by
  induction l with
  | nil => rfl
  | cons a l ih =>
    rw [List.findIdx?_cons, List.findIdx?_cons, same a List.mem_cons_self,
      ih fun b member => same b (List.mem_cons_of_mem _ member)]

theorem Mirrors.find (m : Mirrors dn pn reg l devs parts) (plain : Plain pn) {s : CName}
    (hs : s ∈ pn) :
    partitionFind reg s.chars = (parts.find? fun e => e.1.name.chars = s.chars).map (·.2) := by
  rw [partitionFind, m.partitions, List.find?_map]
  congr 1
  apply List.find?_congr
  intro e member
  have stored := (m.partition e member).1
  rw [Function.comp_apply, decide_eq_decide, Partition.bytes, stored]
  exact plain.matched hs (m.knownPartitions e member) _

theorem Mirrors.deviceFind (m : Mirrors dn pn reg l devs parts) (plain : Plain dn) {s : CName}
    (hs : s ∈ dn) :
    partitionDeviceFind reg s.chars = devs.findIdx? fun e => e.1.name.chars = s.chars := by
  rw [partitionDeviceFind, m.devices, List.findIdx?_map]
  apply findIdx_congr
  intro e member
  obtain ⟨i, at_i⟩ := List.getElem?_of_mem member
  have slot := m.device i e at_i
  rw [Function.comp_apply, decide_eq_decide, PartitionDevice.bytes, slot]
  exact plain.matched hs (m.knownDevices e member) _

theorem Mirrors.deviceFind_some (m : Mirrors dn pn reg l devs parts) (plain : Plain dn) {s : CName}
    (hs : s ∈ dn) {slot : Nat} (found : partitionDeviceFind reg s.chars = some slot) :
    ∃ d, devs[slot]? = some d ∧ d.1.name.chars = s.chars := by
  rw [m.deviceFind plain hs] at found
  obtain ⟨inside, same, -⟩ := List.findIdx?_eq_some_iff_getElem.mp found
  exact ⟨devs[slot], List.getElem?_eq_getElem inside, of_decide_eq_true same⟩

theorem Mirrors.find_none (m : Mirrors dn pn reg l devs parts) (plain : Plain pn) {s : CName}
    (hs : s ∈ pn) (none : partitionFind reg s.chars = none) :
    s.chars ∉ parts.map (·.1.name.chars) := by
  rw [m.find plain hs, Option.map_eq_none_iff, List.find?_eq_none] at none
  intro listed
  obtain ⟨e, member, same⟩ := List.mem_map.mp listed
  exact none e member (decide_eq_true same)

theorem Mirrors.deviceFind_none (m : Mirrors dn pn reg l devs parts) (plain : Plain dn) {s : CName}
    (hs : s ∈ dn) (none : partitionDeviceFind reg s.chars = none) :
    s.chars ∉ devs.map (·.1.name.chars) := by
  rw [m.deviceFind plain hs, List.findIdx?_eq_none_iff] at none
  intro listed
  obtain ⟨e, member, same⟩ := List.mem_map.mp listed
  have differs := none e member
  rw [decide_eq_false_iff_not] at differs
  exact differs same

/-- A slot behind more devices holds what it held. -/
theorem Holds.append {e : Placing × Partition} (h : Holds devs e)
    (more : List (Drive σ × PartitionDevice σ)) : Holds (devs ++ more) e := by
  obtain ⟨name, start, size, d, there, dev⟩ := h
  obtain ⟨inside, -⟩ := List.getElem?_eq_some_iff.mp there
  exact ⟨name, start, size, d, by rw [List.getElem?_append_left inside]; exact there, dev⟩

private theorem nodup_concat {β : Type} {l : List β} {b : β} (distinct : l.Nodup) (fresh : b ∉ l) :
    (l ++ [b]).Nodup := by
  rw [List.nodup_append]
  refine ⟨distinct, List.nodup_singleton b, fun a ha c hc same => ?_⟩
  rw [List.mem_singleton.mp hc] at same
  exact fresh (same ▸ ha)

theorem Mirrors.addDevice (m : Mirrors dn pn reg l devs parts) {devName : CName}
    (known : devName ∈ dn) (plain : Plain dn) (ops : PartitionDevOps σ) (size : UInt32)
    (room : reg.devices.length < partitionDevMax)
    (fresh : partitionDeviceFind reg devName.chars = none) :
    Mirrors dn pn { reg with
        devices := reg.devices ++ [newDevice reg devName.chars ops size]
        freedDevices := reg.freedDevices.tail }
      (l.record (.deviceRegister devName ops size))
      (devs ++ [(⟨devName, ops, size⟩, newDevice reg devName.chars ops size)]) parts := by
  have length : reg.devices.length = devs.length := by rw [m.devices, List.length_map]
  refine ⟨?_, ?_, m.partitions, m.placings, ?_, fun e member => (m.partition e member).append _, ?_,
    m.partitionNames, ?_, m.knownPartitions, ?_⟩
  · simp [m.devices]
  · simp [Ledger.record, m.drives]
  · intro i e at_i
    rw [List.getElem?_append] at at_i
    split at at_i
    · exact m.device i e at_i
    · rename_i past
      rw [List.getElem?_singleton] at at_i
      split at at_i
      · cases at_i
        rw [newDevice, length, show i = devs.length by omega]
      · cases at_i
  · rw [List.map_append, List.map_singleton]
    exact nodup_concat m.deviceNames (m.deviceFind_none plain known fresh)
  · intro e member
    rcases List.mem_append.mp member with old | new
    · exact m.knownDevices e old
    · rw [List.mem_singleton.mp new]
      exact known
  · rw [List.length_append, List.length_singleton]
    omega

theorem Mirrors.addPartition (m : Mirrors dn pn reg l devs parts) {partitionName devName : CName}
    (known : partitionName ∈ pn) (plain : Plain pn) (onKnown : devName ∈ dn) (plainDevs : Plain dn)
    (start size : UInt32) {slot : Nat} (dev : partitionDeviceFind reg devName.chars = some slot)
    (fresh : partitionFind reg partitionName.chars = none) :
    Mirrors dn pn { reg with
        partitions := reg.partitions ++ [newPartition reg partitionName.chars start size slot]
        freed := reg.freed.tail }
      (l.record (.register partitionName devName start size)) devs
      (parts ++ [(⟨partitionName, devName, start, size⟩,
        newPartition reg partitionName.chars start size slot)]) := by
  refine ⟨m.devices, m.drives, ?_, ?_, m.device, ?_, m.deviceNames, ?_, m.knownDevices, ?_,
    m.fewDevices⟩
  · simp [m.partitions]
  · simp [Ledger.record, m.placings]
  · intro e member
    rcases List.mem_append.mp member with old | new
    · exact m.partition e old
    · rw [List.mem_singleton.mp new]
      exact ⟨rfl, rfl, rfl, m.deviceFind_some plainDevs onKnown dev⟩
  · rw [List.map_append, List.map_singleton]
    exact nodup_concat m.partitionNames (m.find_none plain known fresh)
  · intro e member
    rcases List.mem_append.mp member with old | new
    · exact m.knownPartitions e old
    · rw [List.mem_singleton.mp new]
      exact known

theorem Mirrors.keep (m : Mirrors dn pn reg l devs parts) {reg' : Registry σ} {l' : Ledger σ}
    (p : Placing × Partition → Bool) (q : Placing → Bool) (same : ∀ e ∈ parts, p e = q e.1)
    (devices : reg'.devices = reg.devices) (drives : l'.devices = l.devices)
    (partitions : reg'.partitions = (parts.filter p).map (·.2))
    (placings : l'.partitions = l.partitions.filter q) :
    Mirrors dn pn reg' l' devs (parts.filter p) := by
  refine ⟨devices.trans m.devices, drives.trans m.drives, partitions, ?_, m.device, ?_, m.deviceNames,
    ?_, m.knownDevices, ?_, m.fewDevices⟩
  · rw [placings, m.placings, List.filter_map]
    congr 1
    exact List.filter_congr fun e member => (same e member).symm
  · exact fun e member => m.partition e (List.mem_of_mem_filter member)
  · exact m.partitionNames.sublist (List.filter_sublist.map _)
  · exact fun e member => m.knownPartitions e (List.mem_of_mem_filter member)

theorem Mirrors.length (m : Mirrors dn pn reg l devs parts) : reg.devices.length = devs.length := by
  rw [m.devices, List.length_map]

theorem Mirrors.find_some (m : Mirrors dn pn reg l devs parts) (plain : Plain pn) {s : CName}
    (hs : s ∈ pn) {part : Partition} (found : partitionFind reg s.chars = some part) :
    ∃ e ∈ parts, e.2 = part ∧ e.1.name.chars = s.chars := by
  rw [m.find plain hs, Option.map_eq_some_iff] at found
  obtain ⟨e, first, same⟩ := found
  exact ⟨e, List.mem_of_find?_eq_some first, same, by simpa using List.find?_some first⟩

theorem Mirrors.find_entry (m : Mirrors dn pn reg l devs parts) (plain : Plain pn)
    {e : Placing × Partition} (member : e ∈ parts) :
    partitionFind reg e.1.name.chars = some e.2 := by
  have known := m.knownPartitions e member
  rcases found : partitionFind reg e.1.name.chars with _ | part
  · exact absurd (List.mem_map.mpr ⟨e, member, rfl⟩) (m.find_none plain known found)
  · obtain ⟨other, listed, same, own⟩ := m.find_some plain known found
    rw [← same, List.inj_on_of_nodup_map m.partitionNames listed member own]

theorem Mirrors.cname_entry (m : Mirrors dn pn reg l devs parts) (plain : Plain pn)
    {e : Placing × Partition} (member : e ∈ parts) : e.2.cname reg.devTable = e.1.name.chars := by
  rw [Partition.cname, Partition.bytes, (m.partition e member).1]
  exact takeWhile_stored e.1.name.noNul (plain.short _ (m.knownPartitions e member)) _

/-- The entry found by `name` stands at the slot of its stored number. -/
def InPlace (reg : Registry σ) (name : CName) : Prop :=
  ∀ part, partitionFind reg name.chars = some part → reg.partitions[part.id.toNat]? = some part

theorem Mirrors.erased_partitions (m : Mirrors dn pn reg l devs parts) (plain : Plain pn)
    {s : CName} (hs : s ∈ pn) {part : Partition} (found : partitionFind reg s.chars = some part)
    (there : reg.partitions[part.id.toNat]? = some part) :
    (erased reg part.id.toNat).partitions =
      (parts.filter fun e => e.1.name.chars ≠ s.chars).map (·.2) := by
  obtain ⟨named, member, same, own⟩ := m.find_some plain hs found
  rw [m.partitions, List.getElem?_map, Option.map_eq_some_iff] at there
  obtain ⟨e, at_id, slot⟩ := there
  -- the entry at the number has the bytes of the entry found, so it has its name
  have name : e.1.name.chars = s.chars := by
    have listed := List.mem_of_getElem? at_id
    have array := (m.partition e listed).1
    rw [slot, ← same, (m.partition named member).1] at array
    exact (plain.stored_inj (m.knownPartitions named member) (m.knownPartitions e listed)
      array).symm.trans own
  dsimp only [erased]
  rw [m.partitions, List.eraseIdx_map]
  congr 1
  apply eraseIdx_eq_filter
  intro j a at_j
  rw [decide_eq_true_eq, ← name]
  exact not_congr (slot_of_key (f := fun e : Placing × Partition => e.1.name.chars)
    m.partitionNames at_j at_id)

/-- Removing a partition that stands at its number removes it and no other. -/
theorem Mirrors.unregister (m : Mirrors dn pn reg l devs parts) (plain : Plain pn) {s : CName}
    (hs : s ∈ pn) (inPlace : InPlace reg s) :
    (partitionUnregister reg (some s.chars) = some (partitionErrNoexist, reg)) ∨
    ∃ reg', partitionUnregister reg (some s.chars) = some (partitionOk, reg') ∧
      Mirrors dn pn reg' (l.record (.unregister s)) devs
        (parts.filter fun e => e.1.name.chars ≠ s.chars) := by
  rcases found : partitionFind reg s.chars with _ | part
  · exact .inl (partitionUnregister_unknown found)
  · have there := inPlace part found
    obtain ⟨inside, -⟩ := List.getElem?_eq_some_iff.mp there
    refine .inr ⟨_, partitionUnregister_found found inside, ?_⟩
    exact m.keep _ (fun p => p.name.chars ≠ s.chars) (fun e member => rfl) rfl rfl
      (m.erased_partitions plain hs found there) rfl

/-- What the loop of a device removal needs of the tables: the device is the last one, at most one
partition is on it, which stands at its number within the slots visited, and where a freed slot
within them still points at the device, no other device has a partition. -/
structure Removable (reg : Registry σ) (slot : Nat) : Prop where
  last : slot + 1 = reg.devices.length
  single : ∀ (i : Nat) (part : Partition), reg.partitions[i]? = some part → part.dev = slot →
    i < reg.devices.length ∧ part.id.toNat = i ∧
      ∀ (j : Nat) (other : Partition), reg.partitions[j]? = some other → other.dev = slot → j = i
  noGhost : ∀ (i : Nat) (freed : Partition), reg.freed[i]? = some freed →
    reg.partitions.length + i < reg.devices.length → freed.dev = slot →
      ∀ part ∈ reg.partitions, part.dev = slot

theorem Mirrors.loop_at (m : Mirrors dn pn reg l devs parts) (plain : Plain pn) {i : Nat}
    {part : Partition} (at_i : reg.partitions[i]? = some part) (number : part.id.toNat = i)
    (rest : Nat) : unregisterOn part.dev (rest + 1) i reg =
      unregisterOn part.dev rest (i + 1) (erased reg i) := by
  obtain ⟨inside, -⟩ := List.getElem?_eq_some_iff.mp at_i
  have listed := at_i
  rw [m.partitions, List.getElem?_map, Option.map_eq_some_iff] at listed
  obtain ⟨e, entry, same⟩ := listed
  have member := List.mem_of_getElem? entry
  have found := m.find_entry plain member
  rw [← m.cname_entry plain member, same] at found
  have removed := partitionUnregister_found found (by omega)
  rw [number] at removed
  rw [unregisterOn, List.getElem?_append_left inside, at_i]
  dsimp only
  rw [if_pos rfl, removed]

section Removable

variable {slot i : Nat} {part : Partition}

theorem Removable.loop_before (removable : Removable reg slot)
    (at_i : reg.partitions[i]? = some part) (own : part.dev = slot) :
    unregisterOn slot i 0 reg = some reg := by
  obtain ⟨-, -, alone⟩ := removable.single i part at_i own
  obtain ⟨inside, -⟩ := List.getElem?_eq_some_iff.mp at_i
  refine unregisterOn_others fun j other _ to_i at_j on_slot => ?_
  rw [List.getElem?_append_left (by omega)] at at_j
  have same := alone j other at_j on_slot
  omega

theorem Removable.erased_partitions (removable : Removable reg slot)
    (at_i : reg.partitions[i]? = some part) (own : part.dev = slot) :
    (erased reg i).partitions = reg.partitions.filter fun p => p.dev ≠ slot := by
  obtain ⟨-, -, alone⟩ := removable.single i part at_i own
  apply eraseIdx_eq_filter
  intro j other at_j
  rw [decide_eq_true_eq]
  constructor
  · rintro elsewhere rfl
    rw [at_i] at at_j
    cases at_j
    exact elsewhere own
  · exact fun differs on_slot => differs (alone j other at_j on_slot)

theorem Removable.loop_behind (removable : Removable reg slot)
    (at_i : reg.partitions[i]? = some part) (own : part.dev = slot) {rest : Nat}
    (length : reg.devices.length = i + rest + 1) :
    unregisterOn slot rest (i + 1) (erased reg i) = some (erased reg i) := by
  have kept := removable.erased_partitions at_i own
  obtain ⟨inside, -⟩ := List.getElem?_eq_some_iff.mp at_i
  by_cases empty : (erased reg i).partitions = []
  · exact unregisterOn_empty empty
  · refine unregisterOn_others fun j other from_i to_n at_j on_slot => ?_
    obtain ⟨p, member⟩ := List.exists_mem_of_ne_nil _ empty
    rw [kept, List.mem_filter, decide_eq_true_eq] at member
    have shorter : (erased reg i).partitions.length = reg.partitions.length - 1 :=
      List.length_eraseIdx_of_lt inside
    rw [List.getElem?_append] at at_j
    split at at_j
    · have left := List.mem_of_getElem? at_j
      rw [kept, List.mem_filter, decide_eq_true_eq] at left
      exact left.2 on_slot
    · -- the slot just freed keeps what the last entry stored, those behind it are ghosts
      obtain ⟨final, last⟩ : ∃ final, reg.partitions.getLast? = some final :=
        ⟨_, List.getLast?_eq_some_getLast (List.ne_nil_of_mem member.1)⟩
      rw [shorter] at at_j
      simp only [erased, last, Option.map_some, Option.toList_some, List.singleton_append] at at_j
      rcases past : j - (reg.partitions.length - 1) with _ | k
      · rw [past, List.getElem?_cons_zero] at at_j
        cases at_j
        rw [List.getLast?_eq_getElem?] at last
        obtain ⟨-, -, alone⟩ := removable.single i part at_i own
        have same := alone _ final last on_slot
        omega
      · rw [past, List.getElem?_cons_succ] at at_j
        exact member.2 (removable.noGhost k other at_j (by omega) on_slot p member.1)

theorem Removable.loop_none (removable : Removable reg slot)
    (others : ∀ p ∈ reg.partitions, p.dev ≠ slot) :
    unregisterOn slot reg.devices.length 0 reg = some reg := by
  by_cases empty : reg.partitions = []
  · exact unregisterOn_empty empty
  · obtain ⟨p, member⟩ := List.exists_mem_of_ne_nil _ empty
    refine unregisterOn_others fun j part _ to_n at_j on_slot => ?_
    rw [List.getElem?_append] at at_j
    split at at_j
    · exact others part (List.mem_of_getElem? at_j) on_slot
    · exact others p member (removable.noGhost _ part at_j (by omega) on_slot p member)

end Removable

/-- The loop removes the partition of such a device, if it has one. -/
theorem Mirrors.loop (m : Mirrors dn pn reg l devs parts) (plain : Plain pn) {slot : Nat}
    (removable : Removable reg slot) :
    ∃ reg', unregisterOn slot reg.devices.length 0 reg = some reg' ∧
      reg'.devices = reg.devices ∧ reg'.freedDevices = reg.freedDevices ∧
      reg'.partitions = reg.partitions.filter fun p => p.dev ≠ slot := by
  by_cases one : ∃ (i : Nat) (part : Partition), reg.partitions[i]? = some part ∧ part.dev = slot
  · obtain ⟨i, part, at_i, own⟩ := one
    obtain ⟨reach, number, -⟩ := removable.single i part at_i own
    obtain ⟨rest, length⟩ := Nat.exists_eq_add_of_lt reach
    have at_slot := m.loop_at plain at_i number rest
    rw [own] at at_slot
    refine ⟨erased reg i, ?_, rfl, rfl, removable.erased_partitions at_i own⟩
    rw [length, show i + rest + 1 = i + (rest + 1) by omega, unregisterOn_add,
      removable.loop_before at_i own, Option.bind_some, Nat.zero_add, at_slot,
      removable.loop_behind at_i own length]
  · have others : ∀ p ∈ reg.partitions, p.dev ≠ slot := by
      intro p member on_slot
      obtain ⟨i, at_i⟩ := List.getElem?_of_mem member
      exact one ⟨i, p, at_i, on_slot⟩
    refine ⟨reg, removable.loop_none others, rfl, rfl, ?_⟩
    symm
    rw [List.filter_eq_self]
    exact fun p member => decide_eq_true (others p member)

theorem Mirrors.dropDevice (m : Mirrors dn pn reg l devs parts) {slot : Nat}
    (last : slot + 1 = reg.devices.length) {d : Drive σ × PartitionDevice σ}
    (there : devs[slot]? = some d) (left : ∀ e ∈ parts, e.2.dev ≠ slot) {reg' : Registry σ}
    (devices : reg'.devices = reg.devices.dropLast) (partitions : reg'.partitions = reg.partitions) :
    Mirrors dn pn reg' { l with
        devices := l.devices.filter fun e => e.name.chars ≠ d.1.name.chars } devs.dropLast parts := by
  have length := m.length
  have dropped : devs.dropLast = devs.filter fun e => e.1.name.chars ≠ d.1.name.chars := by
    rw [List.dropLast_eq_eraseIdx (i := slot) (by omega)]
    apply eraseIdx_eq_filter
    intro j e at_j
    rw [decide_eq_true_eq]
    exact not_congr (slot_of_key (f := fun e : Drive σ × PartitionDevice σ => e.1.name.chars)
      m.deviceNames at_j there)
  have kept {i : Nat} (before : i ≠ slot) {e : Drive σ × PartitionDevice σ}
      (h : devs[i]? = some e) : devs.dropLast[i]? = some e := by
    obtain ⟨inside, -⟩ := List.getElem?_eq_some_iff.mp h
    rw [List.getElem?_dropLast, if_pos (by omega)]
    exact h
  refine ⟨?_, ?_, partitions.trans m.partitions, m.placings, ?_, ?_, ?_, m.partitionNames, ?_,
    m.knownPartitions, ?_⟩
  · rw [devices, m.devices, List.map_dropLast]
  · rw [m.drives, dropped, List.filter_map]
    rfl
  · intro i e at_i
    rw [List.getElem?_dropLast] at at_i
    split at at_i
    · exact m.device i e at_i
    · cases at_i
  · intro e member
    obtain ⟨name, start, size, drive, at_dev, dev⟩ := m.partition e member
    exact ⟨name, start, size, drive, kept (left e member) at_dev, dev⟩
  · rw [List.map_dropLast]
    exact m.deviceNames.sublist (List.dropLast_sublist _)
  · exact fun e member => m.knownDevices e ((List.dropLast_sublist _).mem member)
  · rw [List.length_dropLast]
    exact Nat.le_trans (Nat.sub_le _ _) m.fewDevices

/-- A device with what `Removable` says goes with its partition, and nothing else does. -/
theorem Mirrors.deviceUnregister (m : Mirrors dn pn reg l devs parts) (plainDevs : Plain dn)
    (plain : Plain pn) {s : CName} (hs : s ∈ dn)
    (removable : ∀ slot, partitionDeviceFind reg s.chars = some slot → Removable reg slot) :
    (partitionDeviceUnregister reg (some s.chars) = some (partitionErrNoexist, reg)) ∨
    ∃ reg' parts', partitionDeviceUnregister reg (some s.chars) = some (partitionOk, reg') ∧
      Mirrors dn pn reg' (l.record (.deviceUnregister s)) devs.dropLast parts' := by
  rcases found : partitionDeviceFind reg s.chars with _ | slot
  · exact .inl (partitionDeviceUnregister_unknown found)
  · have able := removable slot found
    obtain ⟨d, there, name⟩ := m.deviceFind_some plainDevs hs found
    obtain ⟨swept, loop, devices, freed, partitions⟩ := m.loop plain able
    have device : reg.devices[slot]? = some d.2 := by
      rw [m.devices, List.getElem?_map, there, Option.map_some]
    -- the number of a device is its slot, so the devices behind it are none
    have number : d.2.id.toNat = reg.devices.length - 1 := by
      have few := m.fewDevices
      have length := m.length
      have last := able.last
      simp only [partitionDevMax] at few
      rw [m.device slot d there]
      dsimp only
      rw [UInt32.toNat_ofNat_of_lt' (by simp only [UInt32.size]; omega)]
      omega
    let p (e : Placing × Partition) : Bool := e.2.dev ≠ slot
    let q (e : Placing) : Bool := e.dev.chars ≠ s.chars
    have same : ∀ e ∈ parts, p e = q e.1 := by
      intro e member
      obtain ⟨-, -, -, drive, at_dev, dev⟩ := m.partition e member
      rw [decide_eq_decide, ← dev, ← name]
      exact not_congr (slot_of_key (f := fun e : Drive σ × PartitionDevice σ => e.1.name.chars)
        m.deviceNames at_dev there).symm
    have remaining : swept.partitions = (parts.filter p).map (·.2) := by
      rw [partitions, m.partitions, List.filter_map]
      rfl
    have mid : Mirrors dn pn swept { l with partitions := l.partitions.filter q } devs
        (parts.filter p) := m.keep p q same devices rfl remaining rfl
    have last : slot + 1 = swept.devices.length := by
      rw [devices]
      exact able.last
    have gone : Mirrors dn pn (dropped swept) _ devs.dropLast (parts.filter p) :=
      mid.dropDevice last there (fun e member => ?_) rfl rfl
    · rw [name] at gone
      exact .inr ⟨_, _, partitionDeviceUnregister_found found loop device number devices freed, gone⟩
    · rw [List.mem_filter] at member
      exact of_decide_eq_true member.2

end Mirrors

end T113Boot.Storage.Removal
