/- Module: T113Boot/Storage/Lookup
   layer: results
   digest: When a name finds the entry that was registered under exactly that name. -/

import T113Boot.Storage.Effects
import Mathlib.Data.List.Find
import Mathlib.Data.List.Nodup

set_option autoImplicit false
set_option relaxedAutoImplicit false

namespace T113Boot.Storage.Lookup

open T113Boot.Lib.LittleEndian
open T113Boot.Lib.Stoppable
open T113Boot.Storage.Table
open T113Boot.Storage.Names
open T113Boot.Storage.Effects

variable {σ : Type} {devTable : UInt32}

/-- A call that registers a device or a partition. -/
inductive Registration (σ : Type) where
  | device (devName : CName) (ops : PartitionDevOps σ) (size : UInt32)
  | partition (partitionName devName : CName) (start size : UInt32)

/-- A registry, and its entries with the names they were registered under. -/
structure Books (σ : Type) where
  reg : Registry σ
  devices : List (CName × PartitionDevice σ)
  partitions : List (CName × Partition)

/-- A call, which is filed where it returns `PARTITION_OK`. -/
def Books.file (b : Books σ) : Registration σ → Books σ
  | .device devName ops size =>
    let answer := partitionDeviceRegister b.reg (some devName.chars) (some ops) size
    { reg := answer.2
      devices := if answer.1 = partitionOk
        then b.devices ++ (answer.2.devices.getLast?.map (devName, ·)).toList else b.devices
      partitions := b.partitions }
  | .partition partitionName devName start size =>
    let answer := partitionRegister b.reg (some partitionName.chars) (some devName.chars) start size
    { reg := answer.2
      devices := b.devices
      partitions := if answer.1 = partitionOk
        then b.partitions ++ (answer.2.partitions.getLast?.map (partitionName, ·)).toList
        else b.partitions }

/-- The books after some calls, where the device table lies at `devTable`. -/
def filed (devTable : UInt32) (calls : List (Registration σ)) : Books σ :=
  calls.foldl Books.file ⟨.empty devTable, [], []⟩

/-- The entry that was registered under exactly this name. -/
def Books.under (b : Books σ) (s : CName) : Option Partition :=
  (b.partitions.find? fun e => e.1.chars = s.chars).map (·.2)

def readAt (reg : Registry σ) (part : Partition) (buf offset len : UInt32) : Prog σ Answer :=
  if offset + len > part.size then pure (partitionErrSize, [])
  else
    match (reg.opsOf part).bind (·.read) with
    | none => pure (partitionErrUnknown, [])
    | some read => read (part.start + offset) buf len

def writeAt (reg : Registry σ) (part : Partition) (buf : UInt32) (bs : List UInt8)
    (offset len : UInt32) : Prog σ Int :=
  if offset + len > part.size then pure partitionErrSize
  else
    match (reg.opsOf part).bind (·.write) with
    | none => pure partitionErrUnknown
    | some write => write (part.start + offset) buf bs len

def eraseAt (reg : Registry σ) (part : Partition) (offset len : UInt32) : Prog σ Int :=
  if offset + len > part.size then pure partitionErrSize
  else
    match (reg.opsOf part).bind (·.erase) with
    | none => pure partitionErrUnknown
    | some erase => erase (part.start + offset) len

def eraseAllAt (reg : Registry σ) (part : Partition) : Prog σ Int :=
  match (reg.opsOf part).bind (·.erase) with
  | none => pure partitionErrUnknown
  | some erase => erase part.start part.size

/-- Every access by this name acts on the entry registered under exactly it, and is answered
with `PARTITION_ERR_NOEXIST` where there is none. -/
structure Exact (b : Books σ) (s : CName) : Prop where
  found : partitionFind b.reg s.chars = b.under s
  read : ∀ buf offset len, partitionRead b.reg (some s.chars) buf offset len =
    if buf = 0 then pure (partitionErrParam, []) else match b.under s with
      | none => pure (partitionErrNoexist, [])
      | some part => readAt b.reg part buf offset len
  write : ∀ buf bs offset len, partitionWrite b.reg (some s.chars) buf bs offset len =
    if buf = 0 then pure partitionErrParam else match b.under s with
      | none => pure partitionErrNoexist
      | some part => writeAt b.reg part buf bs offset len
  erase : ∀ offset len, partitionErase b.reg (some s.chars) offset len = match b.under s with
    | none => pure partitionErrNoexist
    | some part => eraseAt b.reg part offset len
  eraseAll : partitionEraseAll b.reg (some s.chars) = match b.under s with
    | none => pure partitionErrNoexist
    | some part => eraseAllAt b.reg part

theorem Exact.of_found {b : Books σ} {s : CName}
    (found : partitionFind b.reg s.chars = b.under s) : Exact b s := by
  refine ⟨found, ?_, ?_, ?_, ?_⟩ <;> intros <;> rw [← found] <;> rfl

section Entries

variable {β : Type} {bytes : β → List UInt8} {entries : List (CName × β)}

/-- The slot keeps the name of each entry at its start. -/
def Stored (bytes : β → List UInt8) (entries : List (CName × β)) : Prop :=
  ∀ e ∈ entries, ∃ rest, bytes e.2 = storedName e.1.chars ++ rest

/-- No entry would have been found under the name of one registered after it. -/
def Fresh (bytes : β → List UInt8) (entries : List (CName × β)) : Prop :=
  entries.Pairwise fun e later => ¬ later.1.chars <+: bytes e.2

/-- Something is registered under `s`. -/
def Taken (entries : List (CName × β)) (s : CName) : Prop := ∃ e ∈ entries, e.1.chars = s.chars

/-- `s` is registered, or it begins no name that is. -/
def Apart (entries : List (CName × β)) (s : CName) : Prop :=
  Taken entries s ∨ ∀ e ∈ entries, ¬ s.chars <+: e.1.chars

/-- The memory of the entry registered under `s` begins with all of `s`; without such an entry,
that of no entry does. -/
def Seen (bytes : β → List UInt8) (entries : List (CName × β)) (s : CName) : Prop :=
  match entries.find? fun e => e.1.chars = s.chars with
  | some e => s.chars <+: bytes e.2
  | none => ∀ e ∈ entries, ¬ s.chars <+: bytes e.2

theorem find_bytes (s : CName) :
    entries.find? (fun e => partitionStrncmp s.chars (bytes e.2) s.chars.length = 0) =
      entries.find? fun e => s.chars <+: bytes e.2 := by
  apply List.find?_congr
  intro e member
  rw [decide_eq_decide]
  exact partitionStrncmp_eq_zero s.noNul _

theorem bytes_short (stored : Stored bytes entries) {s : CName}
    (short : s.chars.length ≤ partitionNameMax) {e : CName × β} (member : e ∈ entries) :
    s.chars <+: bytes e.2 ↔ s.chars <+: e.1.chars := by
  obtain ⟨rest, same⟩ := stored e member
  rw [same, prefix_stored s.noNul short]

theorem taken_iff {s : CName} :
    Taken entries s ↔ (entries.find? fun e => e.1.chars = s.chars).isSome := by
  rw [List.find?_isSome]
  simp [Taken]

theorem find_registered (fresh : Fresh bytes entries) {s : CName} {e : CName × β}
    (under : entries.find? (fun e => e.1.chars = s.chars) = some e)
    (shown : s.chars <+: bytes e.2) :
    entries.find? (fun e => s.chars <+: bytes e.2) = some e := by
  obtain ⟨own, before, behind, cut, -⟩ := List.find?_eq_some_iff_append.mp under
  refine List.find?_eq_some_iff_append.mpr ⟨decide_eq_true shown, before, behind, cut, ?_⟩
  intro earlier member
  rw [Fresh, cut, List.pairwise_append] at fresh
  have hidden := fresh.2.2 earlier member e List.mem_cons_self
  rw [of_decide_eq_true own] at hidden
  simpa using hidden

theorem find_iff_seen (fresh : Fresh bytes entries) (s : CName) :
    entries.find? (fun e => s.chars <+: bytes e.2) =
      (entries.find? fun e => e.1.chars = s.chars) ↔ Seen bytes entries s := by
  unfold Seen
  rcases under : entries.find? (fun e => e.1.chars = s.chars) with _ | e
  · rw [under, List.find?_eq_none]
    simp
  · rw [under]
    exact ⟨fun found => by simpa using List.find?_some found, find_registered fresh under⟩

theorem seen_short (stored : Stored bytes entries) {s : CName}
    (short : s.chars.length ≤ partitionNameMax) :
    Seen bytes entries s ↔ Apart entries s := by
  unfold Seen Apart
  rw [taken_iff]
  rcases under : entries.find? (fun e => e.1.chars = s.chars) with _ | e
  · rw [under]
    simp only [Option.isSome_none, Bool.false_eq_true, false_or]
    exact forall₂_congr fun e member => not_congr (bytes_short stored short member)
  · rw [under]
    have own : e.1.chars = s.chars := by simpa using List.find?_some under
    have shown : s.chars <+: bytes e.2 := by
      rw [bytes_short stored short (List.mem_of_find?_eq_some under), own]
    exact iff_of_true shown (.inl rfl)

/-- A name that fits the array is found in a slot exactly if it is there, where it stands apart. -/
theorem shown_iff_taken (stored : Stored bytes entries) {s : CName}
    (short : s.chars.length ≤ partitionNameMax) :
    ((∃ e ∈ entries, s.chars <+: bytes e.2) ↔ Taken entries s) ↔ Apart entries s := by
  have taken_shown : Taken entries s → ∃ e ∈ entries, s.chars <+: bytes e.2 := by
    rintro ⟨e, member, own⟩
    refine ⟨e, member, (bytes_short stored short member).mpr ?_⟩
    rw [own]
  constructor
  · intro same
    by_cases taken : Taken entries s
    · exact .inl taken
    · refine .inr fun e member begins => taken (same.mp ⟨e, member, ?_⟩)
      exact (bytes_short stored short member).mpr begins
  · rintro (taken | none)
    · exact iff_of_true (taken_shown taken) taken
    · refine ⟨fun ⟨e, member, shown⟩ => ?_, taken_shown⟩
      exact absurd ((bytes_short stored short member).mp shown) (none e member)

end Entries

/-- The books agree with the tables, slot by slot. -/
structure Kept (devTable : UInt32) (b : Books σ) : Prop where
  base : b.reg.devTable = devTable
  devices : b.reg.devices = b.devices.map (·.2)
  partitions : b.reg.partitions = b.partitions.map (·.2)
  deviceNames : Stored PartitionDevice.bytes b.devices
  partitionNames : Stored (Partition.bytes devTable) b.partitions
  fresh : Fresh (Partition.bytes devTable) b.partitions
  ids : ∀ (i : Nat) (p : Partition), b.reg.partitions[i]? = some p → p.id = .ofNat i
  few : b.reg.partitions.length ≤ partitionMax

theorem stored_append {β : Type} {bytes : β → List UInt8} {entries : List (CName × β)}
    (stored : Stored bytes entries) {name : CName} {slot : β} {rest : List UInt8}
    (same : bytes slot = storedName name.chars ++ rest) :
    Stored bytes (entries ++ [(name, slot)]) := by
  intro e member
  rcases List.mem_append.mp member with old | new
  · exact stored e old
  · rw [List.mem_singleton.mp new]
    exact ⟨rest, same⟩

theorem Kept.find {b : Books σ} (kept : Kept devTable b) (s : CName) : partitionFind b.reg s.chars =
    (b.partitions.find? fun e => s.chars <+: e.2.bytes devTable).map (·.2) := by
  rw [partitionFind, kept.base, kept.partitions, List.find?_map, ← find_bytes]
  rfl

theorem Kept.deviceFind {b : Books σ} (kept : Kept devTable b) (s : CName) :
    (partitionDeviceFind b.reg s.chars).isSome ↔ ∃ e ∈ b.devices, s.chars <+: e.2.bytes := by
  rw [partitionDeviceFind, List.findIdx?_isSome, kept.devices, List.any_map, List.any_eq_true]
  simp [partitionStrncmp_eq_zero s.noNul]

theorem Kept.file {b : Books σ} (kept : Kept devTable b) (call : Registration σ) :
    Kept devTable (b.file call) := by
  cases call with
  | device devName ops size =>
    have answer := partitionDeviceRegister_cases b.reg devName.chars ops size
    simp only [Books.file]
    generalize partitionDeviceRegister b.reg (some devName.chars) (some ops) size = r at answer ⊢
    cases answer with
    | refused code reason =>
      rw [if_neg code]
      exact kept
    | added room fresh =>
      rw [if_pos rfl, List.getLast?_concat]
      refine ⟨kept.base, ?_, kept.partitions, ?_, kept.partitionNames, kept.fresh, kept.ids, kept.few⟩
      · simp [kept.devices]
      · exact stored_append kept.deviceNames rfl
  | partition partitionName devName start size =>
    have answer := partitionRegister_cases b.reg partitionName.chars devName.chars start size
    simp only [Books.file]
    generalize partitionRegister b.reg (some partitionName.chars) (some devName.chars) start size = r
      at answer ⊢
    cases answer with
    | refused code reason =>
      rw [if_neg code]
      exact kept
    | added room dev there fresh fits =>
      rw [if_pos rfl, List.getLast?_concat]
      refine ⟨kept.base, kept.devices, ?_, kept.deviceNames, ?_, ?_, ?_, ?_⟩
      · simp [kept.partitions]
      · exact stored_append kept.partitionNames rfl
      · rw [kept.find, Option.map_eq_none_iff, List.find?_eq_none] at fresh
        refine List.pairwise_append.mpr ⟨kept.fresh, List.pairwise_singleton _ _, ?_⟩
        intro e member added new
        rw [List.mem_singleton.mp new]
        simpa using fresh e member
      · intro i p at_i
        rw [List.getElem?_append] at at_i
        split at at_i
        · exact kept.ids i p at_i
        · rename_i past
          rw [List.getElem?_singleton] at at_i
          split at at_i
          · cases at_i
            rw [newPartition, show i = b.reg.partitions.length by omega]
          · cases at_i
      · rw [List.length_append, List.length_singleton]
        exact room

theorem kept_filed (devTable : UInt32) (calls : List (Registration σ)) :
    Kept devTable (filed devTable calls) := by
  have start : Kept devTable (⟨.empty devTable, [], []⟩ : Books σ) := by
    refine ⟨rfl, rfl, rfl, fun e h => ?_, fun e h => ?_, .nil, fun i p h => ?_, Nat.zero_le _⟩
    · exact absurd h List.not_mem_nil
    · exact absurd h List.not_mem_nil
    · simp [Registry.empty] at h
  unfold filed
  generalize (⟨.empty devTable, [], []⟩ : Books σ) = b at start ⊢
  induction calls generalizing b with
  | nil => exact start
  | cons call calls ih => exact ih _ (start.file call)

/-- No two slots hold the same entry. -/
theorem Kept.distinct {b : Books σ} (kept : Kept devTable b) : (b.partitions.map (·.2)).Nodup := by
  rw [← kept.partitions]
  refine List.nodup_iff_getElem?_ne_getElem?.mpr fun i j less inside same => ?_
  have first := List.getElem?_eq_getElem (Nat.lt_trans less inside)
  have number := kept.ids i _ first
  have other := kept.ids j _ (same.symm.trans first)
  have few := kept.few
  rw [number, ← UInt32.toNat_inj, UInt32.toNat_ofNat', UInt32.toNat_ofNat'] at other
  simp only [partitionMax] at few
  omega

theorem Kept.found_iff {b : Books σ} (kept : Kept devTable b) (s : CName) :
    partitionFind b.reg s.chars = b.under s ↔ Seen (Partition.bytes devTable) b.partitions s := by
  rw [kept.find, Books.under, ← find_iff_seen kept.fresh]
  constructor
  · intro same
    rcases found : b.partitions.find? (fun e => s.chars <+: e.2.bytes devTable) with _ | e <;>
      rcases under : b.partitions.find? (fun e => e.1.chars = s.chars) with _ | own <;>
      rw [found, under] at same ⊢
    · cases same
    · cases same
    · congr 1
      exact List.inj_on_of_nodup_map kept.distinct (List.mem_of_find?_eq_some found)
        (List.mem_of_find?_eq_some under) (Option.some.inj same)
  · intro same
    rw [same]

/-- Names are matched exactly: every access by `s` acts on the entry registered under `s`, a
registration that gets as far as its name is refused as a duplicate exactly where there is such
an entry, and an entry just registered is the one found. -/
structure Matched (b : Books σ) (s : CName) : Prop where
  access : Exact b s
  refused : ∀ (devName : CName) (start size : UInt32), b.reg.partitions.length < partitionMax →
    (partitionDeviceFind b.reg devName.chars).isSome →
    ((partitionRegister b.reg (some s.chars) (some devName.chars) start size).1 =
      partitionErrExist ↔ Taken b.partitions s)
  fresh : ∀ (devName : CName) (start size : UInt32),
    (partitionRegister b.reg (some s.chars) (some devName.chars) start size).1 = partitionOk →
    ∃ part, partitionFind (partitionRegister b.reg (some s.chars) (some devName.chars) start size).2
        s.chars = some part ∧
      (partitionRegister b.reg (some s.chars) (some devName.chars) start size).2.partitions =
        b.reg.partitions ++ [part] ∧ part.start = start ∧ part.size = size

/-- The same of the names of devices. -/
structure DeviceMatched (b : Books σ) (s : CName) : Prop where
  refused : ∀ (ops : PartitionDevOps σ) (size : UInt32), b.reg.devices.length < partitionDevMax →
    ((partitionDeviceRegister b.reg (some s.chars) (some ops) size).1 =
      partitionErrExist ↔ Taken b.devices s)
  fresh : ∀ (ops : PartitionDevOps σ) (size : UInt32),
    (partitionDeviceRegister b.reg (some s.chars) (some ops) size).1 = partitionOk →
    partitionDeviceFind (partitionDeviceRegister b.reg (some s.chars) (some ops) size).2 s.chars =
      some b.reg.devices.length

section Matched

variable {b : Books σ} {s : CName}

/-- Nothing more can be registered under `s`. -/
def Closed (b : Books σ) (s : CName) : Prop :=
  b.reg.partitions.length ≥ partitionMax ∨ b.reg.devices = [] ∨ Taken b.partitions s

theorem refused_iff (reg : Registry σ) (devName : CName) (start size : UInt32)
    (room : reg.partitions.length < partitionMax)
    (known : (partitionDeviceFind reg devName.chars).isSome) :
    (partitionRegister reg (some s.chars) (some devName.chars) start size).1 =
      partitionErrExist ↔ (partitionFind reg s.chars).isSome := by
  have answer := partitionRegister_cases reg s.chars devName.chars start size
  generalize partitionRegister reg (some s.chars) (some devName.chars) start size = r at answer ⊢
  cases answer with
  | refused code reason =>
    rcases reason with ⟨-, full⟩ | ⟨-, none⟩ | ⟨rfl, found⟩ | ⟨rfl, none, -⟩
    · omega
    · rw [none] at known
      cases known
    · exact iff_of_true rfl found
    · exact iff_of_false (by simp [partitionErrSize, partitionErrExist]) (by simp [none])
  | added room dev there fresh fits =>
    exact iff_of_false (by simp [partitionOk, partitionErrExist]) (by simp [fresh])

theorem fresh_found (reg : Registry σ) (devName : CName) (start size : UInt32)
    (shown : ∀ slot, s.chars <+: (newPartition reg s.chars start size slot).bytes reg.devTable)
    (ok : (partitionRegister reg (some s.chars) (some devName.chars) start size).1 = partitionOk) :
    ∃ part, partitionFind (partitionRegister reg (some s.chars) (some devName.chars) start size).2
        s.chars = some part ∧
      (partitionRegister reg (some s.chars) (some devName.chars) start size).2.partitions =
        reg.partitions ++ [part] ∧ part.start = start ∧ part.size = size := by
  have answer := partitionRegister_cases reg s.chars devName.chars start size
  generalize partitionRegister reg (some s.chars) (some devName.chars) start size = r at answer ok ⊢
  cases answer with
  | refused code reason => exact absurd ok code
  | @added slot device room dev there fresh fits =>
    refine ⟨newPartition reg s.chars start size slot, ?_, rfl, rfl, rfl⟩
    unfold partitionFind at fresh ⊢
    rw [List.find?_append, fresh, Option.none_or, List.find?_singleton,
      if_pos (decide_eq_true ((partitionStrncmp_eq_zero s.noNul _).mpr (shown slot)))]

theorem newPartition_short (short : s.chars.length ≤ partitionNameMax) (reg : Registry σ)
    (start size : UInt32) (slot : Nat) :
    s.chars <+: (newPartition reg s.chars start size slot).bytes reg.devTable := by
  exact (prefix_stored s.noNul short _ _).mpr (List.prefix_refl _)

theorem not_shown_long (long : partitionNameMax < s.chars.length) {rest : List UInt8}
    (zero : rest[0]? = some 0) : ¬ s.chars <+: storedName s.chars ++ rest := by
  rintro ⟨more, same⟩
  have follows : (s.chars ++ more)[partitionNameMax]? = some 0 := by
    rw [same, List.getElem?_append_right (by rw [length_storedName]), length_storedName,
      Nat.sub_self]
    exact zero
  rw [List.getElem?_append_left long] at follows
  exact s.noNul (List.mem_of_getElem? follows)

theorem Kept.refused (kept : Kept devTable b) (seen : Seen (Partition.bytes devTable) b.partitions s)
    (devName : CName) (start size : UInt32) (room : b.reg.partitions.length < partitionMax)
    (known : (partitionDeviceFind b.reg devName.chars).isSome) :
    (partitionRegister b.reg (some s.chars) (some devName.chars) start size).1 =
      partitionErrExist ↔ Taken b.partitions s := by
  rw [refused_iff b.reg devName start size room known, kept.find, Option.isSome_map,
    (find_iff_seen kept.fresh s).mpr seen, taken_iff]

/-- A registration under a name too long for the array, of an empty partition on the first device,
adds an entry that is not found. -/
theorem Matched.closed (matched : Matched b s) (kept : Kept devTable b)
    (long : partitionNameMax < s.chars.length) : Closed b s := by
  refine Classical.byContradiction fun still => ?_
  simp only [Closed, not_or, ge_iff_le, Nat.not_le] at still
  obtain ⟨room, device, free⟩ := still
  -- the empty name finds the first device
  let first : CName := ⟨[], List.not_mem_nil⟩
  have known : (partitionDeviceFind b.reg first.chars).isSome := by
    have entries : b.devices ≠ [] := by
      intro empty
      rw [kept.devices, empty] at device
      exact device rfl
    obtain ⟨e, member⟩ := List.exists_mem_of_ne_nil _ entries
    exact (kept.deviceFind first).mpr ⟨e, member, List.nil_prefix⟩
  have seen := (kept.found_iff s).mp matched.access.found
  have unknown : ¬ (partitionFind b.reg s.chars).isSome := by
    rw [kept.find, Option.isSome_map, (find_iff_seen kept.fresh s).mpr seen, ← taken_iff]
    exact free
  have fresh := matched.fresh first 0 0
  have answer := partitionRegister_cases b.reg s.chars first.chars 0 0
  generalize partitionRegister b.reg (some s.chars) (some first.chars) 0 0 = r at answer fresh
  cases answer with
  | refused code reason =>
    rcases reason with ⟨-, full⟩ | ⟨-, none⟩ | ⟨-, found⟩ | ⟨-, -, d, -, large⟩
    · omega
    · rw [none] at known
      cases known
    · exact unknown found
    · exact absurd large (by simp)
  | added room dev there none fits =>
    obtain ⟨part, found, table, -⟩ := fresh rfl
    have shown := List.find?_some found
    rw [decide_eq_true_eq, partitionStrncmp_eq_zero s.noNul,
      ← List.singleton_inj.mp (List.append_cancel_left table), Partition.bytes, newPartition] at shown
    exact not_shown_long long rfl shown

/-- A name is matched exactly where it is seen, unless it is too long for the array and could
still be registered. -/
theorem Kept.acts_iff (kept : Kept devTable b) (s : CName) : Matched b s ↔
    Seen (Partition.bytes devTable) b.partitions s ∧ (partitionNameMax < s.chars.length → Closed b s) := by
  constructor
  · exact fun matched => ⟨(kept.found_iff s).mp matched.access.found, matched.closed kept⟩
  · rintro ⟨seen, closed⟩
    refine ⟨Exact.of_found ((kept.found_iff s).mpr seen), kept.refused seen, ?_⟩
    intro devName start size ok
    by_cases short : s.chars.length ≤ partitionNameMax
    · exact fresh_found b.reg devName start size (newPartition_short short b.reg start size) ok
    · have answer := partitionRegister_cases b.reg s.chars devName.chars start size
      generalize partitionRegister b.reg (some s.chars) (some devName.chars) start size = r
        at answer ok
      cases answer with
      | refused code reason => exact absurd ok code
      | added room dev there none fits =>
        rcases closed (by omega) with full | empty | taken
        · omega
        · rw [empty] at there
          cases there
        · rw [taken_iff, ← (find_iff_seen kept.fresh s).mpr seen, ← Option.isSome_map,
            ← kept.find, none] at taken
          cases taken

theorem deviceRefused_iff (reg : Registry σ) (ops : PartitionDevOps σ) (size : UInt32)
    (room : reg.devices.length < partitionDevMax) :
    (partitionDeviceRegister reg (some s.chars) (some ops) size).1 = partitionErrExist ↔
      (partitionDeviceFind reg s.chars).isSome := by
  have answer := partitionDeviceRegister_cases reg s.chars ops size
  generalize partitionDeviceRegister reg (some s.chars) (some ops) size = r at answer ⊢
  cases answer with
  | refused code reason =>
    rcases reason with ⟨-, full⟩ | ⟨rfl, found⟩
    · omega
    · exact iff_of_true rfl found
  | added room fresh =>
    exact iff_of_false (by simp [partitionOk, partitionErrExist]) (by simp [fresh])

theorem device_fresh_found (reg : Registry σ) (ops : PartitionDevOps σ) (size : UInt32)
    (shown : s.chars <+: (newDevice reg s.chars ops size).bytes)
    (ok : (partitionDeviceRegister reg (some s.chars) (some ops) size).1 = partitionOk) :
    partitionDeviceFind (partitionDeviceRegister reg (some s.chars) (some ops) size).2 s.chars =
      some reg.devices.length := by
  have answer := partitionDeviceRegister_cases reg s.chars ops size
  generalize partitionDeviceRegister reg (some s.chars) (some ops) size = r at answer ok ⊢
  cases answer with
  | refused code reason => exact absurd ok code
  | added room fresh =>
    unfold partitionDeviceFind at fresh ⊢
    rw [List.findIdx?_append, fresh, Option.none_or, List.findIdx?_singleton,
      if_pos (decide_eq_true ((partitionStrncmp_eq_zero s.noNul _).mpr shown))]
    simp

/-- Where no more devices fit there is nothing to match; else a name that fits the array must stand
apart from the others, and a longer one must be registered and found. -/
theorem Kept.deviceMatched_iff (kept : Kept devTable b) (s : CName) : DeviceMatched b s ↔
    (b.reg.devices.length < partitionDevMax →
      ((∃ e ∈ b.devices, s.chars <+: e.2.bytes) ↔ Taken b.devices s) ∧
      (partitionNameMax < s.chars.length → ∃ e ∈ b.devices, s.chars <+: e.2.bytes)) := by
  constructor
  · intro matched room
    have refused := matched.refused ⟨0x43000000, none, none, none, none⟩ 0 room
    rw [deviceRefused_iff b.reg _ _ room, kept.deviceFind] at refused
    refine ⟨refused, fun long => Classical.byContradiction fun unknown => ?_⟩
    have fresh := matched.fresh ⟨0x43000000, none, none, none, none⟩ 0
    have answer := partitionDeviceRegister_cases b.reg s.chars ⟨0x43000000, none, none, none, none⟩ 0
    generalize partitionDeviceRegister b.reg (some s.chars) (some ⟨0x43000000, none, none, none, none⟩) 0 = r
      at answer fresh
    cases answer with
    | refused code reason =>
      rcases reason with ⟨-, full⟩ | ⟨-, found⟩
      · omega
      · exact unknown ((kept.deviceFind s).mp found)
    | added room none =>
      obtain ⟨inside, shown, -⟩ := List.findIdx?_eq_some_iff_getElem.mp (fresh rfl)
      rw [List.getElem_concat_length rfl, decide_eq_true_eq, partitionStrncmp_eq_zero s.noNul,
        PartitionDevice.bytes, newDevice] at shown
      exact not_shown_long long rfl shown
  · intro condition
    refine ⟨fun ops size room => ?_, fun ops size ok => ?_⟩
    · rw [deviceRefused_iff b.reg ops size room, kept.deviceFind]
      exact (condition room).1
    · by_cases short : s.chars.length ≤ partitionNameMax
      · exact device_fresh_found b.reg ops size
          ((prefix_stored s.noNul short _ _).mpr (List.prefix_refl _)) ok
      · have answer := partitionDeviceRegister_cases b.reg s.chars ops size
        generalize partitionDeviceRegister b.reg (some s.chars) (some ops) size = r at answer ok
        cases answer with
        | refused code reason => exact absurd ok code
        | added room none =>
          have found := (kept.deviceFind s).mpr ((condition room).2 (by omega))
          rw [none] at found
          cases found

end Matched

/-- After any registrations. A name that fits the array is matched exactly if and only if it is
registered or begins no name that is; devices are matched so as long as more of them fit. A longer
name is matched exactly if and only if the memory of its entry shows it and that of no other does,
and nothing more can be registered under it. -/
theorem matched_iff (devTable : UInt32) (calls : List (Registration σ)) (s : CName) :
    (s.chars.length ≤ partitionNameMax →
      (Matched (filed devTable calls) s ↔ Apart (filed devTable calls).partitions s) ∧
      (DeviceMatched (filed devTable calls) s ↔
        ((filed devTable calls).reg.devices.length < partitionDevMax → Apart (filed devTable calls).devices s))) ∧
    (partitionNameMax < s.chars.length →
      (Matched (filed devTable calls) s ↔
        Seen (Partition.bytes devTable) (filed devTable calls).partitions s ∧ Closed (filed devTable calls) s) ∧
      (DeviceMatched (filed devTable calls) s ↔ ((filed devTable calls).reg.devices.length < partitionDevMax →
        Taken (filed devTable calls).devices s ∧ ∃ e ∈ (filed devTable calls).devices, s.chars <+: e.2.bytes))) := by
  have kept := kept_filed devTable calls
  refine ⟨fun short => ⟨?_, ?_⟩, fun long => ⟨?_, ?_⟩⟩
  · rw [kept.acts_iff, seen_short kept.partitionNames short]
    exact and_iff_left fun long => absurd short (by omega)
  · rw [kept.deviceMatched_iff]
    refine forall_congr' fun room => ?_
    rw [shown_iff_taken kept.deviceNames short]
    exact and_iff_left fun long => absurd short (by omega)
  · rw [kept.acts_iff]
    exact and_congr_right fun seen => forall_prop_of_true long
  · rw [kept.deviceMatched_iff]
    refine forall_congr' fun room => ?_
    constructor
    · exact fun ⟨same, shown⟩ => ⟨same.mp (shown long), shown long⟩
    · exact fun ⟨taken, shown⟩ => ⟨iff_of_true shown taken, fun _ => shown⟩

/-- A comparison reads on behind the array, through the fields of the slot. -/
example : (partitionFind (filed 0x42424242
    [.device ⟨cstr "nand_flash", noNul_nand⟩ (⟨0x43000000, none, none, none, none⟩ : PartitionDevOps Unit)
        0xFFFFFFFF,
      .partition ⟨cstr "ABCDEFGHIJKLMNOP", by decide⟩ ⟨cstr "nand_flash", noNul_nand⟩
        0x31313131 0x32323232]).reg (cstr "ABCDEFGHIJKLMNOP11112222B")).isSome := by decide

/-- One partition, `APP1`. -/
def oneApp : List (Registration Unit) :=
  [.device ⟨cstr "nand_flash", noNul_nand⟩ ⟨0x43000000, none, none, none, none⟩ 0x10000000,
    .partition ⟨cstr "APP1", noNul_app1⟩ ⟨cstr "nand_flash", noNul_nand⟩ 0x200000 0x100000]

/-- The name `APP`, under which nothing is registered, leads to `APP1`. -/
theorem prefix_matched : ¬ Matched (filed 0x42000000 oneApp) ⟨cstr "APP", by decide⟩ := by
  intro matched
  have found := matched.access.found
  revert found
  decide

end T113Boot.Storage.Lookup
