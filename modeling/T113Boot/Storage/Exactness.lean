/- Module: T113Boot/Storage/Exactness
   layer: results
   digest: When removals leave the tables with exactly what is registered. -/

import T113Boot.Storage.Removal

set_option autoImplicit false
set_option relaxedAutoImplicit false

namespace T113Boot.Storage.Exactness

open T113Boot.Storage.Table
open T113Boot.Storage.Names
open T113Boot.Storage.Effects
open T113Boot.Storage.Removal

variable {σ : Type} {dn pn : List CName}

/-- The lookups find what the ledger lists and nothing else: each device with its own operations
and size, each partition where it was registered, through its own device. -/
structure Faithful (dn pn : List CName) (reg : Registry σ) (l : Ledger σ) : Prop where
  deviceFound : ∀ d ∈ l.devices, ∃ slot device, partitionDeviceFind reg d.name.chars = some slot ∧
    reg.devices[slot]? = some device ∧ device.ops = d.ops ∧ device.size = d.size
  deviceListed : ∀ s ∈ dn, (partitionDeviceFind reg s.chars).isSome →
    ∃ d ∈ l.devices, d.name.chars = s.chars
  found : ∀ p ∈ l.partitions, ∃ part, partitionFind reg p.name.chars = some part ∧
    part.start = p.start ∧ part.size = p.size ∧
    ∃ d ∈ l.devices, d.name.chars = p.dev.chars ∧
      partitionDeviceFind reg d.name.chars = some part.dev ∧ reg.opsOf part = some d.ops
  listed : ∀ s ∈ pn, (partitionFind reg s.chars).isSome →
    ∃ p ∈ l.partitions, p.name.chars = s.chars
  distinct : (l.partitions.map (·.name.chars)).Nodup

/-- The names of a call are among these. -/
def Call.Within (dn pn : List CName) : Call σ → Prop
  | .deviceRegister devName _ _ => devName ∈ dn
  | .register partitionName devName _ _ => partitionName ∈ pn ∧ devName ∈ dn
  | .unregister partitionName => partitionName ∈ pn
  | .deviceUnregister devName => devName ∈ dn

/-- A removal finds what it removes in the place where it looks for it. -/
def Call.Safe (reg : Registry σ) : Call σ → Prop
  | .unregister partitionName => InPlace reg partitionName
  | .deviceUnregister devName =>
    ∀ slot, partitionDeviceFind reg devName.chars = some slot → Removable reg slot
  | _ => True

/-- Every removal of a run is safe in the tables it meets. -/
def Careful : List (Call σ) → Registry σ → Prop
  | [], _ => True
  | call :: calls, reg =>
    Call.Safe reg call ∧ ∀ ret reg', call.run reg = some (ret, reg') → Careful calls reg'

theorem Careful.cons {call : Call σ} {calls : List (Call σ)} {reg reg' : Registry σ} {ret : Int}
    (safe : Call.Safe reg call) (run : call.run reg = some (ret, reg'))
    (rest : Careful calls reg') : Careful (call :: calls) reg := by
  refine ⟨safe, fun ret' after same => ?_⟩
  rw [run] at same
  cases same
  exact rest

theorem inPlace_of_found {reg : Registry σ} {name : CName} {part : Partition}
    (found : partitionFind reg name.chars = some part)
    (there : reg.partitions[part.id.toNat]? = some part) : InPlace reg name := by
  intro other same
  rw [found] at same
  cases same
  exact there

section Run

variable {reg : Registry σ} {l : Ledger σ} {devs : List (Drive σ × PartitionDevice σ)}
  {parts : List (Placing × Partition)}

theorem mirrors_faithful (m : Mirrors dn pn reg l devs parts) (plainDevs : Plain dn)
    (plain : Plain pn) : Faithful dn pn reg l := by
  have device_slot : ∀ (i : Nat) (e : Drive σ × PartitionDevice σ), devs[i]? = some e →
      partitionDeviceFind reg e.1.name.chars = some i := by
    intro i e at_i
    have member := List.mem_of_getElem? at_i
    have known := m.knownDevices e member
    rcases found : partitionDeviceFind reg e.1.name.chars with _ | slot
    · exact absurd (List.mem_map.mpr ⟨e, member, rfl⟩) (m.deviceFind_none plainDevs known found)
    · obtain ⟨d, there, name⟩ := m.deviceFind_some plainDevs known found
      rw [(slot_of_key (f := fun e : Drive σ × PartitionDevice σ => e.1.name.chars) m.deviceNames
        there at_i).mp name]
  have in_table : ∀ (i : Nat) (e : Drive σ × PartitionDevice σ), devs[i]? = some e →
      reg.devices[i]? = some e.2 := by
    intro i e at_i
    rw [m.devices, List.getElem?_map, at_i, Option.map_some]
  refine ⟨?_, ?_, ?_, ?_, ?_⟩
  · intro d member
    rw [m.drives] at member
    obtain ⟨e, listed, rfl⟩ := List.mem_map.mp member
    obtain ⟨i, at_i⟩ := List.getElem?_of_mem listed
    have slot := m.device i e at_i
    exact ⟨i, e.2, device_slot i e at_i, in_table i e at_i, by rw [slot], by rw [slot]⟩
  · intro s known some
    obtain ⟨slot, found⟩ := Option.isSome_iff_exists.mp some
    obtain ⟨d, there, name⟩ := m.deviceFind_some plainDevs known found
    rw [m.drives]
    exact ⟨d.1, List.mem_map.mpr ⟨d, List.mem_of_getElem? there, rfl⟩, name⟩
  · intro p member
    rw [m.placings] at member
    obtain ⟨e, listed, rfl⟩ := List.mem_map.mp member
    obtain ⟨-, start, size, d, there, dev⟩ := m.partition e listed
    refine ⟨e.2, m.find_entry plain listed, start, size, d.1, ?_, dev, device_slot _ d there, ?_⟩
    · rw [m.drives]
      exact List.mem_map.mpr ⟨d, List.mem_of_getElem? there, rfl⟩
    · have slot := in_table _ d there
      obtain ⟨inside, -⟩ := List.getElem?_eq_some_iff.mp slot
      rw [Registry.opsOf, List.getElem?_append_left inside, slot, Option.map_some,
        m.device _ d there]
  · intro s known some
    obtain ⟨part, found⟩ := Option.isSome_iff_exists.mp some
    obtain ⟨e, member, -, name⟩ := m.find_some plain known found
    rw [m.placings]
    exact ⟨e.1, List.mem_map.mpr ⟨e, member, rfl⟩, name⟩
  · rw [m.placings, List.map_map]
    exact m.partitionNames

theorem mirrors_step (m : Mirrors dn pn reg l devs parts) (plainDevs : Plain dn) (plain : Plain pn)
    {call : Call σ} (within : Call.Within dn pn call) (safe : Call.Safe reg call) :
    ∃ ret reg' devs' parts', call.run reg = some (ret, reg') ∧
      Mirrors dn pn reg' (if ret = partitionOk then l.record call else l) devs' parts' := by
  have kept {err : Int} (code : err ≠ partitionOk) :
      Mirrors dn pn reg (if err = partitionOk then l.record call else l) devs parts := by
    rw [if_neg code]
    exact m
  cases call with
  | deviceRegister devName ops size =>
    have answer := partitionDeviceRegister_cases reg devName.chars ops size
    simp only [Call.run]
    generalize partitionDeviceRegister reg (some devName.chars) (some ops) size = r at answer ⊢
    cases answer with
    | refused code reason => exact ⟨_, reg, devs, parts, rfl, kept code⟩
    | added room fresh => exact ⟨_, _, _, parts, rfl, m.addDevice within plainDevs ops size room fresh⟩
  | register partitionName devName start size =>
    have answer := partitionRegister_cases reg partitionName.chars devName.chars start size
    simp only [Call.run]
    generalize partitionRegister reg (some partitionName.chars) (some devName.chars) start size = r
      at answer ⊢
    cases answer with
    | refused code reason => exact ⟨_, reg, devs, parts, rfl, kept code⟩
    | added room dev there fresh fits =>
      exact ⟨_, _, devs, _, rfl,
        m.addPartition within.1 plain within.2 plainDevs start size dev fresh⟩
  | unregister partitionName =>
    rcases m.unregister plain within safe with unknown | ⟨reg', removed, after⟩
    · exact ⟨_, reg, devs, parts, unknown, kept (by decide)⟩
    · exact ⟨_, reg', devs, _, removed, after⟩
  | deviceUnregister devName =>
    rcases m.deviceUnregister plainDevs plain within safe with unknown | ⟨reg', parts', removed, after⟩
    · exact ⟨_, reg, devs, parts, unknown, kept (by decide)⟩
    · exact ⟨_, reg', _, parts', removed, after⟩

theorem mirrors_run (m : Mirrors dn pn reg l devs parts) (plainDevs : Plain dn) (plain : Plain pn)
    {calls : List (Call σ)} (within : ∀ call ∈ calls, Call.Within dn pn call)
    (careful : Careful calls reg) :
    ∃ reg' l' devs' parts', perform calls reg l = some (reg', l') ∧
      Mirrors dn pn reg' l' devs' parts' := by
  induction calls generalizing reg l devs parts with
  | nil => exact ⟨reg, l, devs, parts, rfl, m⟩
  | cons call calls ih =>
    obtain ⟨safe, rest⟩ := careful
    obtain ⟨ret, reg', devs', parts', run, after⟩ :=
      mirrors_step m plainDevs plain (within call List.mem_cons_self) safe
    rw [perform, run]
    exact ih after (fun c member => within c (List.mem_cons_of_mem _ member)) (rest ret reg' run)

theorem mirrors_empty (devTable : UInt32) : Mirrors dn pn (.empty devTable : Registry σ) .empty [] [] := by
  refine ⟨rfl, rfl, rfl, rfl, ?_, ?_, List.nodup_nil, List.nodup_nil, ?_, ?_, Nat.zero_le _⟩
  · intro i e at_i
    simp at at_i
  · exact fun e member => absurd member List.not_mem_nil
  · exact fun e member => absurd member List.not_mem_nil
  · exact fun e member => absurd member List.not_mem_nil

end Run

/-- A call on the partitions of the device `dev`. -/
def OnDevice (dev : CName) (pn : List CName) : Call σ → Prop
  | .register partitionName devName _ _ => partitionName ∈ pn ∧ devName = dev
  | .unregister partitionName => partitionName ∈ pn
  | _ => False

/-- With one device, where each partition to be removed still stands at the slot of its number,
the partition table is the map of what was registered and not removed since. -/
theorem partitions_mapped (devTable : UInt32) (dev : CName) (ops : PartitionDevOps σ) (size : UInt32)
    (plainDevs : Plain [dev]) (plain : Plain pn) (calls : List (Call σ))
    (onDevice : ∀ call ∈ calls, OnDevice dev pn call)
    (careful : Careful (.deviceRegister dev ops size :: calls) (.empty devTable)) :
    ∃ reg l, perform (.deviceRegister dev ops size :: calls) (.empty devTable) .empty = some (reg, l) ∧
      Faithful [dev] pn reg l := by
  have within : ∀ call ∈ .deviceRegister dev ops size :: calls, Call.Within [dev] pn call := by
    intro call member
    rcases List.mem_cons.mp member with rfl | later
    · exact List.mem_singleton.mpr rfl
    · have about := onDevice call later
      cases call with
      | deviceRegister devName ops size => exact about.elim
      | register partitionName devName start size =>
        exact ⟨about.1, List.mem_singleton.mpr about.2⟩
      | unregister partitionName => exact about
      | deviceUnregister devName => exact about.elim
  obtain ⟨reg, l, _, _, run, mirrors⟩ := mirrors_run (mirrors_empty devTable) plainDevs plain within careful
  exact ⟨reg, l, run, mirrors_faithful mirrors plainDevs plain⟩

/-- The names used below. -/
def nand : CName := ⟨cstr "nand_flash", noNul_nand⟩
def param : CName := ⟨cstr "Param", by decide⟩
def app1 : CName := ⟨cstr "APP1", noNul_app1⟩
def app2 : CName := ⟨cstr "APP2", by decide⟩

def noOps : PartitionDevOps Unit := ⟨0x43000000, none, none, none, none⟩

/-- A device and three partitions on it. -/
def threeParts : List (Call Unit) :=
  [.register param nand 0 0x100, .register app1 nand 0x100 0x100, .register app2 nand 0x200 0x100]

theorem plain_nand : Plain [nand] := by
  refine ⟨?_, ?_, ?_⟩
  · simp [nand, cstr]
  · decide
  · simp

theorem plain_parts : Plain [param, app1, app2] := by
  refine ⟨?_, ?_, ?_⟩
  · simp [param, app1, app2, cstr]
  · decide
  · decide

/-- The partition registered last can be removed. -/
theorem partitions_mapped_last : ∃ reg l, perform (.deviceRegister nand noOps 0x1000 ::
      (threeParts ++ [.unregister app2])) (.empty 0x42000000) .empty = some (reg, l) ∧
    Faithful [nand] [param, app1, app2] reg l := by
  refine partitions_mapped 0x42000000 nand noOps 0x1000 plain_nand plain_parts (threeParts ++ [.unregister app2])
    ?_ ?_
  · simp [threeParts, OnDevice]
  · refine .cons trivial rfl ?_
    refine .cons trivial rfl ?_
    refine .cons trivial rfl ?_
    refine .cons trivial rfl ?_
    refine .cons ?_ rfl trivial
    exact inPlace_of_found rfl rfl

/-- `Param` goes, `APP1` moves to its slot and keeps its number. When `APP1` goes then, `APP2` is
removed in its place. -/
theorem stale_number_removes_other : ∃ reg l, perform (.deviceRegister nand noOps 0x1000 ::
      (threeParts ++ [.unregister param, .unregister app1])) (.empty 0x42000000) .empty = some (reg, l) ∧
    l.partitions.map (·.name.chars) = [app2.chars] ∧ partitionFind reg app2.chars = none ∧
    (partitionFind reg app1.chars).isSome ∧ ¬ Faithful [nand] [param, app1, app2] reg l := by
  refine ⟨_, _, rfl, rfl, by decide, by decide, ?_⟩
  intro faithful
  obtain ⟨part, found, -⟩ := faithful.found _ List.mem_cons_self
  cases found

/-- In every state that careful calls lead to, removing a device on the condition of `Removable`
removes it and its partitions from what is found, and nothing else. -/
theorem device_removed_exactly (devTable : UInt32) (plainDevs : Plain dn) (plain : Plain pn) (calls : List (Call σ))
    (within : ∀ call ∈ calls, Call.Within dn pn call) (careful : Careful calls (.empty devTable)) :
    ∃ reg l, perform calls (.empty devTable) .empty = some (reg, l) ∧ Faithful dn pn reg l ∧
      ∀ devName ∈ dn, Call.Safe reg (.deviceUnregister devName) →
        partitionDeviceUnregister reg (some devName.chars) = some (partitionErrNoexist, reg) ∨
        ∃ reg', partitionDeviceUnregister reg (some devName.chars) = some (partitionOk, reg') ∧
          Faithful dn pn reg'
            { devices := l.devices.filter fun d => d.name.chars ≠ devName.chars
              partitions := l.partitions.filter fun p => p.dev.chars ≠ devName.chars } := by
  obtain ⟨reg, l, _, _, run, mirrors⟩ := mirrors_run (mirrors_empty devTable) plainDevs plain within careful
  refine ⟨reg, l, run, mirrors_faithful mirrors plainDevs plain, fun devName known safe => ?_⟩
  rcases mirrors.deviceUnregister plainDevs plain known safe with unknown | ⟨reg', _, removed, after⟩
  · exact .inl unknown
  · exact .inr ⟨reg', removed, mirrors_faithful after plainDevs plain⟩

def flash : CName := ⟨cstr "spi_flash", by decide⟩

/-- Operations of another device. -/
def otherOps : PartitionDevOps Unit := ⟨0x43000010, none, none, none, some fun _ _ => pure 0⟩

theorem plain_two : Plain [nand, flash] := by
  refine ⟨?_, ?_, ?_⟩
  · simp [nand, flash, cstr]
  · decide
  · decide

/-- Two devices, with a partition each. -/
def twoDevices : List (Call Unit) :=
  [.deviceRegister nand noOps 0x1000, .deviceRegister flash otherOps 0x800,
    .register param nand 0 0x100, .register app1 flash 0x200 0x100]

/-- The device registered last can be removed: its partition stands in slot 1, at its number. -/
theorem removable_flash {reg : Registry Unit} {l : Ledger Unit}
    (run : perform twoDevices (.empty 0x42000000) .empty = some (reg, l)) :
    Call.Safe reg (.deviceUnregister flash) := by
  cases run
  rintro slot found
  obtain rfl : 1 = slot := Option.some.inj found
  refine ⟨rfl, fun i part at_i own => ?_, fun i freed at_i => ?_⟩
  · rcases i with _ | _ | i
    · cases at_i
      cases own
    · cases at_i
      refine ⟨by decide, rfl, fun j other at_j on => ?_⟩
      rcases j with _ | _ | j
      · cases at_j
        cases on
      · rfl
      · cases at_j
    · cases at_i
  · cases at_i

/-- It is removed with its partition; `Param` stays on the other one. -/
theorem device_removed_exactly_last :
    ∃ reg l reg', perform twoDevices (.empty 0x42000000) .empty = some (reg, l) ∧
      Faithful [nand, flash] [param, app1, app2] reg l ∧
      partitionDeviceUnregister reg (some flash.chars) = some (partitionOk, reg') ∧
      Faithful [nand, flash] [param, app1, app2] reg'
        ⟨[⟨nand, noOps, 0x1000⟩], [⟨param, nand, 0, 0x100⟩]⟩ := by
  have within : ∀ call ∈ twoDevices, Call.Within [nand, flash] [param, app1, app2] call := by
    simp [twoDevices, Call.Within]
  have careful : Careful twoDevices (.empty 0x42000000) := by
    refine .cons trivial rfl ?_
    refine .cons trivial rfl ?_
    refine .cons trivial rfl ?_
    exact .cons trivial rfl trivial
  obtain ⟨reg, l, run, faithful, removes⟩ :=
    device_removed_exactly 0x42000000 plain_two plain_parts twoDevices within careful
  have removal := removes flash (.tail _ List.mem_cons_self) (removable_flash run)
  refine ⟨reg, l, ?_⟩
  cases run
  rcases removal with unknown | ⟨reg', removed, after⟩
  · have code : some partitionOk = some partitionErrNoexist :=
      congrArg (Option.map Prod.fst) unknown
    exact absurd code (by decide)
  · exact ⟨reg', rfl, faithful, removed, after⟩

/-- Of three partitions on a device two are still found when the device is gone: the loop visits as
many slots as there are devices. -/
theorem partitions_survive_device : ∃ reg l reg',
    perform (.deviceRegister nand noOps 0x1000 :: threeParts) (.empty 0x42000000) .empty = some (reg, l) ∧
      partitionDeviceUnregister reg (some nand.chars) = some (partitionOk, reg') ∧
      partitionDeviceFind reg' nand.chars = none ∧ (partitionFind reg' app1.chars).isSome ∧
      ¬ Faithful [nand] [param, app1, app2] reg'
        { devices := l.devices.filter fun d => d.name.chars ≠ nand.chars
          partitions := l.partitions.filter fun p => p.dev.chars ≠ nand.chars } := by
  refine ⟨_, _, _, rfl, rfl, rfl, by decide, ?_⟩
  intro faithful
  obtain ⟨p, member, -⟩ := faithful.listed app1 (.tail _ List.mem_cons_self) (by decide)
  exact List.not_mem_nil (show p ∈ [] from member)

end T113Boot.Storage.Exactness
