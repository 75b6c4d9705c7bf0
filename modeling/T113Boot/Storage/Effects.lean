/- Module: T113Boot/Storage/Effects
   layer: specification
   digest: What each call on the registry can do. -/

import T113Boot.Storage.Names

set_option autoImplicit false
set_option relaxedAutoImplicit false

namespace T113Boot.Storage.Effects

open T113Boot.Storage.Table
open T113Boot.Storage.Names

variable {σ : Type}

theorem partitionDeviceFind_slot {reg : Registry σ} {devName : CStr} {slot : Nat}
    (h : partitionDeviceFind reg devName = some slot) :
    ∃ device, reg.devices[slot]? = some device ∧ slot < reg.devices.length := by
  obtain ⟨inside, -⟩ := List.findIdx?_eq_some_iff_getElem.mp h
  exact ⟨reg.devices[slot], List.getElem?_eq_getElem inside, inside⟩

/-- A device that a registration adds. -/
def newDevice (reg : Registry σ) (devName : CStr) (ops : PartitionDevOps σ) (size : UInt32) :
    PartitionDevice σ :=
  { name := storedName devName, size := size, ops := ops, id := .ofNat reg.devices.length }

/-- A partition that a registration adds. -/
def newPartition (reg : Registry σ) (partitionName : CStr) (start size : UInt32) (dev : Nat) :
    Partition :=
  { name := storedName partitionName, start := start, size := size, dev := dev
    id := .ofNat reg.partitions.length }

/-- A device registration is refused, or it adds one device at the end. -/
inductive DeviceRegistered (reg : Registry σ) (devName : CStr) (ops : PartitionDevOps σ)
    (size : UInt32) : Int × Registry σ → Prop
  | refused {err : Int} (code : err ≠ partitionOk)
      (reason : err = partitionErrFull ∧ reg.devices.length ≥ partitionDevMax ∨
        err = partitionErrExist ∧ (partitionDeviceFind reg devName).isSome) :
      DeviceRegistered reg devName ops size (err, reg)
  | added (room : reg.devices.length < partitionDevMax)
      (fresh : partitionDeviceFind reg devName = none) :
      DeviceRegistered reg devName ops size (partitionOk, { reg with
        devices := reg.devices ++ [newDevice reg devName ops size]
        freedDevices := reg.freedDevices.tail })

theorem partitionDeviceRegister_cases (reg : Registry σ) (devName : CStr) (ops : PartitionDevOps σ)
    (size : UInt32) : DeviceRegistered reg devName ops size
      (partitionDeviceRegister reg (some devName) (some ops) size) := by
  unfold partitionDeviceRegister
  dsimp only
  by_cases full : reg.devices.length ≥ partitionDevMax
  · rw [if_pos full]
    exact .refused (by decide) (.inl ⟨rfl, full⟩)
  · rw [if_neg full]
    by_cases found : (partitionDeviceFind reg devName).isSome
    · rw [if_pos found]
      exact .refused (by decide) (.inr ⟨rfl, found⟩)
    · rw [if_neg found]
      exact .added (by omega) (by simpa using found)

/-- A registration is refused, or it adds one partition at the end, on a device that is there. -/
inductive Registered (reg : Registry σ) (partitionName devName : CStr) (start size : UInt32) :
    Int × Registry σ → Prop
  | refused {err : Int} (code : err ≠ partitionOk)
      (reason : err = partitionErrFull ∧ reg.partitions.length ≥ partitionMax ∨
        err = partitionErrNoexist ∧ partitionDeviceFind reg devName = none ∨
        err = partitionErrExist ∧ (partitionFind reg partitionName).isSome ∨
        err = partitionErrSize ∧ partitionFind reg partitionName = none ∧
          ∃ device ∈ reg.devices, start + size > device.size) :
      Registered reg partitionName devName start size (err, reg)
  | added {slot : Nat} {device : PartitionDevice σ} (room : reg.partitions.length < partitionMax)
      (dev : partitionDeviceFind reg devName = some slot) (there : reg.devices[slot]? = some device)
      (fresh : partitionFind reg partitionName = none) (fits : ¬ start + size > device.size) :
      Registered reg partitionName devName start size (partitionOk, { reg with
        partitions := reg.partitions ++ [newPartition reg partitionName start size slot]
        freed := reg.freed.tail })

theorem partitionRegister_cases (reg : Registry σ) (partitionName devName : CStr)
    (start size : UInt32) : Registered reg partitionName devName start size
      (partitionRegister reg (some partitionName) (some devName) start size) := by
  unfold partitionRegister
  dsimp only
  by_cases full : reg.partitions.length ≥ partitionMax
  · rw [if_pos full]
    exact .refused (by decide) (.inl ⟨rfl, full⟩)
  · rw [if_neg full]
    rcases dev : partitionDeviceFind reg devName with _ | slot
    · exact .refused (by decide) (.inr (.inl ⟨rfl, dev⟩))
    · obtain ⟨device, there, -⟩ := partitionDeviceFind_slot dev
      dsimp only
      by_cases found : (partitionFind reg partitionName).isSome
      · rw [if_pos found]
        exact .refused (by decide) (.inr (.inr (.inl ⟨rfl, found⟩)))
      · have fresh : partitionFind reg partitionName = none := by simpa using found
        rw [if_neg found, there]
        dsimp only [Option.map_some, Option.getD_some]
        by_cases large : start + size > device.size
        · rw [if_pos large]
          exact .refused (by decide)
            (.inr (.inr (.inr ⟨rfl, fresh, device, List.mem_of_getElem? there, large⟩)))
        · rw [if_neg large]
          exact .added (by omega) dev there fresh large

/-- A partition table without slot `k`; the last slot in use is freed, its name cleared. -/
def erased (reg : Registry σ) (k : Nat) : Registry σ :=
  { reg with
    partitions := reg.partitions.eraseIdx k
    freed := (reg.partitions.getLast?.map fun p => { p with name := blankName }).toList ++ reg.freed }

theorem partitionUnregister_unknown {reg : Registry σ} {name : CStr}
    (unknown : partitionFind reg name = none) :
    partitionUnregister reg (some name) = some (partitionErrNoexist, reg) := by
  simp [partitionUnregister, unknown]

theorem partitionUnregister_found {reg : Registry σ} {name : CStr} {part : Partition}
    (found : partitionFind reg name = some part) (inside : part.id.toNat < reg.partitions.length) :
    partitionUnregister reg (some name) = some (partitionOk, erased reg part.id.toNat) := by
  have length : ¬ part.id.toNat > reg.partitions.length - 1 := by omega
  simp [partitionUnregister, found, length, erased]

theorem unregisterOn_add (dev a b i : Nat) (reg : Registry σ) : unregisterOn dev (a + b) i reg =
    (unregisterOn dev a i reg).bind fun reg' => unregisterOn dev b (i + a) reg' := by
  induction a generalizing i reg with
  | zero => simp [unregisterOn]
  | succ a ih =>
    rw [show a + 1 + b = a + b + 1 by omega, show i + (a + 1) = i + 1 + a by omega, unregisterOn,
      unregisterOn]
    split
    · exact ih _ _
    · split
      · split
        · rfl
        · exact ih _ _
      · exact ih _ _

theorem unregisterOn_others {dev n i : Nat} {reg : Registry σ}
    (others : ∀ j part, i ≤ j → j < i + n → (reg.partitions ++ reg.freed)[j]? = some part →
      part.dev ≠ dev) : unregisterOn dev n i reg = some reg := by
  induction n generalizing i with
  | zero => rfl
  | succ n ih =>
    have rest : unregisterOn dev n (i + 1) reg = some reg :=
      ih fun j part from_i to_n => others j part (by omega) (by omega)
    rw [unregisterOn]
    rcases slot : (reg.partitions ++ reg.freed)[i]? with _ | part
    · exact rest
    · dsimp only
      rw [if_neg (others i part (Nat.le_refl i) (by omega) slot)]
      exact rest

theorem unregisterOn_empty {dev n i : Nat} {reg : Registry σ} (empty : reg.partitions = []) :
    unregisterOn dev n i reg = some reg := by
  induction n generalizing i with
  | zero => rfl
  | succ n ih =>
    have unknown (name : CStr) : partitionFind reg name = none := by simp [partitionFind, empty]
    rw [unregisterOn]
    split
    · exact ih
    · split
      · rw [partitionUnregister_unknown (unknown _)]
        exact ih
      · exact ih

/-- A device table without its last slot, which is freed, its name cleared. -/
def dropped (reg : Registry σ) : Registry σ :=
  { reg with
    devices := reg.devices.dropLast
    freedDevices := (reg.devices.getLast?.map fun d => { d with name := blankName }).toList ++
      reg.freedDevices }

theorem partitionDeviceUnregister_unknown {reg : Registry σ} {devName : CStr}
    (unknown : partitionDeviceFind reg devName = none) :
    partitionDeviceUnregister reg (some devName) = some (partitionErrNoexist, reg) := by
  simp [partitionDeviceUnregister, unknown]

theorem partitionDeviceUnregister_found {reg swept : Registry σ} {devName : CStr} {slot : Nat}
    {device : PartitionDevice σ} (found : partitionDeviceFind reg devName = some slot)
    (loop : unregisterOn slot reg.devices.length 0 reg = some swept)
    (there : reg.devices[slot]? = some device) (last : device.id.toNat = reg.devices.length - 1)
    (devices : swept.devices = reg.devices) (freed : swept.freedDevices = reg.freedDevices) :
    partitionDeviceUnregister reg (some devName) = some (partitionOk, dropped swept) := by
  simp [partitionDeviceUnregister, found, loop, there, last, dropped, devices, freed]

end T113Boot.Storage.Effects
