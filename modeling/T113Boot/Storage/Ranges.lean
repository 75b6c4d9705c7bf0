/- Module: T113Boot/Storage/Ranges
   layer: results
   digest: Which requests on a partition stay inside it, with every sum a 32-bit one. -/

import T113Boot.Storage.Lookup

set_option autoImplicit false
set_option relaxedAutoImplicit false

namespace T113Boot.Storage.Ranges

open T113Boot.Lib.Stoppable
open Prog
open T113Boot.Storage.Table
open T113Boot.Storage.Names
open T113Boot.Storage.Effects
open T113Boot.Storage.Lookup

variable {σ : Type}

/-- A call of a device's read, write or erase. -/
structure Access where
  addr : UInt32
  size : UInt32
deriving DecidableEq

/-- A device function that notes its call and then does what it did. -/
def noting {α : Type} (call : Access) (f : Prog σ α) : Prog (σ × List Access) α := fun s =>
  ((f s.1).1, ((f s.1).2, s.2 ++ [call]))

/-- The same device, which notes its calls. -/
def watchedOps (ops : PartitionDevOps σ) : PartitionDevOps (σ × List Access) :=
  { addr := ops.addr
    init := ops.init.map fun f s => ((f s.1).1, ((f s.1).2, s.2))
    read := ops.read.map fun f addr buf size => noting ⟨addr, size⟩ (f addr buf size)
    write := ops.write.map fun f addr buf bs size => noting ⟨addr, size⟩ (f addr buf bs size)
    erase := ops.erase.map fun f addr size => noting ⟨addr, size⟩ (f addr size) }

def watchedDevice (d : PartitionDevice σ) : PartitionDevice (σ × List Access) :=
  { name := d.name, size := d.size, ops := watchedOps d.ops, id := d.id }

/-- The same registry, whose devices note their calls. -/
def watched (reg : Registry σ) : Registry (σ × List Access) :=
  { devTable := reg.devTable
    devices := reg.devices.map watchedDevice
    partitions := reg.partitions
    freedDevices := reg.freedDevices.map watchedDevice
    freed := reg.freed }

/-- A request on a partition. -/
inductive Request where
  | read (name : Option CStr) (buf offset len : UInt32)
  | write (name : Option CStr) (buf : UInt32) (bs : List UInt8) (offset len : UInt32)
  | erase (name : Option CStr) (offset len : UInt32)
  | eraseAll (name : Option CStr)

/-- A request is the call of its access function. -/
def Request.run (reg : Registry σ) : Request → Prog σ Int
  | .read name buf offset len => do
    let answer ← partitionRead reg name buf offset len
    pure answer.1
  | .write name buf bs offset len => partitionWrite reg name buf bs offset len
  | .erase name offset len => partitionErase reg name offset len
  | .eraseAll name => partitionEraseAll reg name

def Request.name : Request → Option CStr
  | .read name .. => name
  | .write name .. => name
  | .erase name .. => name
  | .eraseAll name => name

/-- The partition that a request is about. -/
def Request.partition (reg : Registry σ) (r : Request) : Option Partition :=
  r.name.bind (partitionFind reg)

/-- The offset and the length that a request asks for. -/
def Request.range (part : Partition) : Request → UInt32 × UInt32
  | .read _ _ offset len => (offset, len)
  | .write _ _ _ offset len => (offset, len)
  | .erase _ offset len => (offset, len)
  | .eraseAll _ => (0, part.size)

/-- The address of the buffer, where a request has one. -/
def Request.buffer : Request → Option UInt32
  | .read _ buf _ _ => some buf
  | .write _ buf _ _ _ => some buf
  | _ => none

/-- Whether the device has the function that a request needs. -/
def Request.served (reg : Registry σ) (part : Partition) : Request → Bool
  | .read .. => ((reg.opsOf part).bind (·.read)).isSome
  | .write .. => ((reg.opsOf part).bind (·.write)).isSome
  | _ => ((reg.opsOf part).bind (·.erase)).isSome

/-- The request passes the checks that the access functions make. -/
def Request.Passes (reg : Registry σ) (part : Partition) (r : Request) : Prop :=
  r.buffer ≠ some 0 ∧ (r.range part).1 + (r.range part).2 ≤ part.size ∧ r.served reg part

/-- The calls that a request makes on the device. -/
def Request.calls (reg : Registry σ) (r : Request) (s : σ) : List Access :=
  (r.run (watched reg) (s, [])).2.2

/-- What a request returns. -/
def Request.ret (reg : Registry σ) (r : Request) (s : σ) : Option Int :=
  (r.run (watched reg) (s, [])).1

private theorem opsOf_watched (reg : Registry σ) (part : Partition) :
    (watched reg).opsOf part = (reg.opsOf part).map watchedOps := by
  rw [Registry.opsOf, Registry.opsOf, watched, ← List.map_append, List.getElem?_map, Option.map_map,
    Option.map_map]
  rfl

/-- A request that passes makes one call, and any other one makes none and returns an error. -/
inductive Answered (reg : Registry σ) (r : Request) (s : σ) : Prop
  | called {part : Partition} (found : r.partition reg = some part) (passes : r.Passes reg part)
      (calls : r.calls reg s = [⟨part.start + (r.range part).1, (r.range part).2⟩])
  | refused (fails : ∀ part, r.partition reg = some part → ¬ r.Passes reg part)
      (calls : r.calls reg s = []) (code : ∃ err, r.ret reg s = some err ∧ err ≠ 0)

private theorem refused_of_run {reg : Registry σ} {r : Request} {s : σ} {err : Int}
    (fails : ∀ part, r.partition reg = some part → ¬ r.Passes reg part)
    (run : r.run (watched reg) (s, []) = (some err, (s, []))) (code : err ≠ 0) :
    Answered reg r s := by
  refine .refused fails ?_ ⟨err, ?_, code⟩
  · rw [Request.calls, run]
  · rw [Request.ret, run]

/-- What the range check and the device make of a request, once its entry is found. -/
def Request.tail (reg : Registry σ) (part : Partition) : Request → Prog σ Int
  | .read _ buf offset len => do
    let answer ← readAt reg part buf offset len
    pure answer.1
  | .write _ buf bs offset len => writeAt reg part buf bs offset len
  | .erase _ offset len => eraseAt reg part offset len
  | .eraseAll _ => eraseAt reg part 0 part.size

private theorem eraseAllAt_eq (reg : Registry σ) (part : Partition) :
    eraseAllAt reg part = eraseAt reg part 0 part.size := by
  have whole : ¬ 0 + part.size > part.size := by
    rw [UInt32.zero_add, gt_iff_lt, UInt32.lt_iff_toNat_lt]
    omega
  rw [eraseAllAt, eraseAt, if_neg whole]
  simp only [UInt32.add_zero]

theorem Request.run_eq (reg : Registry σ) (r : Request) (s : σ) :
    r.run reg s =
      if r.name = none ∨ r.buffer = some 0 then (some partitionErrParam, s)
      else match r.partition reg with
        | none => (some partitionErrNoexist, s)
        | some part => r.tail reg part s := by
  cases r with
  | read name buf offset len =>
    rcases name with _ | name
    · rfl
    · by_cases null : buf = 0
      · subst null
        rfl
      · simp only [Request.run, partitionRead, bind_apply, null, if_false, Request.name,
          Request.buffer, Request.partition, Request.tail, Option.bind_some, reduceCtorEq,
          Option.some.injEq, or_self]
        rcases partitionFind reg name with _ | part <;> rfl
  | write name buf bs offset len =>
    rcases name with _ | name
    · rfl
    · by_cases null : buf = 0
      · subst null
        rfl
      · simp only [Request.run, partitionWrite, null, if_false, Request.name, Request.buffer,
          Request.partition, Request.tail, Option.bind_some, reduceCtorEq, Option.some.injEq,
          or_self]
        rcases partitionFind reg name with _ | part <;> rfl
  | erase name offset len =>
    rcases name with _ | name
    · rfl
    · simp only [Request.run, partitionErase, Request.name, Request.buffer, Request.partition,
        Request.tail, Option.bind_some, reduceCtorEq, if_false, or_self]
      rcases partitionFind reg name with _ | part <;> rfl
  | eraseAll name =>
    rcases name with _ | name
    · rfl
    · simp only [Request.run, partitionEraseAll, Request.name, Request.buffer, Request.partition,
        Request.tail, Option.bind_some, reduceCtorEq, if_false, or_self, ← eraseAllAt_eq]
      rcases partitionFind reg name with _ | part <;> rfl

theorem Request.tail_watched (reg : Registry σ) (r : Request) (part : Partition) (s : σ) :
    ∃ code s', r.tail (watched reg) part (s, []) =
      if (r.range part).1 + (r.range part).2 > part.size then (some partitionErrSize, (s, []))
      else if r.served reg part then
        (code, (s', [⟨part.start + (r.range part).1, (r.range part).2⟩]))
      else (some partitionErrUnknown, (s, [])) := by
  have erasing (offset len : UInt32) : ∃ code s', eraseAt (watched reg) part offset len (s, []) =
      if offset + len > part.size then (some partitionErrSize, (s, []))
      else if ((reg.opsOf part).bind (·.erase)).isSome then
        (code, (s', [⟨part.start + offset, len⟩]))
      else (some partitionErrUnknown, (s, [])) := by
    rw [eraseAt, opsOf_watched]
    by_cases large : offset + len > part.size
    · exact ⟨none, s, by rw [if_pos large, if_pos large]; rfl⟩
    · simp only [large, if_false]
      rcases reg.opsOf part with _ | ⟨addr, init, read, write, _ | f⟩
      · exact ⟨none, s, rfl⟩
      · exact ⟨none, s, rfl⟩
      · exact ⟨_, _, rfl⟩
  cases r with
  | read name buf offset len =>
    rw [Request.tail, readAt, opsOf_watched, Request.range, Request.served]
    dsimp only
    by_cases large : offset + len > part.size
    · exact ⟨none, s, by rw [if_pos large, if_pos large]; rfl⟩
    · simp only [large, if_false]
      rcases reg.opsOf part with _ | ⟨addr, init, _ | f, write, erase⟩
      · exact ⟨none, s, rfl⟩
      · exact ⟨none, s, rfl⟩
      · refine ⟨(f (part.start + offset) buf len s).1.map (·.1),
          (f (part.start + offset) buf len s).2, ?_⟩
        simp only [watchedOps, Option.map_some, Option.bind_some, Option.isSome_some, if_true,
          bind_apply, noting]
        rcases f (part.start + offset) buf len s with ⟨_ | answer, s'⟩ <;> rfl
  | write name buf bs offset len =>
    rw [Request.tail, writeAt, opsOf_watched, Request.range, Request.served]
    dsimp only
    by_cases large : offset + len > part.size
    · exact ⟨none, s, by rw [if_pos large, if_pos large]; rfl⟩
    · simp only [large, if_false]
      rcases reg.opsOf part with _ | ⟨addr, init, read, _ | f, erase⟩
      · exact ⟨none, s, rfl⟩
      · exact ⟨none, s, rfl⟩
      · exact ⟨_, _, rfl⟩
  | erase name offset len => exact erasing offset len
  | eraseAll name => exact erasing 0 part.size

/-- A request that passes makes one call, and any other one makes none and returns an error. -/
theorem Request.answered (reg : Registry σ) (r : Request) (s : σ) : Answered reg r s := by
  have run := r.run_eq (watched reg) (s, [])
  have same : r.partition (watched reg) = r.partition reg := rfl
  rw [same] at run
  by_cases null : r.name = none ∨ r.buffer = some 0
  · rw [if_pos null] at run
    refine refused_of_run (fun part found passes => ?_) run (by decide)
    rcases null with unnamed | null
    · rw [Request.partition, unnamed] at found
      cases found
    · exact passes.1 null
  · rw [if_neg null] at run
    rcases found : r.partition reg with _ | part
    · rw [found] at run
      refine refused_of_run (fun part is => ?_) run (by decide)
      rw [found] at is
      cases is
    · obtain ⟨code, s', tail⟩ := r.tail_watched reg part s
      rw [found] at run
      dsimp only at run
      rw [tail] at run
      have only {p : Partition} (is : r.partition reg = some p) : p = part := by
        rw [found] at is
        exact (Option.some.inj is).symm
      by_cases large : (r.range part).1 + (r.range part).2 > part.size
      · rw [if_pos large] at run
        refine refused_of_run (fun p is passes => ?_) run (by decide)
        rw [only is] at passes
        exact absurd passes.2.1 (UInt32.not_le.mpr large)
      · rw [if_neg large] at run
        by_cases served : r.served reg part
        · rw [if_pos served] at run
          refine .called found ⟨fun bad => null (.inr bad), UInt32.not_lt.mp large, served⟩ ?_
          rw [Request.calls, run]
        · rw [if_neg served] at run
          refine refused_of_run (fun p is passes => ?_) run (by decide)
          rw [only is] at passes
          exact served passes.2.2

/-- Every call that a request makes lies, in exact integers, inside the partition, which lies
inside its device; and a request that makes no call returns an error. -/
def Contained (reg : Registry σ) (r : Request) (s : σ) : Prop :=
  (∀ call ∈ r.calls reg s, ∃ part device, r.partition reg = some part ∧
    reg.devices[part.dev]? = some device ∧ part.start.toNat ≤ call.addr.toNat ∧
    call.addr.toNat + call.size.toNat ≤ part.start.toNat + part.size.toNat ∧
    part.start.toNat + part.size.toNat ≤ device.size.toNat) ∧
  (r.calls reg s = [] → ∃ err, r.ret reg s = some err ∧ err ≠ 0)

/-- Neither the end of the partition nor the end of the request leaves the 32-bit words. -/
def Unwrapped (part : Partition) (r : Request) : Prop :=
  part.start.toNat + part.size.toNat < 4294967296 ∧
    (r.range part).1.toNat + (r.range part).2.toNat < 4294967296

/-- Every partition was registered inside its device, as far as 32-bit sums tell. -/
def OnDevice (reg : Registry σ) : Prop :=
  ∀ part ∈ reg.partitions, ∃ device, reg.devices[part.dev]? = some device ∧
    part.start + part.size ≤ device.size

theorem onDevice_file {b : Books σ} (placed : OnDevice b.reg) (call : Registration σ) :
    OnDevice (b.file call).reg := by
  cases call with
  | device devName ops size =>
    have answer := partitionDeviceRegister_cases b.reg devName.chars ops size
    simp only [Books.file]
    generalize partitionDeviceRegister b.reg (some devName.chars) (some ops) size = r at answer ⊢
    cases answer with
    | refused code reason => exact placed
    | added room fresh =>
      intro part member
      obtain ⟨device, there, fits⟩ := placed part member
      obtain ⟨inside, -⟩ := List.getElem?_eq_some_iff.mp there
      exact ⟨device, by rw [List.getElem?_append_left inside]; exact there, fits⟩
  | partition partitionName devName start size =>
    have answer := partitionRegister_cases b.reg partitionName.chars devName.chars start size
    simp only [Books.file]
    generalize partitionRegister b.reg (some partitionName.chars) (some devName.chars) start size = r
      at answer ⊢
    cases answer with
    | refused code reason => exact placed
    | @added slot device room dev there fresh fits =>
      intro part member
      rcases List.mem_append.mp member with old | new
      · exact placed part old
      · rw [List.mem_singleton.mp new]
        exact ⟨device, there, UInt32.not_lt.mp fits⟩

theorem onDevice_filed (devTable : UInt32) (calls : List (Registration σ)) :
    OnDevice (filed devTable calls).reg := by
  have start : OnDevice (⟨.empty devTable, [], []⟩ : Books σ).reg := fun part member =>
    absurd member List.not_mem_nil
  unfold filed
  generalize (⟨.empty devTable, [], []⟩ : Books σ) = b at start ⊢
  induction calls generalizing b with
  | nil => exact start
  | cons call calls ih => exact ih _ (onDevice_file start call)

theorem Request.mem {reg : Registry σ} {r : Request} {part : Partition}
    (found : r.partition reg = some part) : part ∈ reg.partitions := by
  rw [Request.partition, Option.bind_eq_some_iff] at found
  obtain ⟨name, -, entry⟩ := found
  exact List.mem_of_find?_eq_some entry

/-- After any registrations, a request is contained in its partition, or rejected with an error,
if and only if it does not pass the checks or none of its exact sums leaves the 32-bit words. -/
theorem contained_iff (devTable : UInt32) (calls : List (Registration σ)) (r : Request) (s : σ) :
    Contained (filed devTable calls).reg r s ↔
      ∀ part, r.partition (filed devTable calls).reg = some part →
        r.Passes (filed devTable calls).reg part → Unwrapped part r := by
  have placed := onDevice_filed devTable calls
  generalize (filed devTable calls).reg = reg at placed ⊢
  cases r.answered reg s with
  | refused fails none code =>
    refine iff_of_true ⟨fun call member => ?_, fun _ => code⟩ fun part found passes => ?_
    · rw [none] at member
      exact absurd member List.not_mem_nil
    · exact absurd passes (fails part found)
  | @called part found passes one =>
    obtain ⟨device, there, fits⟩ := placed part (Request.mem found)
    have range := passes.2.1
    rw [UInt32.le_iff_toNat_le, UInt32.toNat_add] at fits range
    have low := part.start.toNat_lt
    have high := part.size.toNat_lt
    have top := device.size.toNat_lt
    constructor
    · rintro ⟨inside, -⟩ p is -
      rw [found] at is
      cases is
      obtain ⟨part', device', found', there', start, stop, limit⟩ := inside _ (by
        rw [one]
        exact List.mem_singleton.mpr rfl)
      rw [found] at found'
      cases found'
      dsimp only at start stop
      rw [UInt32.toNat_add] at start stop
      have below := device'.size.toNat_lt
      have offset := (r.range part).1.toNat_lt
      have len := (r.range part).2.toNat_lt
      exact ⟨by omega, by omega⟩
    · intro unwrapped
      obtain ⟨sum, stop⟩ := unwrapped part found passes
      refine ⟨fun call member => ?_, fun none => by rw [none] at one; cases one⟩
      rw [one, List.mem_singleton] at member
      have addr : call.addr.toNat = part.start.toNat + (r.range part).1.toNat := by
        rw [member, UInt32.toNat_add]
        omega
      have size : call.size = (r.range part).2 := by rw [member]
      exact ⟨part, device, found, there, by omega, by rw [addr, size]; omega, by omega⟩

/-- A partition of one page behind the first on a device that has only a read. -/
def secondPage : List (Registration Unit) :=
  [.device ⟨cstr "nand_flash", noNul_nand⟩
      ⟨0x43000000, none, some fun _ _ _ => pure (0, []), none, none⟩ 0x10000000,
    .partition ⟨cstr "APP1", noNul_app1⟩ ⟨cstr "nand_flash", noNul_nand⟩ 0x800 0x800]

/-- A read of one byte at offset 2 ^ 32 - 1 goes to the byte before the partition. -/
theorem wrapped_escapes :
    ¬ Contained (filed 0x42000000 secondPage).reg (.read (some (cstr "APP1")) 1 0xFFFFFFFF 1) () := by
  intro contained
  have calls : (Request.read (some (cstr "APP1")) 1 0xFFFFFFFF 1).calls (filed 0x42000000 secondPage).reg () =
      [⟨0x7FF, 1⟩] := by decide
  obtain ⟨part, device, found, -, start, -⟩ := contained.1 _ (by
    rw [calls]
    exact List.mem_singleton.mpr rfl)
  have entry : part = ⟨storedName (cstr "APP1"), 0x800, 0x800, 0, 0⟩ := by
    have here : (Request.read (some (cstr "APP1")) 1 0xFFFFFFFF 1).partition (filed 0x42000000 secondPage).reg =
        some ⟨storedName (cstr "APP1"), 0x800, 0x800, 0, 0⟩ := by decide
    rw [here] at found
    exact (Option.some.inj found).symm
  rw [entry] at start
  revert start
  decide

end T113Boot.Storage.Ranges
