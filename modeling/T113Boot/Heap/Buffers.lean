/- Module: T113Boot/Heap/Buffers
   layer: specification
   digest: What the heap is for: byte buffers that do not touch each other, call after call. -/

import T113Boot.Heap.Resizing
import T113Boot.Heap.Setup
import T113Boot.Lib.Runs

set_option autoImplicit false
set_option relaxedAutoImplicit false

namespace T113Boot.Heap.Buffers

open T113Boot.Lib.Cells
open T113Boot.Lib.Runs
open T113Boot.Heap.Memheap
open T113Boot.Heap.Headers
open T113Boot.Heap.Threads
open T113Boot.Heap.Rows
open T113Boot.Heap.Allocation
open T113Boot.Heap.Release
open T113Boot.Heap.Resizing
open T113Boot.Heap.Setup

/-- What a client has: the address, and the bytes it knows. -/
structure Buffer where
  ptr : Nat
  bytes : List (Option UInt8)

/-- The calls of a client; it writes to its own buffers. -/
inductive Call
  | alloc (size : UInt32)
  | free (ptr : Nat)
  | realloc (ptr : Nat) (size : UInt32)
  | write (ptr offset : Nat) (value : UInt8)

/-- A new size of a buffer: its first bytes stay known. -/
def resize (bytes : List (Option UInt8)) (size : Nat) : List (Option UInt8) :=
  bytes.take size ++ List.replicate (size - bytes.length) none

/-- The buffers without the one at an address. -/
def without (buffers : List Buffer) (ptr : Nat) : List Buffer :=
  buffers.filter fun b => b.ptr ≠ ptr

/-- The bytes of the buffer at an address. -/
def bytesAt (buffers : List Buffer) (ptr : Nat) : List (Option UInt8) :=
  ((buffers.find? fun b => b.ptr = ptr).map Buffer.bytes).getD []

/-- What a client has after a call and its answer. -/
def next (buffers : List Buffer) : Call → Nat → List Buffer
  | .alloc size, ptr =>
    if ptr = 0 then buffers else ⟨ptr, List.replicate size.toNat none⟩ :: buffers
  | .free ptr, _ => without buffers ptr
  | .realloc old size, ptr =>
    if size = 0 then without buffers old
    else if ptr = 0 then buffers
    else ⟨ptr, resize (bytesAt buffers old) size.toNat⟩ :: without buffers old
  | .write ptr offset value, _ => buffers.map fun b =>
    if b.ptr = ptr then { b with bytes := b.bytes.set offset (some value) } else b

/-- What a client may call: it frees and resizes what it has or nothing, writes inside, and asks for
no size that wraps when it is rounded; nor, of `rt_memheap_realloc`, when `RT_MEMHEAP_MINIALLOC` is
added to that. -/
def Permitted (buffers : List Buffer) : Call → Prop
  | .alloc size => size.toNat ≤ 0xFFFFFFFC
  | .free ptr => ptr = 0 ∨ ∃ b ∈ buffers, b.ptr = ptr
  | .realloc ptr size => (ptr = 0 ∨ ∃ b ∈ buffers, b.ptr = ptr) ∧ size.toNat ≤ 0xFFFFFFF0
  | .write ptr offset _ => ∃ b ∈ buffers, b.ptr = ptr ∧ offset < b.bytes.length

instance (buffers : List Buffer) (c : Call) : Decidable (Permitted buffers c) :=
  match c with
  | .alloc _ => inferInstanceAs (Decidable (_ ≤ _))
  | .free _ => inferInstanceAs (Decidable (_ ∨ _))
  | .realloc _ _ => inferInstanceAs (Decidable ((_ ∨ _) ∧ _))
  | .write _ _ _ => inferInstanceAs (Decidable (∃ b ∈ buffers, _ ∧ _))

structure Session where
  mem : Mem
  buffers : List Buffer

/-- A call to the heap. `none`: it does not return. -/
def call (heap : Nat) (m : Mem) : Call → Option (Nat × Mem)
  | .alloc size => rtMemheapAlloc m heap size
  | .free ptr => some (0, rtMemheapFree m ptr)
  | .realloc ptr size => rtMemheapRealloc m heap ptr size
  | .write ptr offset value => some (0, store m (ptr + offset) [value])

def step (heap : Nat) (s : Session) (c : Call) : Option Session :=
  (call heap s.mem c).map fun (ptr, m) => ⟨m, next s.buffers c ptr⟩

/-- After `rt_memheap_init`. -/
def start (P : Pool) (m : Mem) : Session := ⟨(rtMemheapInit m P.heap P.start P.size).2, []⟩

/-- The buffers lie in the pool, aligned and apart, and hold what the client knows. -/
structure Intact (P : Pool) (s : Session) : Prop where
  placed : ∀ b ∈ s.buffers,
    b.ptr % 4 = 0 ∧ P.start + 24 ≤ b.ptr ∧ b.ptr + b.bytes.length + 24 ≤ P.stop
  apart : s.buffers.Pairwise fun b c =>
    b.ptr + b.bytes.length + 24 ≤ c.ptr ∨ c.ptr + c.bytes.length + 24 ≤ b.ptr
  contents : ∀ b ∈ s.buffers, ∀ i v, b.bytes[i]? = some (some v) → s.mem (b.ptr + i) = v

variable {P : Pool} {L L' : Layout P} {m m' : Mem} {buffers : List Buffer} {b : Buffer} {c : Block}

/-- The used blocks are those of the buffers, and no smaller. -/
structure Owned (m : Mem) (L : Layout P) (buffers : List Buffer) : Prop where
  rep : Represents m L
  nodup : (buffers.map Buffer.ptr).Nodup
  has : ∀ b ∈ buffers, ∃ c ∈ L.blocks, c.used = true ∧ c.ptr = b.ptr ∧ b.bytes.length ≤ c.size
  owner : ∀ c ∈ L.blocks, c.used = true → ∃ b ∈ buffers, b.ptr = c.ptr
  contents : ∀ b ∈ buffers, ∀ i v, b.bytes[i]? = some (some v) → m (b.ptr + i) = v

theorem ptr_inj {c d : Block} (first : c ∈ L.blocks) (second : d ∈ L.blocks)
    (same : c.ptr = d.ptr) : c = d :=
  List.inj_on_of_nodup_map (Fills.nodup L.fills) first second (Nat.add_right_cancel same)

/-- The buffers whose blocks do not go. -/
def staying (buffers : List Buffer) (gone : Option Block) : List Buffer :=
  buffers.filter fun b => ∀ d ∈ gone, b.ptr ≠ d.ptr

theorem Owned.exchange {gone come : Option Block} (owned : Owned m L buffers)
    (exchanged : Exchanged m m' L L' gone come) (old : ∀ d ∈ gone, d ∈ L.blocks)
    (bytes : List (Option UInt8)) (fits : ∀ c ∈ come, bytes.length ≤ c.size)
    (known : ∀ c ∈ come, ∀ i v, bytes[i]? = some (some v) → m' (c.ptr + i) = v) :
    Owned m' L' ((come.map fun c => ⟨c.ptr, bytes⟩).toList ++ staying buffers gone) := by
  have stays (b : Buffer) (member : b ∈ staying buffers gone) :
      b ∈ buffers ∧ ∃ c ∈ L.blocks, c.used = true ∧ c ∉ gone ∧ c ∈ L'.blocks ∧ c.ptr = b.ptr ∧
        b.bytes.length ≤ c.size := by
    obtain ⟨here, other⟩ := List.mem_filter.mp member
    obtain ⟨c, there, used, same, fits⟩ := owned.has b here
    have kept : c ∉ gone := fun goes => of_decide_eq_true other c goes same.symm
    exact ⟨here, c, there, used, kept, ((exchanged.held c).mpr (Or.inr ⟨there, used, kept⟩)).1,
      same, fits⟩
  have comes (b : Buffer) (member : b ∈ (come.map fun c => (⟨c.ptr, bytes⟩ : Buffer)).toList) :
      ∃ c ∈ come, b = ⟨c.ptr, bytes⟩ := by
    obtain ⟨c, here, same⟩ := Option.map_eq_some_iff.mp (Option.mem_toList.mp member)
    exact ⟨c, here, same.symm⟩
  refine ⟨exchanged.rep, ?_, fun b member => ?_, fun c member used => ?_,
    fun b member i v there => ?_⟩
  · have rest : ((staying buffers gone).map Buffer.ptr).Nodup :=
      owned.nodup.sublist (List.filter_sublist.map _)
    cases come with
    | none => exact rest
    | some c =>
      refine List.nodup_cons.mpr ⟨fun there => ?_, rest⟩
      obtain ⟨b, member, same⟩ := List.mem_map.mp there
      obtain ⟨-, d, inside, used, kept, here, addr, -⟩ := stays b member
      have new := (exchanged.held c).mpr (Or.inl rfl)
      have equal : d = c := ptr_inj here new.1 (addr.trans same)
      exact exchanged.fresh d inside used kept (congrArg some equal.symm)
  · rcases List.mem_append.mp member with new | stay
    · obtain ⟨c, here, rfl⟩ := comes b new
      have held := (exchanged.held c).mpr (Or.inl here)
      exact ⟨c, held.1, held.2, rfl, fits c here⟩
    · obtain ⟨-, c, -, used, -, here, same, large⟩ := stays b stay
      exact ⟨c, here, used, same, large⟩
  · rcases (exchanged.held c).mp ⟨member, used⟩ with new | ⟨there, -, kept⟩
    · exact ⟨⟨c.ptr, bytes⟩, by simp [Option.mem_def.mp new], rfl⟩
    · obtain ⟨b, here, same⟩ := owned.owner c there used
      refine ⟨b, List.mem_append_right _ (List.mem_filter.mpr ⟨here, ?_⟩), same⟩
      refine decide_eq_true fun d goes addr => kept ?_
      rwa [ptr_inj there (old d goes) (same.symm.trans addr)]
  · rcases List.mem_append.mp member with new | stay
    · obtain ⟨c, here, rfl⟩ := comes b new
      exact known c here i v there
    · obtain ⟨here, c, inside, used, kept, -, same, large⟩ := stays b stay
      have short : i < b.bytes.length := (List.getElem?_eq_some_iff.mp there).1
      rw [exchanged.others c inside used kept (b.ptr + i) (by omega) (by omega)]
      exact owned.contents b here i v there

theorem staying_none (buffers : List Buffer) : staying buffers none = buffers := by
  simp [staying]

theorem staying_some (buffers : List Buffer) (d : Block) :
    staying buffers (some d) = without buffers d.ptr := by
  simp [staying, without]

theorem Owned.nonnull (owned : Owned m L buffers) (member : b ∈ buffers) : b.ptr ≠ 0 := by
  obtain ⟨c, -, -, same, -⟩ := owned.has b member
  unfold Block.ptr at same
  omega

theorem Owned.without_null (owned : Owned m L buffers) : without buffers 0 = buffers := by
  refine List.filter_eq_self.mpr fun b member => decide_eq_true (owned.nonnull member)

theorem Owned.bytesAt_eq (owned : Owned m L buffers) (member : b ∈ buffers) :
    bytesAt buffers b.ptr = b.bytes := by
  have nodup := owned.nodup
  obtain ⟨front, back, rfl⟩ := List.append_of_mem member
  have found : (front ++ b :: back).find? (fun d => d.ptr = b.ptr) = some b := by
    refine List.find?_eq_some_iff_append.mpr ⟨by simp, front, back, rfl, fun d there => ?_⟩
    have listed : d.ptr ∈ front.map Buffer.ptr := List.mem_map_of_mem there
    rw [List.map_append, List.map_cons] at nodup
    have other : d.ptr ≠ b.ptr := by grind
    simp [other]
  rw [bytesAt, found]
  rfl

theorem Owned.bytesAt_null (owned : Owned m L buffers) : bytesAt buffers 0 = [] := by
  have none : buffers.find? (fun d => d.ptr = 0) = none :=
    List.find?_eq_none.mpr fun b member => by simp [owned.nonnull member]
  rw [bytesAt, none]
  rfl

theorem length_resize (bytes : List (Option UInt8)) (size : Nat) :
    (resize bytes size).length = size := by
  simp [resize]
  omega

theorem resize_known {bytes : List (Option UInt8)} {size i : Nat} {v : UInt8}
    (known : (resize bytes size)[i]? = some (some v)) :
    i < size ∧ bytes[i]? = some (some v) := by
  unfold resize at known
  have small : i < size := by
    have inside := (List.getElem?_eq_some_iff.mp known).1
    simp at inside
    omega
  refine ⟨small, ?_⟩
  by_cases old : i < bytes.length
  · rwa [List.getElem?_append_left (by rw [List.length_take]; omega), List.getElem?_take_of_lt small]
      at known
  · rw [List.getElem?_append_right (by rw [List.length_take]; omega)] at known
    simp [List.getElem?_replicate] at known

/-- Each permitted call returns, and the client has then what it should have. -/
def Serves (P : Pool) (m : Mem) (buffers : List Buffer) (c : Call) : Prop :=
  ∃ ptr m' L', call P.heap m c = some (ptr, m') ∧
    Owned (P := P) m' L' (Buffers.next buffers c ptr) ∧
    field m P.heap .maxUsedSize ≤ field m' P.heap .maxUsedSize

theorem alloc_serves (owned : Owned m L buffers) {size : UInt32} (small : size.toNat ≤ 0xFFFFFFFC) :
    Serves P m buffers (.alloc size) := by
  obtain ⟨⟨ptr, m'⟩, answered, allocated⟩ := rtMemheapAlloc_outcome owned.rep small
  rcases allocated.exchanged with ⟨same, -⟩ | ⟨c, L', answer, large, exchanged⟩
  · cases same
    exact ⟨0, m, L, answered, owned, Nat.le_refl _⟩
  · obtain rfl : ptr = c.ptr := answer
    refine ⟨c.ptr, m', L', answered, ?_, exchanged.peak⟩
    have rounded := roundSize_eq small
    have owned' := owned.exchange exchanged (by simp) (List.replicate size.toNat none)
      (fun d here => by
        obtain rfl := Option.some.inj here
        rw [List.length_replicate]
        omega)
      (fun d here i v there => by simp [List.getElem?_replicate] at there)
    rw [staying_none] at owned'
    rw [Buffers.next, if_neg c.ptr_ne_zero]
    exact owned'

theorem free_serves (owned : Owned m L buffers) {ptr : Nat}
    (held : ptr = 0 ∨ ∃ b ∈ buffers, b.ptr = ptr) : Serves P m buffers (.free ptr) := by
  rcases held with rfl | ⟨b, member, rfl⟩
  · refine ⟨0, m, L, rfl, ?_, Nat.le_refl _⟩
    rw [Buffers.next, owned.without_null]
    exact owned
  · obtain ⟨c, there, used, same, -⟩ := owned.has b member
    obtain ⟨L', exchanged⟩ := rtMemheapFree_exchanges owned.rep there used
    rw [same] at exchanged
    refine ⟨0, rtMemheapFree m b.ptr, L', rfl, ?_, exchanged.peak⟩
    have owned' := owned.exchange exchanged (by simpa using there) [] (by simp) (by simp)
    rw [staying_some, same] at owned'
    exact owned'

theorem realloc_serves (owned : Owned m L buffers) {ptr : Nat} {size : UInt32}
    (held : ptr = 0 ∨ ∃ b ∈ buffers, b.ptr = ptr) (small : size.toNat ≤ 0xFFFFFFF0) :
    Serves P m buffers (.realloc ptr size) := by
  have rounded := roundSize_eq (n := size) (by omega)
  have least := roundSize_least (n := size) (by omega)
  by_cases zero : size = 0
  · obtain ⟨answer, m', L', answered, owned', peak⟩ := free_serves owned held
    cases answered
    refine ⟨0, rtMemheapFree m ptr, L', ?_, ?_, peak⟩
    · rw [call, rtMemheapRealloc_eq, if_neg P.nonnull, if_pos zero]
    · rw [Buffers.next, if_pos zero]
      exact owned'
  rcases held with rfl | ⟨b, member, rfl⟩
  · obtain ⟨⟨answer, m'⟩, answered, allocated⟩ := rtMemheapAlloc_outcome
      (n := .ofNat (roundSize size)) owned.rep (by
        rw [UInt32.toNat_ofNat']
        omega)
    rw [roundSize_ofNat least.1 least.2 (by omega)] at allocated
    have called : call P.heap m (.realloc 0 size) = some (answer, m') := by
      rw [call, rtMemheapRealloc_eq, if_neg P.nonnull, if_neg zero, if_pos rfl, answered]
    rcases allocated.exchanged with ⟨same, -⟩ | ⟨c, L', same, large, exchanged⟩
    · cases same
      refine ⟨0, m, L, called, ?_, Nat.le_refl _⟩
      rw [Buffers.next, if_neg zero, if_pos rfl]
      exact owned
    · obtain rfl : answer = c.ptr := same
      refine ⟨c.ptr, m', L', called, ?_, exchanged.peak⟩
      have owned' := owned.exchange exchanged (by simp) (resize [] size.toNat)
        (fun d here => by
          obtain rfl := Option.some.inj here
          rw [length_resize]
          omega)
        (fun d here i v there => by
          have known := (resize_known there).2
          simp at known)
      rw [staying_none] at owned'
      rw [Buffers.next, if_neg zero, if_neg c.ptr_ne_zero, owned.bytesAt_null, owned.without_null]
      exact owned'
  · obtain ⟨c, there, used, same, fits⟩ := owned.has b member
    obtain ⟨⟨answer, m'⟩, answered, reallocated⟩ := rtMemheapRealloc_outcome owned.rep there used
      zero small
    rw [same] at answered
    cases reallocated with
    | refused =>
      refine ⟨0, m, L, answered, ?_, Nat.le_refl _⟩
      rw [Buffers.next, if_neg zero, if_pos rfl]
      exact owned
    | @moved d _ L' large exchanged copied =>
      refine ⟨d.ptr, m', L', answered, ?_, exchanged.peak⟩
      have owned' := owned.exchange exchanged (by simpa using there)
        (resize b.bytes size.toNat)
        (fun e here => by
          obtain rfl := Option.some.inj here
          rw [length_resize]
          omega)
        (fun e here i v known => by
          obtain rfl := Option.some.inj here
          obtain ⟨low, known⟩ := resize_known known
          have short := (List.getElem?_eq_some_iff.mp known).1
          rw [copied i (by omega) (by omega), same]
          exact owned.contents b member i v known)
      rw [staying_some, same] at owned'
      rw [Buffers.next, if_neg zero, if_neg d.ptr_ne_zero, owned.bytesAt_eq member]
      exact owned'

theorem write_serves (owned : Owned m L buffers) {ptr offset : Nat} {value : UInt8}
    (inside : ∃ b ∈ buffers, b.ptr = ptr ∧ offset < b.bytes.length) :
    Serves P m buffers (.write ptr offset value) := by
  obtain ⟨b, member, rfl, low⟩ := inside
  obtain ⟨c, there, used, same, fits⟩ := owned.has b member
  have outside (x : Nat) (away : x < c.ptr ∨ c.ptr + c.size ≤ x) :
      store m (b.ptr + offset) [value] x = m x :=
    store_outside (by rw [List.length_singleton]; omega)
  obtain ⟨rep, fields⟩ := owned.rep.write there outside
  let written (d : Buffer) : Buffer :=
    if d.ptr = b.ptr then { d with bytes := d.bytes.set offset (some value) } else d
  have ptr (d : Buffer) : (written d).ptr = d.ptr := by
    unfold written
    split <;> rfl
  have length (d : Buffer) : (written d).bytes.length = d.bytes.length := by
    unfold written
    split
    · exact List.length_set
    · rfl
  refine ⟨0, _, L, rfl, ?_, Nat.le_of_eq (fields _).symm⟩
  change Owned _ L (buffers.map written)
  refine ⟨rep, ?_, fun d here => ?_, fun d here mark => ?_, fun d here i v known => ?_⟩
  · have ptrs : (buffers.map written).map Buffer.ptr = buffers.map Buffer.ptr := by
      rw [List.map_map]
      exact List.map_congr_left fun d _ => ptr d
    rw [ptrs]
    exact owned.nodup
  · obtain ⟨d, old, rfl⟩ := List.mem_map.mp here
    rw [ptr, length]
    exact owned.has d old
  · obtain ⟨e, old, addr⟩ := owned.owner d here mark
    exact ⟨written e, List.mem_map_of_mem old, (ptr e).trans addr⟩
  · obtain ⟨d, old, rfl⟩ := List.mem_map.mp here
    rw [ptr]
    by_cases here : d.ptr = b.ptr
    · have bytes : (written d).bytes = d.bytes.set offset (some value) := by
        unfold written
        rw [if_pos here]
      rw [bytes, List.getElem?_set] at known
      by_cases at_ : offset = i
      · subst at_
        rw [if_pos rfl] at known
        split at known
        · rw [here, store_inside (Nat.le_refl _) (by simp), Nat.sub_self]
          exact Option.some.inj (Option.some.inj known)
        · cases known
      · rw [if_neg at_] at known
        rw [here, store_outside (by rw [List.length_singleton]; omega), ← here]
        exact owned.contents d old i v known
    · have same' : written d = d := by
        unfold written
        rw [if_neg here]
      rw [same'] at known
      obtain ⟨e, there', -, addr, fits'⟩ := owned.has d old
      have short := (List.getElem?_eq_some_iff.mp known).1
      have other : e ≠ c := by
        rintro rfl
        exact here (addr.symm.trans same)
      have apart := Fills.disjoint L.fills there' there other
      rw [store_outside (by rw [List.length_singleton]; omega)]
      exact owned.contents d old i v known

theorem call_serves (owned : Owned m L buffers) {c : Call} (permitted : Permitted buffers c) :
    Serves P m buffers c := by
  cases c with
  | alloc size => exact alloc_serves owned permitted
  | free ptr => exact free_serves owned permitted
  | realloc ptr size => exact realloc_serves owned permitted.1 permitted.2
  | write ptr offset value => exact write_serves owned permitted

/-- What owns its blocks has its buffers apart and in the pool. -/
theorem Owned.intact (owned : Owned m L buffers) : Intact P ⟨m, buffers⟩ := by
  refine ⟨fun b member => ?_, ?_, owned.contents⟩
  · obtain ⟨c, there, -, same, fits⟩ := owned.has b member
    have within := L.fills.inside there
    have shaped := L.shaped c there
    have tail := P.tail_add
    unfold Block.ptr at same
    unfold Block.stop at within
    omega
  · refine (List.pairwise_map.mp owned.nodup).imp_of_mem fun {b d} first second other => ?_
    obtain ⟨c, there, -, same, fits⟩ := owned.has b first
    obtain ⟨e, there', -, same', fits'⟩ := owned.has d second
    have different : c ≠ e := by
      rintro rfl
      exact other (same.symm.trans same')
    have apart := L.fills.apart there there' different
    unfold Block.ptr at same same'
    unfold Block.stop at apart
    omega

theorem start_owned (P : Pool) (m : Mem) : Owned (start P m).mem (initial P) [] := by
  obtain ⟨m', answered, rep⟩ := rtMemheapInit_represents P m
  have same : (start P m).mem = m' := congrArg Prod.snd answered
  rw [same]
  refine ⟨rep, List.nodup_nil, by simp, fun c member used => ?_, by simp⟩
  rw [List.mem_singleton.mp member] at used
  cases used

end T113Boot.Heap.Buffers
