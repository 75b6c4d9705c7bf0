/- Module: T113Boot/Heap/Memheap
   layer: model
   digest: The boot loader's heap: blocks and free blocks as two rings of headers in memory. -/

import T113Boot.Lib.LittleEndian
import T113Boot.Lib.Moves

set_option autoImplicit false
set_option relaxedAutoImplicit false

namespace T113Boot.Heap.Memheap

open T113Boot.Lib.Cells
open T113Boot.Lib.LittleEndian
open T113Boot.Lib.Moves

/-- `unsigned int` arithmetic: a sum, and a difference. -/
def add32 (a b : Nat) : Nat := (a + b) % 4294967296

def sub32 (a b : Nat) : Nat := (a + (4294967296 - b % 4294967296)) % 4294967296

def load (m : Mem) (a : Nat) : Nat := (wordAt (slice m a 4) 0).toNat

def put (m : Mem) (a v : Nat) : Mem := store m a (le32 (.ofNat v))

/-- The members of `struct rt_memheap_item`. -/
inductive Member
  | magic
  | poolPtr
  | next
  | prev
  | nextFree
  | prevFree
deriving DecidableEq

def Member.offset : Member → Nat
  | .magic => 0
  | .poolPtr => 4
  | .next => 8
  | .prev => 12
  | .nextFree => 16
  | .prevFree => 20

/-- `item->member`. -/
def get (m : Mem) (item : Nat) (f : Member) : Nat := load m (item + f.offset)

def set (m : Mem) (item : Nat) (f : Member) (v : Nat) : Mem := put m (item + f.offset) v

/-- The members of `struct rt_memheap`, but for `free_header`. -/
inductive Entry
  | startAddr
  | poolSize
  | availableSize
  | maxUsedSize
  | blockList
  | freeList
  | locked
deriving DecidableEq

def Entry.offset : Entry → Nat
  | .startAddr => 0
  | .poolSize => 4
  | .availableSize => 8
  | .maxUsedSize => 12
  | .blockList => 16
  | .freeList => 20
  | .locked => 48

/-- `heap->entry`. -/
def field (m : Mem) (heap : Nat) (e : Entry) : Nat := load m (heap + e.offset)

def setField (m : Mem) (heap : Nat) (e : Entry) (v : Nat) : Mem := put m (heap + e.offset) v

/-- `&heap->free_header`. -/
def freeHeader (heap : Nat) : Nat := heap + 24

def rtAlignSize : UInt32 := 4

/-- `RT_ALIGN`, with the wrap of 32 bits. -/
def rtAlign (size align : UInt32) : UInt32 := (size + align - 1) &&& ~~~(align - 1)

def rtAlignDown (size align : UInt32) : UInt32 := size &&& ~~~(align - 1)

/-- `RT_MEMHEAP_MAGIC | RT_MEMHEAP_USED`, and with `RT_MEMHEAP_FREED`. -/
def magicUsed : Nat := 0x1ea01ea1

def magicFreed : Nat := 0x1ea01ea0

/-- `magic & RT_MEMHEAP_MASK`. -/
def magicMasked (magic : Nat) : Nat := magic &&& 0xFFFFFFFE

/-- `RT_MEMHEAP_IS_USED`. -/
def isUsed (m : Mem) (item : Nat) : Prop := get m item .magic &&& 1 ≠ 0

instance (m : Mem) (item : Nat) : Decidable (isUsed m item) := inferInstanceAs (Decidable (_ ≠ _))

/-- `RT_MEMHEAP_MINIALLOC`. -/
def miniAlloc : Nat := 12

/-- `RT_MEMHEAP_SIZE`. -/
def headerSize : Nat := 24

/-- `MEMITEM_SIZE`. -/
def memitemSize (m : Mem) (item : Nat) : Nat := sub32 (sub32 (get m item .next) item) headerSize

/-- The size a request is rounded to. -/
def roundSize (size : UInt32) : Nat :=
  let size := (rtAlign size rtAlignSize).toNat
  if size < miniAlloc then miniAlloc else size

/-- A new item is marked as freed and given its pool. -/
def newItem (m : Mem) (heap item : Nat) : Mem :=
  set (set m item .magic magicFreed) item .poolPtr heap

/-- "break down the block list": `newPtr` goes behind `headerPtr`. -/
def breakDown (m : Mem) (headerPtr newPtr : Nat) : Mem :=
  let m := set m newPtr .prev headerPtr
  let m := set m newPtr .next (get m headerPtr .next)
  let m := set m (get m headerPtr .next) .prev newPtr
  set m headerPtr .next newPtr

/-- `item` goes from the free list, its own links staying. -/
def removeFree (m : Mem) (item : Nat) : Mem :=
  let m := set m (get m item .nextFree) .prevFree (get m item .prevFree)
  set m (get m item .prevFree) .nextFree (get m item .nextFree)

/-- The links of an item that was taken from the free list are cleared. -/
def clearFree (m : Mem) (item : Nat) : Mem :=
  set (set m item .nextFree 0) item .prevFree 0

/-- `newPtr` goes to the front of the free list. -/
def insertFree (m : Mem) (heap newPtr : Nat) : Mem :=
  let freeList := field m heap .freeList
  let m := set m newPtr .nextFree (get m freeList .nextFree)
  let m := set m newPtr .prevFree freeList
  let m := set m (get m freeList .nextFree) .prevFree newPtr
  set m freeList .nextFree newPtr

/-- `newPtr` goes before the first item of the free list. -/
def putBack (m : Mem) (heap newPtr : Nat) : Mem :=
  let n := get m (field m heap .freeList) .nextFree
  let m := set m newPtr .nextFree n
  let m := set m newPtr .prevFree (get m n .prevFree)
  let m := set m (get m n .prevFree) .nextFree newPtr
  set m n .prevFree newPtr

/-- `item` goes from the block list, its own links staying. -/
def removeBlock (m : Mem) (item : Nat) : Mem :=
  let m := set m (get m item .next) .prev (get m item .prev)
  set m (get m item .prev) .next (get m item .next)

/-- The block before `headerPtr` takes it in. -/
def mergePrev (m : Mem) (headerPtr : Nat) : Mem :=
  let m := set m (get m headerPtr .prev) .next (get m headerPtr .next)
  set m (get m headerPtr .next) .prev (get m headerPtr .prev)

/-- `headerPtr` takes the block behind it in, `newPtr`. -/
def mergeNext (m : Mem) (headerPtr newPtr : Nat) : Mem :=
  let m := set m (get m newPtr .next) .prev headerPtr
  set m headerPtr .next (get m newPtr .next)

/-- `available_size` becomes `size`, and `max_used_size` is raised to what is used then. -/
def charge (m : Mem) (heap size : Nat) : Mem :=
  let m := setField m heap .availableSize size
  let used := sub32 (field m heap .poolSize) (field m heap .availableSize)
  if used > field m heap .maxUsedSize then setField m heap .maxUsedSize used else m

def setAvailable (m : Mem) (heap size : Nat) : Mem := setField m heap .availableSize size

/-- `rt_memheap_init`. -/
def rtMemheapInit (m : Mem) (memheap startAddr : Nat) (size : UInt32) : Int × Mem :=
  if memheap = 0 then (-1, m)
  else
    let poolSize := (rtAlignDown size rtAlignSize).toNat
    let available := sub32 poolSize (2 * headerSize)
    let m := setField m memheap .startAddr startAddr
    let m := setField m memheap .poolSize poolSize
    let m := setField m memheap .availableSize available
    let m := setField m memheap .maxUsedSize (sub32 poolSize available)
    let item := freeHeader memheap
    let m := newItem m memheap item
    let m := set (set m item .next 0) item .prev 0
    let m := set (set m item .nextFree item) item .prevFree item
    let m := setField m memheap .freeList item
    let item := startAddr
    let m := newItem m memheap item
    let m := set (set m item .next 0) item .prev 0
    let m := set (set m item .nextFree item) item .prevFree item
    let m := set m item .next (add32 (add32 item available) headerSize)
    let m := set m item .prev (get m item .next)
    let m := setField m memheap .blockList item
    let m := insertFree m memheap item
    let item := get m item .next
    let m := set (set m item .magic magicUsed) item .poolPtr memheap
    let m := set (set m item .next startAddr) item .prev startAddr
    let m := set (set m item .prevFree 0) item .nextFree 0
    (0, setField m memheap .locked 0)

/-- The search for the first free block that is large enough: the block at which it ends, and the
size of the block last seen. `none`: the turns did not do. -/
def search (m : Mem) (freeList size : Nat) : Nat → Nat → Nat → Option (Nat × Nat)
  | 0, _, _ => none
  | turns + 1, headerPtr, freeSize =>
    if headerPtr ≠ freeList ∧ freeSize < size then
      let freeSize := memitemSize m headerPtr
      if freeSize < size then search m freeList size turns (get m headerPtr .nextFree) freeSize
      else search m freeList size turns headerPtr freeSize
    else some (headerPtr, freeSize)

/-- The turns that are waited for: two for each header that fits into the pool. -/
def searchTurns (m : Mem) (heap : Nat) : Nat := field m heap .poolSize + 2

/-- `rt_memheap_alloc`, which answers the pointer. `none`: it does not return. -/
def rtMemheapAlloc (m : Mem) (heap : Nat) (size : UInt32) : Option (Nat × Mem) :=
  if heap = 0 then some (0, m)
  else
    let size := roundSize size
    if size < field m heap .availableSize then
      let freeList := field m heap .freeList
      (search m freeList size (searchTurns m heap) (get m freeList .nextFree) 0).map
        fun (headerPtr, freeSize) =>
          if freeSize ≥ size then
            let m :=
              if freeSize ≥ add32 (add32 size headerSize) miniAlloc then
                let newPtr := add32 (add32 headerPtr size) headerSize
                let m := newItem m heap newPtr
                let m := breakDown m headerPtr newPtr
                let m := clearFree (removeFree m headerPtr) headerPtr
                let m := insertFree m heap newPtr
                charge m heap (sub32 (sub32 (field m heap .availableSize) size) headerSize)
              else
                let m := charge m heap (sub32 (field m heap .availableSize) freeSize)
                clearFree (removeFree m headerPtr) headerPtr
            (add32 headerPtr headerSize, set m headerPtr .magic magicUsed)
          else (0, m)
    else some (0, m)

/-- `rt_memheap_free`. -/
def rtMemheapFree (m : Mem) (ptr : Nat) : Mem :=
  if ptr = 0 then m
  else
    let headerPtr := sub32 ptr headerSize
    if get m headerPtr .magic ≠ magicUsed ∨
        magicMasked (get m (get m headerPtr .next) .magic) ≠ magicFreed then m
    else
      let heap := get m headerPtr .poolPtr
      if heap = 0 then m
      else
        let m := set m headerPtr .magic magicFreed
        let m := setAvailable m heap (add32 (field m heap .availableSize) (memitemSize m headerPtr))
        let insertHeader := isUsed m (get m headerPtr .prev)
        let merged :=
          if insertHeader then (headerPtr, m)
          else
            let m := setAvailable m heap (add32 (field m heap .availableSize) headerSize)
            let m := mergePrev m headerPtr
            (get m headerPtr .prev, m)
        let headerPtr := merged.1
        let m := merged.2
        let m :=
          if isUsed m (get m headerPtr .next) then m
          else
            let m := setAvailable m heap (add32 (field m heap .availableSize) headerSize)
            let newPtr := get m headerPtr .next
            removeFree (mergeNext m headerPtr newPtr) newPtr
        if insertHeader then putBack m heap headerPtr else m

/-- `rt_memcpy`. -/
def rtMemcpy (m : Mem) (dst src count : Nat) : Mem :=
  if dst ≤ src ∨ dst > add32 src count then copyUp m dst src count else copyDown m dst src count

/-- `rt_memheap_realloc`, which answers the pointer. -/
def rtMemheapRealloc (m : Mem) (heap ptr : Nat) (newsize : UInt32) : Option (Nat × Mem) :=
  if heap = 0 then some (0, m)
  else if newsize = 0 then some (0, rtMemheapFree m ptr)
  else
    let size := roundSize newsize
    if ptr = 0 then rtMemheapAlloc m heap (.ofNat size)
    else
      let headerPtr := sub32 ptr headerSize
      let oldsize := memitemSize m headerPtr
      if size > oldsize then
        let nextPtr := get m headerPtr .next
        if nextPtr < headerPtr then some (0, m)
        else
          let nextsize := memitemSize m nextPtr
          if ¬ isUsed m nextPtr ∧ nextPtr = 0 then some (0, m)
          else if ¬ isUsed m nextPtr ∧ add32 nextsize oldsize > add32 size miniAlloc then
            let m := charge m heap (sub32 (field m heap .availableSize) (sub32 size oldsize))
            let m := removeBlock (removeFree m nextPtr) nextPtr
            let nextPtr := add32 ptr size
            let m := newItem m heap nextPtr
            let m := breakDown m headerPtr nextPtr
            some (ptr, insertFree m heap nextPtr)
          else
            (rtMemheapAlloc m heap (.ofNat size)).map fun (newPtr, m) =>
              if newPtr ≠ 0 then
                let m := rtMemcpy m newPtr ptr (if oldsize < size then oldsize else size)
                (newPtr, rtMemheapFree m ptr)
              else (newPtr, m)
      else if add32 (add32 size headerSize) miniAlloc ≥ oldsize then some (ptr, m)
      else
        let newPtr := add32 (add32 headerPtr size) headerSize
        let m := newItem m heap newPtr
        let m := breakDown m headerPtr newPtr
        let m :=
          if isUsed m (get m newPtr .next) then m
          else
            let freePtr := get m newPtr .next
            let m := setAvailable m heap
              (sub32 (field m heap .availableSize) (memitemSize m freePtr))
            removeFree (mergeNext m newPtr freePtr) freePtr
        let m := insertFree m heap newPtr
        some (ptr, setAvailable m heap
          (add32 (field m heap .availableSize) (memitemSize m newPtr)))

/-- `rt_memheap_info`: the total, the used and the maximum used size. -/
def rtMemheapInfo (m : Mem) (heap : Nat) : Nat × Nat × Nat :=
  (field m heap .poolSize, sub32 (field m heap .poolSize) (field m heap .availableSize),
    field m heap .maxUsedSize)

end T113Boot.Heap.Memheap
