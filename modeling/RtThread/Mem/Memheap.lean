import RtThread.Mem.Memory

/-!
# `memheap.c`: the memheap allocator

Every block of the pool starts with a `struct rt_memheap_item`, linked into the block list and, if the block is free, into
the free list of the heap. Items are named by their addresses. A call holds the lock of the heap from start to end. A
function that returns `none` is one whose assertion fails.
-/

namespace RtThread

/-- `struct rt_memheap_item`. -/
structure MemheapItem where
  magic : Nat
  poolPtr : Nat
  next : Nat
  prev : Nat
  nextFree : Nat
  prevFree : Nat
  deriving DecidableEq

/-- What the target decides: the size of an item, its bytes, and `RT_MEMHEAP_BEST_MODE`. -/
structure MemheapConfig extends Word where
  itemSize : Nat
  bestMode : Bool
  enc : MemheapItem → Nat → UInt8
  bits_ge : 32 ≤ bits
  itemSize_ge : 12 ≤ itemSize
  itemSize_lt : itemSize + alignSize ≤ 2 ^ bits

namespace MemheapConfig

/-- `RT_MEMHEAP_SIZE`. -/
def memheapSize (c : MemheapConfig) : Nat := c.rtAlign c.itemSize

/-- `RT_MEMHEAP_MINIALLOC`. -/
def minialloc (c : MemheapConfig) : Nat := c.rtAlign 12

/-- A `rt_int32_t` that gets `n`, when it is added to a `rt_size_t`. -/
def int32 (c : MemheapConfig) (n : Nat) : Nat :=
  let m := n % 2 ^ 32
  if m < 2 ^ 31 then m else m + (2 ^ c.bits - 2 ^ 32)

end MemheapConfig

/-- `RT_MEMHEAP_MAGIC`. -/
def memheapMagic : Nat := 0x1ea01ea0

/-- `RT_MEMHEAP_MASK`. -/
def memheapMask : Nat := 0xFFFFFFFE

/-- `RT_MEMHEAP_USED`. -/
def memheapUsed : Nat := 0x01

/-- `RT_MEMHEAP_FREED`. -/
def memheapFreed : Nat := 0x00

/-- `RT_MEMHEAP_IS_USED`. -/
def MemheapItem.isUsed (i : MemheapItem) : Bool := i.magic &&& memheapUsed != 0

/-- `struct rt_memheap`, with its address and the memory. `freeList` is the address of `free_header`. -/
structure Memheap where
  addr : Nat
  startAddr : Nat
  poolSize : Nat
  availableSize : Nat
  maxUsedSize : Nat
  blockList : Nat
  freeList : Nat
  mem : Store MemheapItem

namespace Memheap

variable (c : MemheapConfig)

/-- The item at an address. -/
def item (h : Memheap) (x : Nat) : MemheapItem := h.mem.item x

def setItem (h : Memheap) (x : Nat) (i : MemheapItem) : Memheap :=
  { h with mem := h.mem.put c.enc c.memheapSize x i }

def modItem (h : Memheap) (x : Nat) (f : MemheapItem → MemheapItem) : Memheap := h.setItem c x (f (h.item x))

/-- `MEMITEM_SIZE`. -/
def memitemSize (h : Memheap) (x : Nat) : Nat := c.sub (c.sub (h.item x).next x) c.memheapSize

/-- `rt_memheap_init`. -/
def rtMemheapInit (mem : Store MemheapItem) (memheap freeHeader startAddr size : Nat) : Memheap :=
  let poolSize := c.rtAlignDown size
  let availableSize := c.sub poolSize (2 * c.memheapSize)
  let h : Memheap :=
    { addr := memheap
      startAddr := startAddr
      poolSize := poolSize
      availableSize := availableSize
      maxUsedSize := c.sub poolSize availableSize
      blockList := startAddr
      freeList := freeHeader
      mem := mem }
  let h := h.setItem c freeHeader
    { magic := memheapMagic ||| memheapFreed, poolPtr := memheap, next := 0, prev := 0, nextFree := freeHeader,
      prevFree := freeHeader }
  let tail := c.add (c.add startAddr availableSize) c.memheapSize
  let h := h.setItem c startAddr
    { magic := memheapMagic ||| memheapFreed, poolPtr := memheap, next := tail, prev := tail,
      nextFree := (h.item freeHeader).nextFree, prevFree := freeHeader }
  let h := h.modItem c (h.item freeHeader).nextFree fun i => { i with prevFree := startAddr }
  let h := h.modItem c freeHeader fun i => { i with nextFree := startAddr }
  h.setItem c tail
    { magic := memheapMagic ||| memheapUsed, poolPtr := memheap, next := startAddr, prev := startAddr, nextFree := 0,
      prevFree := 0 }

/-! ## The two lists -/

/-- A new free block at `new`, behind the block `x` in the block list. -/
def insertBlock (h : Memheap) (x new : Nat) : Memheap :=
  let h := h.modItem c new fun i =>
    { i with magic := memheapMagic ||| memheapFreed, poolPtr := h.addr, prev := x, next := (h.item x).next }
  let h := h.modItem c (h.item x).next fun i => { i with prev := new }
  h.modItem c x fun i => { i with next := new }

/-- Remove `x` from the free list. -/
def removeFree (h : Memheap) (x : Nat) : Memheap :=
  let h := h.modItem c (h.item x).nextFree fun i => { i with prevFree := (h.item x).prevFree }
  h.modItem c (h.item x).prevFree fun i => { i with nextFree := (h.item x).nextFree }

/-- Insert `x` at the head of the free list. -/
def insertFree (h : Memheap) (x : Nat) : Memheap :=
  let h := h.modItem c x fun i => { i with nextFree := (h.item h.freeList).nextFree, prevFree := h.freeList }
  let h := h.modItem c (h.item h.freeList).nextFree fun i => { i with prevFree := x }
  h.modItem c h.freeList fun i => { i with nextFree := x }

/-- Insert `x` into the free list before `n`. -/
def insertFreeBefore (h : Memheap) (x n : Nat) : Memheap :=
  let h := h.modItem c x fun i => { i with nextFree := n, prevFree := (h.item n).prevFree }
  let h := h.modItem c (h.item n).prevFree fun i => { i with nextFree := x }
  h.modItem c n fun i => { i with prevFree := x }

/-- `_remove_next_ptr`. -/
def removeNextPtr (h : Memheap) (nextPtr : Nat) : Memheap :=
  let h := h.removeFree c nextPtr
  let h := h.modItem c (h.item nextPtr).next fun i => { i with prev := (h.item nextPtr).prev }
  h.modItem c (h.item nextPtr).prev fun i => { i with next := (h.item nextPtr).next }

/-- The block `x` takes over the free block `nextPtr` behind it. -/
def mergeNext (h : Memheap) (x nextPtr : Nat) : Memheap :=
  let h := h.modItem c (h.item nextPtr).next fun i => { i with prev := x }
  let h := h.modItem c x fun i => { i with next := (h.item nextPtr).next }
  h.removeFree c nextPtr

/-- Decrement the available byte count to `n`. -/
def setAvailable (h : Memheap) (n : Nat) : Memheap :=
  { h with
    availableSize := n
    maxUsedSize := if h.maxUsedSize < c.sub h.poolSize n then c.sub h.poolSize n else h.maxUsedSize }

/-! ## `rt_memheap_alloc` -/

/-- The size that is looked for. -/
def request (size : Nat) : Nat :=
  let size := c.rtAlign size
  if size < c.minialloc then c.minialloc else size

/-- The search on the free list, from `headerPtr` on. -/
def findFit (h : Memheap) (size : Nat) : Nat → Nat → Option Nat
  | 0, _ => none
  | fuel + 1, headerPtr =>
    if headerPtr = h.freeList then none
    else if size ≤ h.memitemSize c headerPtr then some headerPtr
    else findFit h size fuel (h.item headerPtr).nextFree

/-- Remove the block `x` from the free list, for a user. -/
def takeFree (h : Memheap) (x : Nat) : Memheap :=
  (h.removeFree c x).modItem c x fun i => { i with nextFree := 0, prevFree := 0 }

/-- What `rt_memheap_alloc` does to the block it has found. -/
def allocAt (h : Memheap) (size headerPtr : Nat) : Memheap :=
  let freeSize := h.memitemSize c headerPtr
  let h :=
    if c.add (c.add size c.memheapSize) c.minialloc ≤ freeSize then
      let newPtr := c.add (c.add headerPtr size) c.memheapSize
      let h := h.insertBlock c headerPtr newPtr
      let h := h.takeFree c headerPtr
      let h := h.insertFree c newPtr
      h.setAvailable c (c.sub (c.sub h.availableSize size) c.memheapSize)
    else
      let h := h.setAvailable c (c.sub h.availableSize freeSize)
      h.takeFree c headerPtr
  h.modItem c headerPtr fun i => { i with magic := memheapMagic ||| memheapUsed }

/-- `rt_memheap_alloc`, with the new heap. -/
def rtMemheapAlloc (h : Memheap) (size : Nat) : Memheap × Option Nat :=
  let size := request c size
  if size < h.availableSize then
    match h.findFit c size (h.poolSize + 1) (h.item h.freeList).nextFree with
    | none => (h, none)
    | some headerPtr => (h.allocAt c size headerPtr, some (c.add headerPtr c.memheapSize))
  else (h, none)

/-! ## `rt_memheap_free` -/

/-- Merge the block `x` with its previous neighbor. -/
def mergeLeft (h : Memheap) (x : Nat) : Memheap :=
  let h := { h with availableSize := c.add h.availableSize c.memheapSize }
  let h := h.modItem c (h.item x).prev fun i => { i with next := (h.item x).next }
  h.modItem c (h.item x).next fun i => { i with prev := (h.item x).prev }

/-- Merge the block `x` with its next neighbor. -/
def mergeRight (h : Memheap) (x : Nat) : Memheap :=
  let h := { h with availableSize := c.add h.availableSize c.memheapSize }
  h.mergeNext c x (h.item x).next

/-- The first block of the free list from `n` on that has at least `blkSize` bytes, or the head of the list. -/
def findPlace (h : Memheap) (blkSize : Nat) : Nat → Nat → Nat
  | 0, n => n
  | fuel + 1, n =>
    if n = h.freeList then n
    else if blkSize ≤ h.memitemSize c n then n
    else findPlace h blkSize fuel (h.item n).nextFree

/-- The block before which a freed block is inserted. -/
def place (h : Memheap) (x : Nat) : Nat :=
  let n := (h.item h.freeList).nextFree
  if c.bestMode then h.findPlace c (h.memitemSize c x) (h.poolSize + 1) n else n

/-- The part of `rt_memheap_free` behind its assertions, for the item `x`. -/
def freeItem (h : Memheap) (x : Nat) : Memheap :=
  let h := h.modItem c x fun i => { i with magic := memheapMagic ||| memheapFreed }
  let h := { h with availableSize := c.add h.availableSize (h.memitemSize c x) }
  let prev := (h.item x).prev
  if (h.item prev).isUsed then
    let h := if (h.item (h.item x).next).isUsed then h else h.mergeRight c x
    h.insertFreeBefore c x (h.place c x)
  else
    let h := h.mergeLeft c x
    if (h.item (h.item prev).next).isUsed then h else h.mergeRight c prev

/-- `MEMITEM`. -/
def memitem (ptr : Nat) : Nat := c.sub ptr c.memheapSize

/-- `rt_memheap_free`, of a block of this heap. -/
def rtMemheapFree (h : Memheap) : Option Nat → Option Memheap
  | none => some h
  | some ptr =>
    let x := memitem c ptr
    if (h.item x).magic = memheapMagic ||| memheapUsed ∧
        (h.item (h.item x).next).magic &&& memheapMask = memheapMagic ∧ (h.item x).poolPtr = h.addr then
      some (h.freeItem c x)
    else none

/-! ## `rt_memheap_realloc` -/

/-- Whether the following free space is enough to expand the block `x`. -/
def canGrow (h : Memheap) (x newsize : Nat) : Bool :=
  let nextPtr := (h.item x).next
  !(h.item nextPtr).isUsed &&
    c.add newsize c.minialloc < c.add (c.int32 (h.memitemSize c nextPtr)) (h.memitemSize c x)

/-- Expand the block `x` into the free block that follows it. -/
def grow (h : Memheap) (x ptr newsize : Nat) : Memheap :=
  let h := h.setAvailable c (c.sub h.availableSize (c.sub newsize (h.memitemSize c x)))
  let h := h.removeNextPtr c (h.item x).next
  let nextPtr := c.add ptr newsize
  let h := h.insertBlock c x nextPtr
  h.insertFree c nextPtr

/-- Split the block `x` behind its first `newsize` bytes. -/
def shrink (h : Memheap) (x newsize : Nat) : Memheap :=
  let newPtr := c.add (c.add x newsize) c.memheapSize
  let h := h.insertBlock c x newPtr
  let freePtr := (h.item newPtr).next
  let h :=
    if (h.item freePtr).isUsed then h
    else
      let h := { h with availableSize := c.sub h.availableSize (h.memitemSize c freePtr) }
      h.mergeNext c newPtr freePtr
  let h := h.insertFree c newPtr
  { h with availableSize := c.add h.availableSize (h.memitemSize c newPtr) }

/-- `rt_memheap_realloc`, with the new heap. -/
def rtMemheapRealloc (h : Memheap) (ptr : Option Nat) (newsize : Nat) : Option (Memheap × Option Nat) :=
  if newsize = 0 then (h.rtMemheapFree c ptr).map fun h => (h, none)
  else
    let newsize := request c newsize
    match ptr with
    | none => some (h.rtMemheapAlloc c newsize)
    | some ptr =>
      let x := memitem c ptr
      let oldsize := h.memitemSize c x
      if oldsize < newsize then
        if x < (h.item x).next then
          if h.canGrow c x newsize then some (h.grow c x ptr newsize, some ptr)
          else
            let r := h.rtMemheapAlloc c newsize
            match r.2 with
            | none => some r
            | some newPtr =>
              let n := if oldsize < newsize then oldsize else newsize
              (rtMemheapFree c { r.1 with mem := r.1.mem.copy newPtr ptr n } (some ptr)).map fun h => (h, some newPtr)
        else none
      else if oldsize ≤ c.add (c.add newsize c.memheapSize) c.minialloc then some (h, some ptr)
      else some (h.shrink c x newsize, some ptr)

end Memheap

end RtThread
