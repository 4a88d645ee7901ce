import RtThread.Mem.Memory

/-!
# `mem.c`: the small memory allocator

Every block of the heap starts with a `struct rt_small_mem_item`. Items are named by their offsets from `heap_ptr`, as
`next` and `prev` do. A function that returns `none` is one whose assertion fails.
-/

namespace RtThread

/-- `struct rt_small_mem_item`. -/
structure SmallMemItem where
  poolPtr : Nat
  next : Nat
  prev : Nat
  deriving DecidableEq

/-- What the target decides: the sizes of the structures, `MIN_SIZE`, and the bytes of an item. -/
structure SmemConfig extends Word where
  smallMemSize : Nat
  itemSize : Nat
  minSize : Nat
  enc : SmallMemItem → Nat → UInt8
  smallMemSize_pos : 0 < smallMemSize
  minSize_pos : 0 < minSize
  minSize_le : minSize ≤ itemSize
  itemSize_lt : itemSize + alignSize ≤ 2 ^ bits

namespace SmemConfig

/-- `SIZEOF_STRUCT_MEM`. -/
def sizeofStructMem (c : SmemConfig) : Nat := c.rtAlign c.itemSize

/-- `MIN_SIZE_ALIGNED`. -/
def minSizeAligned (c : SmemConfig) : Nat := c.rtAlign c.minSize

end SmemConfig

namespace SmallMemItem

/-- `MEM_ISUSED`. -/
def isUsed (x : SmallMemItem) : Bool := x.poolPtr % 2 == 1

/-- `MEM_POOL`. -/
def pool (x : SmallMemItem) : Nat := x.poolPtr - x.poolPtr % 2

end SmallMemItem

/-- `struct rt_small_mem`, with its address and the memory. -/
structure SmallMem where
  addr : Nat
  total : Nat
  used : Nat
  max : Nat
  heapPtr : Nat
  heapEnd : Nat
  lfree : Nat
  memSizeAligned : Nat
  mem : Store SmallMemItem

namespace SmallMem

variable (c : SmemConfig)

/-- The item at an offset. -/
def item (h : SmallMem) (x : Nat) : SmallMemItem := h.mem.item x

def setItem (h : SmallMem) (x : Nat) (i : SmallMemItem) : SmallMem :=
  { h with mem := h.mem.put c.enc c.sizeofStructMem x i }

def modItem (h : SmallMem) (x : Nat) (f : SmallMemItem → SmallMemItem) : SmallMem := h.setItem c x (f (h.item x))

/-- `MEM_USED()`. -/
def memUsed (h : SmallMem) : Nat := h.addr - h.addr % 2 + 1

/-- `MEM_FREED()`. -/
def memFreed (h : SmallMem) : Nat := h.addr - h.addr % 2

/-- Combine two items that follow each other, the second of which is unused. -/
def joinItems (h : SmallMem) (first second : Nat) : SmallMem :=
  let h := if h.lfree = second then { h with lfree := first } else h
  let h := h.modItem c second fun x => { x with poolPtr := 0 }
  let h := h.modItem c first fun x => { x with next := (h.item second).next }
  h.modItem c (h.item second).next fun x => { x with prev := first }

/-- `plug_holes`, forward. -/
def plugForward (h : SmallMem) (mem : Nat) : SmallMem :=
  let nmem := (h.item mem).next
  if mem ≠ nmem ∧ (h.item nmem).isUsed = false ∧ nmem ≠ h.heapEnd then h.joinItems c mem nmem else h

/-- `plug_holes`, backward. -/
def plugBackward (h : SmallMem) (mem : Nat) : SmallMem :=
  let pmem := (h.item mem).prev
  if pmem ≠ mem ∧ (h.item pmem).isUsed = false then h.joinItems c pmem mem else h

/-- `plug_holes`. -/
def plugHoles (h : SmallMem) (mem : Nat) : SmallMem := (h.plugForward c mem).plugBackward c mem

/-- Create an unused item at `ptr2`, in the block of the item `mem`. -/
def splitItem (h : SmallMem) (mem ptr2 : Nat) : SmallMem :=
  let next := (h.item mem).next
  let h := h.setItem c ptr2 { poolPtr := h.memFreed, next := next, prev := mem }
  let h := h.modItem c mem fun x => { x with next := ptr2 }
  if next ≠ c.add h.memSizeAligned c.sizeofStructMem then h.modItem c next fun x => { x with prev := ptr2 } else h

/-- `rt_smem_init`, on an area of memory. -/
def rtSmemInit (mem : Store SmallMemItem) (beginAddr size : Nat) : Option SmallMem :=
  let smallMem := c.rtAlign beginAddr
  let startAddr := c.add smallMem c.smallMemSize
  let beginAlign := c.rtAlign startAddr
  let endAlign := c.rtAlignDown (c.add beginAddr size)
  if 2 * c.sizeofStructMem < endAlign ∧ startAddr ≤ c.sub endAlign (2 * c.sizeofStructMem) then
    let memSize := c.sub (c.sub endAlign beginAlign) (2 * c.sizeofStructMem)
    let h : SmallMem :=
      { addr := smallMem
        total := memSize
        used := 0
        max := 0
        heapPtr := beginAlign
        heapEnd := c.add memSize c.sizeofStructMem
        lfree := 0
        memSizeAligned := memSize
        mem := mem }
    let h := h.setItem c 0 { poolPtr := h.memFreed, next := h.heapEnd, prev := 0 }
    some (h.setItem c h.heapEnd { poolPtr := h.memUsed, next := h.heapEnd, prev := h.heapEnd })
  else none

/-- The user size of the item at `ptr`. -/
def userSize (h : SmallMem) (ptr : Nat) : Nat := c.sub (h.item ptr).next (c.add ptr c.sizeofStructMem)

/-- The loop of `rt_smem_alloc`: the first item from `ptr` on that is free and large enough. -/
def findFit (h : SmallMem) (size : Nat) : Nat → Nat → Option Nat
  | 0, _ => none
  | fuel + 1, ptr =>
    if ptr ≤ c.sub h.memSizeAligned size then
      if (h.item ptr).isUsed = false ∧ size ≤ h.userSize c ptr then some ptr
      else findFit h size fuel (h.item ptr).next
    else none

/-- The next free item from `lfree` on. -/
def advanceLfree : Nat → SmallMem → SmallMem
  | 0, h => h
  | fuel + 1, h =>
    if (h.item h.lfree).isUsed ∧ h.lfree ≠ h.heapEnd then advanceLfree fuel { h with lfree := (h.item h.lfree).next }
    else h

def addUsed (h : SmallMem) (n : Nat) : SmallMem :=
  let used := c.add h.used n
  { h with used := used, max := if h.max < used then used else h.max }

/-- What `rt_smem_alloc` does to the item it has found: split it if the rest is large enough, and mark it as used. -/
def allocAt (h : SmallMem) (size mem : Nat) : SmallMem :=
  let h :=
    if c.add (c.add size c.sizeofStructMem) c.minSizeAligned ≤ h.userSize c mem then
      (h.splitItem c mem (c.add (c.add mem c.sizeofStructMem) size)).addUsed c (c.add size c.sizeofStructMem)
    else h.addUsed c (c.sub (h.item mem).next mem)
  let h := h.modItem c mem fun x => { x with poolPtr := h.memUsed }
  if mem = h.lfree then advanceLfree (h.heapEnd + 1) h else h

/-- The size `rt_smem_alloc` looks for. -/
def request (size : Nat) : Nat :=
  let size := c.rtAlign size
  if size < c.minSizeAligned then c.minSizeAligned else size

/-- `rt_smem_alloc`, with the new heap. -/
def rtSmemAlloc (h : SmallMem) (size : Nat) : SmallMem × Option Nat :=
  if size = 0 then (h, none)
  else
    let size := request c size
    if h.memSizeAligned < size then (h, none)
    else
      match h.findFit c size (h.heapEnd + 1) h.lfree with
      | none => (h, none)
      | some mem => (h.allocAt c size mem, some (c.add (c.add h.heapPtr mem) c.sizeofStructMem))

/-- The offset of the item of a block. -/
def itemOf (h : SmallMem) (rmem : Nat) : Nat := c.sub (c.sub rmem c.sizeofStructMem) h.heapPtr

/-- `rt_smem_free`, of a block of this heap. -/
def rtSmemFree (h : SmallMem) : Option Nat → Option SmallMem
  | none => some h
  | some rmem =>
    let mem := h.itemOf c rmem
    if rmem % c.alignSize = 0 ∧ (h.item mem).pool = h.memFreed ∧ (h.item mem).isUsed ∧ h.heapPtr ≤ rmem ∧
        rmem < c.add h.heapPtr h.heapEnd ∧ (h.item (h.item mem).next).pool = h.memFreed then
      let h := h.modItem c mem fun x => { x with poolPtr := h.memFreed }
      let h :=
        { h with
          lfree := if mem < h.lfree then mem else h.lfree
          used := c.sub h.used (c.sub (h.item mem).next mem) }
      some (h.plugHoles c mem)
    else none

/-- The in-place split of `rt_smem_realloc`. -/
def shrink (h : SmallMem) (mem newsize size : Nat) : SmallMem :=
  let h := { h with used := c.sub h.used (c.sub size newsize) }
  let ptr2 := c.add (c.add mem c.sizeofStructMem) newsize
  let h := h.splitItem c mem ptr2
  let h := { h with lfree := if ptr2 < h.lfree then ptr2 else h.lfree }
  h.plugHoles c ptr2

/-- `rt_smem_realloc`, with the new heap. -/
def rtSmemRealloc (h : SmallMem) (rmem : Option Nat) (newsize : Nat) : Option (SmallMem × Option Nat) :=
  let newsize := c.rtAlign newsize
  if h.memSizeAligned < newsize then some (h, none)
  else if newsize = 0 then (h.rtSmemFree c rmem).map fun h => (h, none)
  else
    match rmem with
    | none => some (h.rtSmemAlloc c newsize)
    | some rmem =>
      if rmem % c.alignSize = 0 ∧ h.heapPtr ≤ rmem ∧ rmem < c.add h.heapPtr h.heapEnd then
        let mem := h.itemOf c rmem
        let size := c.sub (c.sub (h.item mem).next mem) c.sizeofStructMem
        if size = newsize then some (h, some rmem)
        else if c.add (c.add newsize c.sizeofStructMem) c.minSize < size then
          some (h.shrink c mem newsize size, some rmem)
        else
          let r := h.rtSmemAlloc c newsize
          match r.2 with
          | none => some r
          | some nmem =>
            let n := if size < newsize then size else newsize
            (rtSmemFree c { r.1 with mem := r.1.mem.copy (c.sub nmem h.heapPtr) (c.sub rmem h.heapPtr) n } (some rmem)).map
              fun h => (h, some nmem)
      else none

end SmallMem

end RtThread
