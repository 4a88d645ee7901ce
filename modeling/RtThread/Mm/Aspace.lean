import Mathlib.Algebra.Group.Int.Defs
import Mathlib.Algebra.Group.Nat.Defs
import RtThread.Mm.Avl

/-!
# Address spaces

`mm_aspace.c` and `avl_adpt.c`: the vareas of an address space in an AVL tree, by their first address. A varea is its
node. What the port of the MMU and a mem object answer are parameters of a call. Loops over the tree are given fuel; a
dereference of `NULL` has no result.
-/

namespace RtThread

/-- The width of a pointer, at least that of an `int`. -/
structure AspaceConfig where
  bits : Nat
  pageShift : Nat
  int_le : 32 ≤ bits

/-- A range from `start` to `last`, both included (`struct _mm_range`). -/
structure MmRange where
  start : Nat
  last : Nat
deriving DecidableEq, Repr

structure RtVarea where
  start : Nat
  size : Nat
  offset : Nat
  attr : Nat
  flag : Nat
deriving DecidableEq, Repr

structure RtMmVaHint where
  limitStart : Nat
  limitRangeSize : Nat
  prefer : Nat
  mapSize : Nat
  flags : Nat
deriving DecidableEq, Repr

inductive MmFaultStatus
  | ok
  | okMapped
  | unrecoverable
deriving DecidableEq, Repr

structure RtMmFaultRes where
  vaddr : Nat
  size : Nat
  status : MmFaultStatus
deriving DecidableEq, Repr

/-- `hint_free` may be null; `onPageFault` is told the offset and the address. -/
structure RtMemObj where
  hintFree : Option (RtMmVaHint → RtMmVaHint)
  onPageFault : Nat → Nat → RtMmFaultRes

/-- Whether `rt_hw_mmu_map` of `vaddr`, `paddr`, `size` and `attr` succeeds, and what `rt_hw_mmu_v2p` finds. -/
structure Mmu where
  map : Nat → Nat → Nat → Nat → Bool
  v2p : Nat → Bool
  pvOffset : Nat

inductive MmErr
  | eok
  | error
  | enomem
  | enosys
  | einval
  | enospc
deriving DecidableEq, Repr

/-- An address space; `mapped` are the vareas of the successful maps that have not been unmapped. -/
structure RtAspace where
  start : Nat
  size : Nat
  tree : UtilAvl
  varea : Nat → RtVarea
  mapped : List Nat

/-! ## Flags -/

namespace MmFlag

/-- `MMF_GET_ALIGN`. -/
def getAlign (flags : Nat) : Nat := flags % 128

def mapFixed : Nat := 2 ^ 9

def prefetch : Nat := 2 ^ 10

def text : Nat := 2 ^ 12

def staticAlloc : Nat := 2 ^ 13

def requestAlign : Nat := 2 ^ 28

/-- `flags & flag`. -/
def test (flags flag : Nat) : Bool := flags &&& flag != 0

/-- `_not_support`. -/
def notSupport (flags : Nat) : Bool :=
  flags &&& (prefetch ||| mapFixed ||| text ||| staticAlloc ||| requestAlign ||| 127) != flags

/-- The alignment that is requested, `~align_mask + 1`. A shift of an `int` by 31 or more is undefined. -/
def alignSize (flags : Nat) : Option Nat :=
  if test flags requestAlign then
    if getAlign flags < 31 then some (2 ^ getAlign flags) else none
  else some 1

end MmFlag

namespace RtAspace

variable (c : AspaceConfig)

/-! ## The tree -/

/-- The last address of a varea. -/
def lastOf (v : RtVarea) : Nat := (v.start + v.size + (2 ^ c.bits - 1)) % 2 ^ c.bits

/-- The first address after a varea. -/
def nextOf (v : RtVarea) : Nat := (v.start + v.size) % 2 ^ c.bits

def compareOverlap (r : MmRange) (v : RtVarea) : Ordering :=
  if r.start > lastOf c v then .gt else if r.last < v.start then .lt else .eq

/-- `search`. -/
def search (compare : RtVarea → Ordering) (s : RtAspace) : Nat → Option Nat → Option (Option Nat)
  | _, none => some none
  | 0, some _ => none
  | fuel + 1, some node =>
    match compare (s.varea node) with
    | .lt => search compare s fuel (s.tree.node node).avlLeft
    | .gt => search compare s fuel (s.tree.node node).avlRight
    | .eq => some (some node)

def bstSearchOverlap (fuel : Nat) (s : RtAspace) (r : MmRange) : Option (Option Nat) :=
  search (compareOverlap c r) s fuel s.tree.rootNode

def bstSearch (fuel : Nat) (s : RtAspace) (key : Nat) : Option (Option Nat) := s.bstSearchOverlap c fuel ⟨key, key⟩

/-- `a - b` as a `ptrdiff_t`. -/
def ptrdiff (a b : Nat) : Int :=
  let d := (a + (2 ^ c.bits - b)) % 2 ^ c.bits
  if d < 2 ^ (c.bits - 1) then d else d - 2 ^ c.bits

def searchExceedLoop (start : Nat) (s : RtAspace) : Nat → Option Nat → Option Nat → Int → Option (Option Nat)
  | _, none, closest, _ => some closest
  | 0, some _, _, _ => none
  | fuel + 1, some node, closest, minOff =>
    let vaS := (s.varea node).start
    if start < vaS then
      let off := ptrdiff c vaS start
      if off < minOff then searchExceedLoop start s fuel (s.tree.node node).avlLeft (some node) off
      else searchExceedLoop start s fuel (s.tree.node node).avlLeft closest minOff
    else if vaS < start then searchExceedLoop start s fuel (s.tree.node node).avlRight closest minOff
    else some (some node)

/-- `_aspace_bst_search_exceed`, from `PTRDIFF_MAX` on. -/
def bstSearchExceed (fuel : Nat) (s : RtAspace) (start : Nat) : Option (Option Nat) :=
  searchExceedLoop c start s fuel s.tree.rootNode none (2 ^ (c.bits - 1) - 1)

/-- The place for a new node: a null link of `current`; none where a varea has the same start. -/
def insertPlace (key : Nat) (s : RtAspace) : Nat → NodePlace → Option Nat → Option (Option (NodePlace × Option Nat))
  | 0, next, current =>
    match s.tree.get next with
    | none => some (some (next, current))
    | some _ => none
  | fuel + 1, next, current =>
    match s.tree.get next with
    | none => some (some (next, current))
    | some node =>
      if key < (s.varea node).start then insertPlace key s fuel (.avlLeft node) (some node)
      else if (s.varea node).start < key then insertPlace key s fuel (.avlRight node) (some node)
      else some none

/-- `_aspace_bst_insert`. -/
def bstInsert (fuel : Nat) (s : RtAspace) (v : Nat) : Option RtAspace := do
  match ← insertPlace (s.varea v).start s fuel .rootNode none with
  | none => some s
  | some (next, current) =>
    let tree ← UtilAvl.utilAvlRebalance fuel (s.tree.utilAvlLink v current next) current
    some { s with tree := tree }

def bstRemove (fuel : Nat) (s : RtAspace) (v : Nat) : Option RtAspace := do
  let tree ← UtilAvl.utilAvlRemove fuel s.tree v
  some { s with tree := tree }

/-! ## Finding a place -/

/-- `_align`; `align` is the power of two that the mask clears. -/
def align (va align : Nat) : Nat :=
  let x := (va + (align - 1)) % 2 ^ c.bits
  x - x % align

/-- `a - b + 1`, of pointers, as a size. -/
def gapTo (last candidate : Nat) : Nat := (last + (2 ^ c.bits - candidate) + 1) % 2 ^ c.bits

def lower (a b : Nat) : Nat := if a < b then a else b

/-- `a - 1`, of a pointer. -/
def pred (a : Nat) : Nat := (a + (2 ^ c.bits - 1)) % 2 ^ c.bits

/-- `_ascending_search`. -/
def ascendingSearch (fuel : Nat) (s : RtAspace) (reqSize alignSize : Nat) (limit : MmRange) :
    Nat → Option Nat → Option Nat
  | _, none => some 0
  | 0, some _ => none
  | n + 1, some v =>
    if (s.varea v).start < limit.last then
      let candidate := align c (nextOf c (s.varea v)) alignSize
      if candidate > limit.last ∨ gapTo c limit.last candidate < reqSize then some 0
      else do
        match ← s.tree.utilAvlNext fuel v with
        | some nx =>
          let gapSize := gapTo c (lower limit.last (pred c (s.varea nx).start)) candidate
          if gapSize ≥ reqSize then some candidate
          else ascendingSearch fuel s reqSize alignSize limit n (some nx)
        | none => some candidate
    else some 0

/-- `_find_head_and_asc_search`. -/
def findHeadAndAscSearch (fuel : Nat) (s : RtAspace) (reqSize alignSize : Nat) (limit : MmRange) : Option Nat := do
  match ← s.bstSearchExceed c fuel limit.start with
  | some v =>
    let candidate := align c limit.start alignSize
    let gapSize := ((s.varea v).start + (2 ^ c.bits - candidate)) % 2 ^ c.bits
    if gapSize ≥ reqSize then
      match ← s.bstSearch c fuel limit.start with
      | some former =>
        let candidate := align c (nextOf c (s.varea former)) alignSize
        let gapSize := ((s.varea v).start + (2 ^ c.bits - candidate)) % 2 ^ c.bits
        if gapSize ≥ reqSize then some candidate
        else s.ascendingSearch c fuel reqSize alignSize limit fuel (some v)
      | none => some candidate
    else s.ascendingSearch c fuel reqSize alignSize limit fuel (some v)
  | none =>
    let candidate := align c limit.start alignSize
    if gapTo c limit.last candidate ≥ reqSize then some candidate else some 0

/-- `_find_free`; `0` is `RT_NULL`. -/
def findFree (fuel : Nat) (s : RtAspace) (prefer reqSize limitStart limitSize flags : Nat) : Option Nat := do
  let limit : MmRange := ⟨limitStart, pred c ((limitStart + limitSize) % 2 ^ c.bits)⟩
  let alignSize ← MmFlag.alignSize flags
  if prefer ≠ 0 then
    -- if prefer and free, just return the prefer region
    let prefer := align c prefer alignSize
    match ← s.bstSearchOverlap c fuel ⟨prefer, pred c ((prefer + reqSize) % 2 ^ c.bits)⟩ with
    | none => some prefer
    | some v =>
      if MmFlag.test flags MmFlag.mapFixed then some 0
      else
        let va ← s.ascendingSearch c fuel reqSize alignSize limit fuel (some v)
        if va = 0 then
          -- rewind to first range
          s.findHeadAndAscSearch c fuel reqSize alignSize { limit with last := pred c (s.varea v).start }
        else some va
  else s.findHeadAndAscSearch c fuel reqSize alignSize limit

/-! ## Install and uninstall -/

def setVarea (s : RtAspace) (v : Nat) (x : RtVarea) : RtAspace := { s with varea := Function.update s.varea v x }

/-- `_varea_install`. -/
def vareaInstall (fuel : Nat) (s : RtAspace) (v : Nat) (hint : RtMmVaHint) : Option (RtAspace × MmErr) := do
  let allocVa ← s.findFree c fuel hint.prefer hint.mapSize hint.limitStart hint.limitRangeSize hint.flags
  if allocVa ≠ 0 then
    let s ← (s.setVarea v { s.varea v with start := allocVa }).bstInsert fuel v
    some (s, .eok)
  else some (s, .enospc)

/-- `_varea_post_install`. -/
def vareaPostInstall (s : RtAspace) (v attr flags offset : Nat) : RtAspace :=
  s.setVarea v { s.varea v with attr := attr, flag := flags, offset := offset }

/-- `_varea_uninstall`. -/
def vareaUninstall (fuel : Nat) (s : RtAspace) (v : Nat) : Option RtAspace := s.bstRemove fuel v

/-- `_varea_map_with_msg`: whether the answer of the mem object can be mapped. -/
def vareaMapWithMsg (mmu : Mmu) (v : RtVarea) (vaddr : Nat) (res : RtMmFaultRes) : MmErr :=
  match res.status with
  | .ok =>
    if (vaddr + res.size) % 2 ^ c.bits > nextOf c v then .error
    else if mmu.map vaddr ((res.vaddr + mmu.pvOffset) % 2 ^ c.bits) res.size v.attr then .eok
    else .error
  | .okMapped => if mmu.v2p vaddr then .eok else .error
  | .unrecoverable => .error

/-- `while (vaddr != end)`. -/
def prefetchLoop (mmu : Mmu) (mem : RtMemObj) (v : RtVarea) (last : Nat) : Nat → Nat → Nat → Option MmErr
  | 0, vaddr, _ => if vaddr = last then some .eok else none
  | n + 1, vaddr, off =>
    if vaddr = last then some .eok
    else
      let res := mem.onPageFault off vaddr
      if vareaMapWithMsg c mmu v vaddr res ≠ .eok then some .enomem
      else if res.status = .okMapped then some .eok
      else
        prefetchLoop mmu mem v last n ((vaddr + res.size) % 2 ^ c.bits)
          ((off + res.size >>> c.pageShift) % 2 ^ c.bits)

/-- `_do_prefetch`. -/
def doPrefetch (fuel : Nat) (mmu : Mmu) (mem : RtMemObj) (v : RtVarea) (start size : Nat) : Option MmErr :=
  prefetchLoop c mmu mem v ((start + size) % 2 ^ c.bits) fuel start
    ((v.offset + ((start + (2 ^ c.bits - v.start)) % 2 ^ c.bits) >>> c.pageShift) % 2 ^ c.bits)

/-- `_mm_aspace_map`; the start and size of the varea have been set. -/
def mmAspaceMap (fuel : Nat) (mmu : Mmu) (s : RtAspace) (v attr flags : Nat) (mem : RtMemObj) (offset : Nat) :
    Option (RtAspace × MmErr) := do
  let hint : RtMmVaHint :=
    { limitStart := s.start, limitRangeSize := s.size, prefer := (s.varea v).start, mapSize := (s.varea v).size,
      flags := flags }
  let hint := match mem.hintFree with
    | some hintFree => hintFree hint
    | none => hint
  let (s, err) ← s.vareaInstall c fuel v hint
  if err = .eok then
    let s := s.vareaPostInstall v attr flags offset
    if MmFlag.test flags MmFlag.prefetch then
      let err ← doPrefetch c fuel mmu mem (s.varea v) (s.varea v).start (s.varea v).size
      if err ≠ .eok then
        let s ← s.vareaUninstall fuel v
        some (s, err)
      else some (s, .eok)
    else some (s, .eok)
  else some (s, err)

/-- `_not_in_range`. -/
def notInRange (start length limitStart limitSize : Nat) : Bool :=
  if start ≠ 0 then
    decide (length > (2 ^ c.bits - start) % 2 ^ c.bits) || decide (start < limitStart) ||
      decide ((length + (start + (2 ^ c.bits - limitStart)) % 2 ^ c.bits) % 2 ^ c.bits > limitSize)
  else decide (length > limitSize)

/-- `_not_align`, of whole pages. -/
def notAlign (start length : Nat) : Bool :=
  decide (start ≠ 0) && (decide (start % 2 ^ c.pageShift ≠ 0) || decide (length % 2 ^ c.pageShift ≠ 0))

/-! ## Calls -/

/-- A varea that has been mapped, if it was. -/
def record (s : RtAspace) (v : Nat) (err : MmErr) : RtAspace :=
  if err = .eok then { s with mapped := v :: s.mapped } else s

/-- What a call returns, and the address that it stores. -/
structure Result where
  err : MmErr
  va : Nat
deriving DecidableEq, Repr

/-- `rt_aspace_map`; `addr` points to the preferred address, and `_varea_create` gets `v`, or nothing. -/
def rtAspaceMap (fuel : Nat) (mmu : Mmu) (s : RtAspace) (addr : Option Nat) (length attr flags : Nat)
    (mem : Option RtMemObj) (offset : Nat) (v : Option Nat) : Option (RtAspace × Result) :=
  match addr with
  | none => none
  | some addr =>
    match mem with
    | none => some (s, ⟨.einval, 0⟩)
    | some mem =>
      if length = 0 then some (s, ⟨.einval, 0⟩)
      else if notInRange c addr length s.start s.size then some (s, ⟨.einval, 0⟩)
      else if MmFlag.notSupport flags then some (s, ⟨.enosys, 0⟩)
      else
        match v with
        | none => some (s, ⟨.enomem, 0⟩)
        | some v => do
          let s := s.setVarea v { s.varea v with start := addr, size := length }
          let (s, err) ← s.mmAspaceMap c fuel mmu v attr flags mem offset
          some (s.record v err, ⟨err, if err = .eok then (s.varea v).start else 0⟩)

/-- `rt_aspace_map_static`. -/
def rtAspaceMapStatic (fuel : Nat) (mmu : Mmu) (s : RtAspace) (v : Option Nat) (addr : Option Nat)
    (length attr flags : Nat) (mem : Option RtMemObj) (offset : Nat) : Option (RtAspace × Result) :=
  match addr with
  | none => none
  | some addr =>
    match v, mem with
    | some v, some mem =>
      if length = 0 ∨ notInRange c addr length s.start s.size then some (s, ⟨.einval, 0⟩)
      else if MmFlag.notSupport flags then some (s, ⟨.enosys, 0⟩)
      else do
        let s := s.setVarea v { s.varea v with size := length, start := addr }
        let (s, err) ← s.mmAspaceMap c fuel mmu v attr (flags ||| MmFlag.staticAlloc) mem offset
        some (s.record v err, ⟨err, if err = .eok then (s.varea v).start else 0⟩)
    | _, _ => some (s, ⟨.einval, 0⟩)

/-- `_do_named_map`. -/
def doNamedMap (mmu : Mmu) (vaddr length offset attr : Nat) : MmErr :=
  if mmu.map vaddr ((offset <<< 12) % 2 ^ c.bits) length attr then .eok else .error

/-- `_mm_aspace_map_phy`. -/
def mmAspaceMapPhy (fuel : Nat) (mmu : Mmu) (s : RtAspace) (v : Nat) (hint : RtMmVaHint) (attr paOff : Nat) :
    Option (RtAspace × Result) :=
  if hint.limitRangeSize = 0 ∨ hint.mapSize = 0 then some (s, ⟨.einval, 0⟩)
  else if notAlign c hint.prefer hint.mapSize then some (s, ⟨.einval, 0⟩)
  else if notInRange c hint.limitStart hint.limitRangeSize s.start s.size ||
      notInRange c hint.prefer hint.mapSize s.start s.size then some (s, ⟨.einval, 0⟩)
  else do
    let (s, err) ← s.vareaInstall c fuel v hint
    if err = .eok then
      let s := s.vareaPostInstall v attr hint.flags paOff
      let err := doNamedMap c mmu (s.varea v).start (s.varea v).size paOff attr
      if err ≠ .eok then
        let s ← s.vareaUninstall fuel v
        some (s, ⟨err, 0⟩)
      else some (s.record v .eok, ⟨.eok, (s.varea v).start⟩)
    else some (s, ⟨err, 0⟩)

/-- `rt_aspace_map_phy`. -/
def rtAspaceMapPhy (fuel : Nat) (mmu : Mmu) (s : RtAspace) (hint : Option RtMmVaHint) (attr paOff : Nat)
    (v : Option Nat) : Option (RtAspace × Result) :=
  match hint with
  | none => some (s, ⟨.einval, 0⟩)
  | some hint =>
    match v with
    | none => some (s, ⟨.enomem, 0⟩)
    | some v =>
      (s.setVarea v { s.varea v with start := hint.prefer, size := hint.mapSize }).mmAspaceMapPhy c fuel mmu v hint
        attr paOff

/-- `_aspace_unmap`. Without a varea, `_varea_uninstall` dereferences `NULL`. -/
def aspaceUnmap (fuel : Nat) (s : RtAspace) (addr : Nat) : Option RtAspace := do
  match ← s.bstSearch c fuel addr with
  | none => none
  | some v =>
    let s ← s.vareaUninstall fuel v
    some { s with mapped := s.mapped.erase v }

/-- `rt_aspace_unmap`. -/
def rtAspaceUnmap (fuel : Nat) (s : RtAspace) (addr : Nat) : Option (RtAspace × Result) :=
  if notInRange c addr 1 s.start s.size then some (s, ⟨.einval, 0⟩)
  else do
    let s ← s.aspaceUnmap c fuel addr
    some (s, ⟨.eok, 0⟩)

inductive Call
  | map (addr : Option Nat) (length attr flags : Nat) (mem : Option RtMemObj) (offset : Nat) (v : Option Nat)
  | mapStatic (v : Option Nat) (addr : Option Nat) (length attr flags : Nat) (mem : Option RtMemObj) (offset : Nat)
  | mapPhy (hint : Option RtMmVaHint) (attr paOff : Nat) (v : Option Nat)
  | unmap (addr : Nat)

def call (fuel : Nat) (mmu : Mmu) (s : RtAspace) : Call → Option (RtAspace × Result)
  | .map addr length attr flags mem offset v => s.rtAspaceMap c fuel mmu addr length attr flags mem offset v
  | .mapStatic v addr length attr flags mem offset => s.rtAspaceMapStatic c fuel mmu v addr length attr flags mem offset
  | .mapPhy hint attr paOff v => s.rtAspaceMapPhy c fuel mmu hint attr paOff v
  | .unmap addr => s.rtAspaceUnmap c fuel addr

/-- `rt_aspace_create`, of an address space that does not wrap. -/
def create (start size : Nat) : RtAspace :=
  ⟨start, size, ⟨none, fun _ => ⟨none, none, none, 0⟩⟩, fun _ => ⟨0, 0, 0, 0, 0⟩, []⟩

end RtAspace

end RtThread
