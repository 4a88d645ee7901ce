import Mathlib.Algebra.Group.Nat.Defs
import Mathlib.Logic.Function.Basic

/-!
# Pages

`mm_page.c`: the buddy allocator. A pointer to a page record is the index of its page frame; before `rt_page_cleanup` the
records are accessed at `early_offset` from there, where the same memory is. `live` is what callers have: the first page
and the order of each block that was allocated and not freed.
-/

namespace RtThread

/-- What the port of a machine and the configuration set: the largest block is a power of two of at most 4 GiB, virtual
and physical addresses differ by a multiple of it, and the records of all pages fit the address space. -/
structure PageConfig where
  addressWidthBits : Nat
  pageShift : Nat
  maxOrder : Nat
  vaddrWidth : Nat
  pvOffset : Nat
  mprStart : Nat
  recordSize : Nat
  maxOrder_pos : 0 < maxOrder
  shadow_lt : maxOrder - 1 + pageShift < addressWidthBits
  shadow_le : maxOrder - 1 + pageShift ≤ 32
  pvOffset_lt : pvOffset < 2 ^ addressWidthBits
  pvOffset_dvd : 2 ^ (maxOrder - 1 + pageShift) ∣ pvOffset
  recordSize_pos : 0 < recordSize
  records_fit : mprStart + 2 ^ (vaddrWidth - pageShift) * recordSize + 2 ^ pageShift ≤ 2 ^ addressWidthBits

namespace PageConfig

/-- `a & ~(align - 1)`. -/
def down (a align : Nat) : Nat := a - a % align

variable (c : PageConfig)

/-- `FLOOR(val, align)`, which rounds up. -/
def floor (val align : Nat) : Nat :=
  let x := (val + align - 1) % 2 ^ c.addressWidthBits
  x - x % align

def archPageSize : Nat := 2 ^ c.pageShift

/-- `shadow_mask + 1`. -/
def shadowSize : Nat := 2 ^ (c.maxOrder - 1 + c.pageShift)

def rtMprSize : Nat := c.floor (2 ^ (c.vaddrWidth - c.pageShift) * c.recordSize) c.archPageSize

/-- `addr + PV_OFFSET`. -/
def v2p (addr : Nat) : Nat := (addr + c.pvOffset) % 2 ^ c.addressWidthBits

/-- `addr_to_page(page_start, addr)`. -/
def addrToPage (addr : Nat) : Nat := c.v2p addr >>> c.pageShift

/-- `page_to_addr(page)`. -/
def pageToAddr (p : Nat) : Nat :=
  ((p <<< c.pageShift) % 2 ^ c.addressWidthBits + (2 ^ c.addressWidthBits - c.pvOffset)) % 2 ^ c.addressWidthBits

/-- `_buddy_get`. -/
def buddyGet (p sizeBits : Nat) : Nat := c.addrToPage (c.pageToAddr p ^^^ 1 <<< (sizeBits + c.pageShift))

/-- The address of a record. -/
def record (p : Nat) : Nat := (c.mprStart + p * c.recordSize) % 2 ^ c.addressWidthBits

end PageConfig

structure RtPage where
  next : Option Nat
  pre : Option Nat
  sizeBits : Nat
  refCnt : BitVec 32
deriving DecidableEq, Repr

/-- `page_list_low` and `page_list_high`. -/
inductive PageList
  | low
  | high
deriving DecidableEq, Repr

/-- `_get_page_list`. -/
def PageConfig.getPageList (c : PageConfig) (vaddr : Nat) : PageList :=
  if 4294967295 < c.v2p vaddr then .high else .low

structure PageState where
  page : Nat → RtPage
  list : PageList → Nat → Option Nat
  highPageConfigured : Bool
  live : List (Nat × Nat)

namespace PageState

def setPage (s : PageState) (p : Nat) (r : RtPage) : PageState := { s with page := Function.update s.page p r }

def setHead (s : PageState) (l : PageList) (sizeBits : Nat) (p : Option Nat) : PageState :=
  { s with list := Function.update s.list l (Function.update (s.list l) sizeBits p) }

def setNext (s : PageState) (p : Nat) (x : Option Nat) : PageState := s.setPage p { s.page p with next := x }

def setPre (s : PageState) (p : Nat) (x : Option Nat) : PageState := s.setPage p { s.page p with pre := x }

def setSizeBits (s : PageState) (p k : Nat) : PageState := s.setPage p { s.page p with sizeBits := k }

def setRefCnt (s : PageState) (p : Nat) (n : BitVec 32) : PageState := s.setPage p { s.page p with refCnt := n }

/-- `if (q) q->next = x; else page_list[size_bits] = x;` -/
def setNextOf (s : PageState) (l : PageList) (sizeBits : Nat) (q x : Option Nat) : PageState :=
  match q with
  | some q => s.setNext q x
  | none => s.setHead l sizeBits x

/-- `if (q) q->pre = x;` -/
def setPreOf (s : PageState) (q x : Option Nat) : PageState :=
  match q with
  | some q => s.setPre q x
  | none => s

/-- `_page_remove`. -/
def pageRemove (c : PageConfig) (s : PageState) (l : PageList) (p sizeBits : Nat) : PageState :=
  let s := s.setNextOf l sizeBits (s.page p).pre (s.page p).next
  let s := s.setPreOf (s.page p).next (s.page p).pre
  s.setSizeBits p c.addressWidthBits

/-- `_page_insert`. -/
def pageInsert (s : PageState) (l : PageList) (p sizeBits : Nat) : PageState :=
  let s := s.setNext p (s.list l sizeBits)
  let s := s.setPreOf (s.page p).next (some p)
  let s := s.setPre p none
  let s := s.setHead l sizeBits (some p)
  s.setSizeBits p sizeBits

/-- `_early_page_insert`, which asserts that the page has a record. -/
def earlyPageInsert (c : PageConfig) (s : PageState) (l : PageList) (p sizeBits : Nat) : Option PageState :=
  if p * c.recordSize < c.rtMprSize then some (s.pageInsert l p sizeBits) else none

/-- `_pages_ref_inc`. The index of the group's first page is an `int`. -/
def pagesRefInc (s : PageState) (p sizeBits : Nat) : Option PageState :=
  let idx := PageConfig.down (p % 2 ^ 32) (2 ^ sizeBits)
  if 2 ^ 31 ≤ idx then none
  else some (s.setRefCnt idx ((s.page idx).refCnt + 1))

variable (c : PageConfig)

/-- `while (level < RT_PAGE_MAX_ORDER - 1)`, with `n` levels to go. -/
def mergeLoop (s : PageState) (l : PageList) (p level : Nat) : Nat → PageState × Nat × Nat
  | 0 => (s, p, level)
  | n + 1 =>
    let buddy := c.buddyGet p level
    if (s.page buddy).sizeBits = level then
      (s.pageRemove c l buddy level).mergeLoop l (if p < buddy then p else buddy) (level + 1) n
    else (s, p, level)

/-- `_pages_free`. -/
def pagesFree (s : PageState) (l : PageList) (p sizeBits : Nat) : Option (PageState × Bool) :=
  if p * c.recordSize < c.rtMprSize ∧ (s.page p).refCnt ≠ 0 ∧ (s.page p).sizeBits = c.addressWidthBits ∧
      sizeBits < c.maxOrder then
    let s := s.setRefCnt p ((s.page p).refCnt - 1)
    if (s.page p).refCnt ≠ 0 then some (s, false)
    else
      let (s, p, level) := s.mergeLoop c l p sizeBits (c.maxOrder - 1 - sizeBits)
      some (s.pageInsert l p level, true)
  else none

/-- How a block is put on a list: `_page_insert` or `_early_page_insert`. -/
abbrev Insert := PageState → PageList → Nat → Nat → Option PageState

/-- `while (level > size_bits)`, with `n` levels to go: the lower half is put on the list, the upper half is kept. -/
def splitLoop (insert : Insert) (s : PageState) (l : PageList) (p sizeBits : Nat) : Nat → Option (PageState × Nat)
  | 0 => some (s, p)
  | n + 1 =>
    match insert s l p (sizeBits + n) with
    | none => none
    | some s => splitLoop insert s l (c.buddyGet p (sizeBits + n)) sizeBits n

/-- The smallest order from `from` on that has a block. -/
def findLevel (s : PageState) (l : PageList) (level : Nat) : Option Nat :=
  (List.range' level (c.maxOrder - level)).find? fun k => (s.list l k).isSome

/-- `_pages_alloc` and `_early_pages_alloc`; `none` for an order beyond the lists. -/
def pagesAllocBy (insert : Insert) (s : PageState) (l : PageList) (sizeBits : Nat) : Option (PageState × Option Nat) :=
  if sizeBits < c.maxOrder then
    match s.findLevel c l sizeBits with
    | none => some (s, none)
    | some level =>
      match s.list l level with
      | none => none
      | some p =>
        match splitLoop c insert (s.pageRemove c l p level) l p sizeBits (level - sizeBits) with
        | none => none
        | some (s, p) =>
          some ((s.setSizeBits p c.addressWidthBits).setRefCnt p 1, some p)
  else none

def pagesAlloc : PageState → PageList → Nat → Option (PageState × Option Nat) :=
  pagesAllocBy c fun s l p k => some (s.pageInsert l p k)

def earlyPagesAlloc : PageState → PageList → Nat → Option (PageState × Option Nat) :=
  pagesAllocBy c (earlyPageInsert c)

/-- `_flag_to_page_list`; `PAGE_ANY_AVAILABLE` is the lowest bit. -/
def flagToPageList (s : PageState) (flags : Nat) : PageList :=
  if s.highPageConfigured ∧ flags % 2 = 1 then .high else .low

/-- The block is the caller's. -/
def handOut (s : PageState) (sizeBits : Nat) : Option Nat → PageState × Option Nat
  | none => (s, none)
  | some p => ({ s with live := (p, sizeBits) :: s.live }, some (c.pageToAddr p))

/-- `_do_pages_alloc`, with `pages_alloc_handler`. -/
def doPagesAlloc (handler : PageState → PageList → Nat → Option (PageState × Option Nat)) (s : PageState)
    (sizeBits flags : Nat) : Option (PageState × Option Nat) :=
  let l := s.flagToPageList flags
  match handler s l sizeBits with
  | none => none
  | some (s, p) =>
    if p = none ∧ l ≠ .low then
      -- fall back
      match handler s .low sizeBits with
      | none => none
      | some (s, p) => some (s.handOut c sizeBits p)
    else some (s.handOut c sizeBits p)

/-- `rt_pages_alloc_ext`; `rt_pages_alloc` is the case of no flags. -/
def rtPagesAllocExt (s : PageState) (sizeBits flags : Nat) : Option (PageState × Option Nat) :=
  s.doPagesAlloc c (pagesAlloc c) sizeBits flags

def rtPageRefInc (s : PageState) (addr sizeBits : Nat) : Option PageState :=
  s.pagesRefInc (c.addrToPage addr) sizeBits

def rtPagesFree (s : PageState) (addr sizeBits : Nat) : Option (PageState × Bool) :=
  let l := c.getPageList addr
  let p := c.addrToPage addr
  match s.pagesFree c l p sizeBits with
  | none => none
  | some (s, realFree) => some (if realFree then { s with live := s.live.erase (p, sizeBits) } else s, realFree)

/-! ## Setting up -/

/-- The loops that mark the pages from `head` to `tail` as not free. -/
def mark (s : PageState) (head tail : Nat) : PageState :=
  { s with page := fun i => if head ≤ i ∧ i < tail then { s.page i with sizeBits := c.addressWidthBits } else s.page i }

/-- `__builtin_ctzl`, of a number below `2 ^ n`. -/
def ctz (a : Nat) : Nat → Nat
  | 0 => 0
  | n + 1 => if a % 2 = 1 then 0 else ctz (a / 2) n + 1

/-- `while (region.start != region.end)`. -/
def insertLoop (s : PageState) (start tail : Nat) : Nat → Option PageState
  | 0 => if start = tail then some s else none
  | n + 1 =>
    if start = tail then some s
    else
      let sizeBits := Nat.log2 ((tail + (2 ^ c.addressWidthBits - start)) % 2 ^ c.addressWidthBits)
      let alignBits := ctz start c.addressWidthBits
      let sizeBits := if alignBits < sizeBits then alignBits else sizeBits
      let maxOrder := c.maxOrder + c.pageShift - 1
      let sizeBits := if sizeBits > maxOrder then maxOrder else sizeBits
      let p := c.addrToPage start
      let s := (s.setSizeBits p c.addressWidthBits).setRefCnt p 0
      match s.earlyPageInsert c (c.getPageList start) p (sizeBits - c.pageShift) with
      | none => none
      | some s => s.insertLoop ((start + 1 <<< sizeBits) % 2 ^ c.addressWidthBits) tail n

/-- `_install_page`. -/
def installPage (s : PageState) (start tail : Nat) : Option PageState :=
  let shadowStart := PageConfig.down start c.shadowSize
  let shadowEnd := c.floor tail c.shadowSize
  let s := { s with highPageConfigured := s.highPageConfigured || decide (4294967295 < c.v2p shadowEnd) }
  let s := s.mark c (c.addrToPage shadowStart) (c.addrToPage start)
  let s := s.mark c (c.addrToPage tail) (c.addrToPage shadowEnd)
  s.insertLoop c start tail (2 ^ (c.addressWidthBits - c.pageShift))

/-- The bytes of the records of the pages of a region and its shadow, in pages. -/
def initMprSize (start tail : Nat) : Nat :=
  let initMprAlignStart := PageConfig.down (c.record (c.addrToPage (PageConfig.down start c.shadowSize))) c.archPageSize
  let initMprAlignEnd := c.floor (c.record (c.addrToPage (c.floor tail c.shadowSize))) c.archPageSize
  (initMprAlignEnd + (2 ^ c.addressWidthBits - initMprAlignStart)) % 2 ^ c.addressWidthBits

/-- The page tables for the records. -/
def loadTables (s : PageState) : Nat → Option PageState
  | 0 => some s
  | n + 1 =>
    match s.doPagesAlloc c (earlyPagesAlloc c) 0 0 with
    | some (s, some _) => s.loadTables n
    | _ => none

/-- `rt_page_init` up to the mapping of the records: the free lists, with nothing allocated. -/
def install (s : PageState) (start tail : Nat) : Option PageState :=
  let start := PageConfig.down ((start + (c.archPageSize - 1)) % 2 ^ c.addressWidthBits) c.archPageSize
  let tail := PageConfig.down tail c.archPageSize
  if tail ≤ start then none
  else
    let s := { s with list := fun _ _ => none, highPageConfigured := false, live := [] }
    let initMprContEnd := (start + initMprSize c start tail) % 2 ^ c.addressWidthBits
    let s := s.mark c (c.addrToPage start) (c.addrToPage tail)
    s.installPage c initMprContEnd tail

/-- `rt_page_init`, and `rt_page_cleanup`. The mapping of the records allocates `tables` pages. -/
def rtPageInit (s : PageState) (start tail tables : Nat) : Option PageState :=
  match s.install c start tail with
  | none => none
  | some s => s.loadTables c tables

/-! ## Runs -/

inductive Ev
  | alloc (sizeBits flags : Nat)
  | refInc (addr sizeBits : Nat)
  | free (addr sizeBits : Nat)

inductive Ret
  | page (addr : Option Nat)
  | done
  | freed (real : Bool)
deriving DecidableEq, Repr

def step (s : PageState) : Ev → Option (PageState × Ret)
  | .alloc sizeBits flags => (s.rtPagesAllocExt c sizeBits flags).map fun x => (x.1, .page x.2)
  | .refInc addr sizeBits => (s.rtPageRefInc c addr sizeBits).map fun s => (s, .done)
  | .free addr sizeBits => (s.rtPagesFree c addr sizeBits).map fun x => (x.1, .freed x.2)

end PageState

end RtThread
