import Mathlib.Algebra.Group.Nat.Defs
import Mathlib.Logic.Function.Basic

/-!
# The ring block buffer

`ringblk_buf.c`: blocks of a buffer are handed out one after another and around its end. The descriptors of the blocks are
linked through `rt_slist` nodes, in `blk_list` (in the order of allocation, with `tail` on its last node) or `free_list`.
A call whose assertion fails, or that would read a block through a null pointer, does not return (`none`). `bits` is the
width of `rt_size_t`.
-/

namespace RtThread

/-- `enum rt_rbb_status`. -/
inductive RbbStatus
  | unused
  | inited
  | put
  | get
  deriving DecidableEq, Repr

/-- `struct rt_rbb_blk`, without its list node. -/
structure RtRbbBlk where
  status : RbbStatus
  size : Nat
  buf : Nat
  deriving Repr

/-- An `rt_slist` node: one of the two list heads, or the one in a descriptor of `blk_set`. -/
inductive SlistNode
  | blkList
  | freeList
  | blk (i : Nat)
  deriving DecidableEq, Repr

/-- `struct rt_rbb`, with the descriptors and the `next` pointers of all nodes. -/
structure RtRbb where
  buf : Nat
  bufSize : Nat
  blkSet : Nat → RtRbbBlk
  blkMaxNum : Nat
  tail : SlistNode
  next : SlistNode → Option SlistNode

/-- `struct rt_rbb_blk_queue`. -/
structure RtRbbBlkQueue where
  blocks : Option Nat
  blkNum : Nat
  deriving Repr

namespace RtRbb

variable (rbb : RtRbb)

def setNext (n : SlistNode) (v : Option SlistNode) : RtRbb := { rbb with next := Function.update rbb.next n v }

def setBlk (i : Nat) (b : RtRbbBlk) : RtRbb := { rbb with blkSet := Function.update rbb.blkSet i b }

def setStatus (i : Nat) (st : RbbStatus) : RtRbb := rbb.setBlk i { rbb.blkSet i with status := st }

/-- The turns of a loop over a list of descriptors: one for each, and one for its head. -/
def turns : Nat := rbb.blkMaxNum + 1

end RtRbb

/-! ## `rt_slist` -/

/-- `rt_slist_entry(node, struct rt_rbb_blk, list)`; a list head is not in a descriptor. -/
def rtSlistEntry : SlistNode → Option Nat
  | .blk i => some i
  | _ => none

def rtSlistInit (rbb : RtRbb) (l : SlistNode) : RtRbb := rbb.setNext l none

def rtSlistInsert (rbb : RtRbb) (l n : SlistNode) : RtRbb := (rbb.setNext n (rbb.next l)).setNext l (some n)

def rtSlistFirst (rbb : RtRbb) (l : SlistNode) : Option SlistNode := rbb.next l

def rtSlistNext (rbb : RtRbb) (n : SlistNode) : Option SlistNode := rbb.next n

def rtSlistIsempty (rbb : RtRbb) (l : SlistNode) : Bool := (rbb.next l).isNone

/-- `while (node->next && node->next != n) node = node->next;` -/
def slistBefore (next : SlistNode → Option SlistNode) (n : SlistNode) : Nat → SlistNode → Option SlistNode
  | 0, _ => none
  | fuel + 1, node =>
    match next node with
    | none => some node
    | some m => if m = n then some node else slistBefore next n fuel m

/-- `if (node->next != 0) node->next = node->next->next;` -/
def slistUnlink (rbb : RtRbb) (node : SlistNode) : RtRbb :=
  match rbb.next node with
  | none => rbb
  | some m => rbb.setNext node (rbb.next m)

def rtSlistRemove (rbb : RtRbb) (l n : SlistNode) : Option RtRbb :=
  (slistBefore rbb.next n rbb.turns l).map (slistUnlink rbb)

/-! ## Blocks -/

/-- One turn of the loop of `rt_rbb_init`. -/
def rbbInitBlk (rbb : RtRbb) (i : Nat) : RtRbb :=
  rtSlistInsert (rtSlistInit (rbb.setStatus i .unused) (.blk i)) .freeList (.blk i)

/-- `blockSet` and `next` are what the memory holds before. -/
def rtRbbInit (buf bufSize : Nat) (blockSet : Nat → RtRbbBlk) (next : SlistNode → Option SlistNode) (blkMaxNum : Nat) :
    RtRbb :=
  let rbb : RtRbb :=
    { buf := buf, bufSize := bufSize, blkSet := blockSet, blkMaxNum := blkMaxNum, tail := .blkList, next := next }
  (List.range blkMaxNum).foldl rbbInitBlk (rtSlistInit (rtSlistInit rbb .blkList) .freeList)

/-- The first descriptor of `free_list` is taken off, or there is none. -/
def findEmptyBlkInSet (rbb : RtRbb) : Option (Option Nat × RtRbb) :=
  match rtSlistFirst rbb .freeList with
  | none => some (none, rbb)
  | some n =>
    match rtSlistEntry n with
    | none => none
    | some i =>
      match rtSlistRemove rbb .freeList (.blk i) with
      | none => none
      | some rbb1 => if (rbb1.blkSet i).status = .unused then some (some i, rbb1) else none

def listAppend (rbb : RtRbb) (n : SlistNode) : RtRbb :=
  { (rbb.setNext rbb.tail (some n)).setNext n none with tail := n }

def listRemove (rbb : RtRbb) (n : SlistNode) : Option RtRbb :=
  match slistBefore rbb.next n rbb.turns .blkList with
  | none => none
  | some node =>
    match rbb.next node with
    | none => some rbb
    | some m =>
      let rbb1 := (rbb.setNext node (rbb.next m)).setNext n none
      some (if rbb1.tail = n then { rbb1 with tail := node } else rbb1)

/-- The block `i` is appended, at the address `buf`. -/
def rbbPlace (rbb : RtRbb) (i buf blkSize : Nat) : RtRbb :=
  (listAppend rbb (.blk i)).setBlk i { status := .inited, size := blkSize, buf := buf }

/-- The difference of two pointers, as an `rt_size_t`. -/
def ptrDiff (bits a b : Nat) : Nat := if b ≤ a then a - b else 2 ^ bits - (b - a)

/-- The buffer of a new block of `rt_rbb_blk_alloc`, if there is space for it. -/
def rbbNewBuf (bits : Nat) (rbb : RtRbb) (blkSize : Nat) : Option Nat :=
  match rtSlistFirst rbb .blkList with
  | none => some rbb.buf
  | some first =>
    match rtSlistEntry first, rtSlistEntry rbb.tail with
    | some h, some t =>
      let head := rbb.blkSet h
      let tail := rbb.blkSet t
      if head.buf ≤ tail.buf then
        let empty1 := ptrDiff bits (rbb.buf + rbb.bufSize) (tail.buf + tail.size)
        let empty2 := ptrDiff bits head.buf rbb.buf
        if empty1 ≥ blkSize then some (tail.buf + tail.size)
        else if empty2 ≥ blkSize then some rbb.buf
        else none
      else
        let empty1 := ptrDiff bits head.buf (tail.buf + tail.size)
        if empty1 ≥ blkSize then some (tail.buf + tail.size) else none
    | _, _ => none

def rtRbbBlkAlloc (bits : Nat) (rbb : RtRbb) (blkSize : Nat) : Option (Option Nat × RtRbb) :=
  if blkSize < 2 ^ 24 then
    match findEmptyBlkInSet rbb with
    | none => none
    | some (none, rbb1) => some (none, rbb1)
    | some (some i, rbb1) =>
      match rbbNewBuf bits rbb1 blkSize with
      | some buf => some (some i, rbbPlace rbb1 i buf blkSize)
      | none => some (none, rbb1)
  else none

def rtRbbBlkPut (rbb : RtRbb) (i : Nat) : Option RtRbb :=
  if (rbb.blkSet i).status = .inited then some (rbb.setStatus i .put) else none

/-- The loop of `rt_rbb_blk_get`. -/
def rbbGetLoop (rbb : RtRbb) : Nat → Option SlistNode → Option (Option Nat × RtRbb)
  | _, none => some (none, rbb)
  | 0, some _ => none
  | fuel + 1, some node =>
    match rtSlistEntry node with
    | none => none
    | some i =>
      if (rbb.blkSet i).status = .put then some (some i, rbb.setStatus i .get)
      else rbbGetLoop rbb fuel (rtSlistNext rbb node)

def rtRbbBlkGet (rbb : RtRbb) : Option (Option Nat × RtRbb) :=
  if rtSlistIsempty rbb .blkList then some (none, rbb)
  else rbbGetLoop rbb rbb.turns (rtSlistFirst rbb .blkList)

def rtRbbBlkFree (rbb : RtRbb) (i : Nat) : Option RtRbb :=
  if (rbb.blkSet i).status ≠ .unused then
    (listRemove rbb (.blk i)).map fun rbb1 => rtSlistInsert (rbb1.setStatus i .unused) .freeList (.blk i)
  else none

/-- The loop of `rt_rbb_blk_queue_get`, with whether it runs to the end of the list: its last `tmp = rt_slist_next(node)`
then reads through a null pointer, and does not use what it reads. -/
def rbbQueueGetLoop (bits queueDataLen : Nat) :
    Nat → RtRbb → Option SlistNode → Option Nat → Nat → RtRbbBlkQueue → Option (Nat × RtRbbBlkQueue × RtRbb × Bool)
  | _, rbb, none, _, total, queue => some (total, queue, rbb, true)
  | 0, _, some _, _, _, _ => none
  | fuel + 1, rbb, some node, lastBlock, total, queue =>
    match rtSlistEntry node with
    | none => none
    | some block =>
      match lastBlock with
      | none =>
        if (rbb.blkSet block).status = .put then
          rbbQueueGetLoop bits queueDataLen fuel (rbb.setStatus block .get) (rtSlistNext rbb node) (some block)
            ((total + (rbb.blkSet block).size) % 2 ^ bits) { blocks := some block, blkNum := 1 }
        else rbbQueueGetLoop bits queueDataLen fuel rbb (rtSlistNext rbb node) none total queue
      | some last =>
        if (rbb.blkSet block).status ≠ .put ∨ (rbb.blkSet last).buf > (rbb.blkSet block).buf ∨
            (total + (rbb.blkSet block).size) % 2 ^ bits > queueDataLen then
          some (total, queue, rbb, false)
        else
          rbbQueueGetLoop bits queueDataLen fuel (rbb.setStatus block .get) (rtSlistNext rbb node) (some block)
            ((total + (rbb.blkSet block).size) % 2 ^ bits) { queue with blkNum := queue.blkNum + 1 }

/-- `queue` is what the caller's structure holds before. -/
def rtRbbBlkQueueGet (bits : Nat) (rbb : RtRbb) (queueDataLen : Nat) (queue : RtRbbBlkQueue) :
    Option (Nat × RtRbbBlkQueue × RtRbb × Bool) :=
  if rtSlistIsempty rbb .blkList then some (0, queue, rbb, false)
  else rbbQueueGetLoop bits queueDataLen rbb.turns rbb (rtSlistFirst rbb .blkList) none 0 queue

/-- The loop of `rt_rbb_blk_queue_free`, with `n` turns left. -/
def rbbQueueFreeLoop : Nat → RtRbb → Option Nat → Option RtRbb
  | 0, rbb, _ => some rbb
  | _ + 1, _, none => none
  | n + 1, rbb, some blk =>
    let nextBlk := (rbb.next (.blk blk)).bind rtSlistEntry
    match rtRbbBlkFree rbb blk with
    | none => none
    | some rbb1 => rbbQueueFreeLoop n rbb1 nextBlk

def rtRbbBlkQueueFree (rbb : RtRbb) (queue : RtRbbBlkQueue) : Option RtRbb :=
  rbbQueueFreeLoop queue.blkNum rbb queue.blocks

namespace RtRbb

/-- A call on a ring block buffer. -/
inductive Call
  | alloc (blkSize : Nat)
  | put (i : Nat)
  | get
  | free (i : Nat)
  | queueGet (queueDataLen : Nat) (queue : RtRbbBlkQueue)
  | queueFree (queue : RtRbbBlkQueue)

/-- What a call returns. -/
inductive Ret
  | done
  | block (i : Option Nat)
  | queue (size : Nat) (queue : RtRbbBlkQueue)

def call (bits : Nat) (rbb : RtRbb) : Call → Option (Ret × RtRbb)
  | .alloc blkSize => (rtRbbBlkAlloc bits rbb blkSize).map fun (i, rbb1) => (.block i, rbb1)
  | .put i => (rtRbbBlkPut rbb i).map fun rbb1 => (.done, rbb1)
  | .get => (rtRbbBlkGet rbb).map fun (i, rbb1) => (.block i, rbb1)
  | .free i => (rtRbbBlkFree rbb i).map fun rbb1 => (.done, rbb1)
  | .queueGet len queue => (rtRbbBlkQueueGet bits rbb len queue).map fun (n, q, rbb1, _) => (.queue n q, rbb1)
  | .queueFree queue => (rtRbbBlkQueueFree rbb queue).map fun rbb1 => (.done, rbb1)

end RtRbb

end RtThread
