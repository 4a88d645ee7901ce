import RtThread.Kernel.Types
import RtThread.Lib.Bytes
import RtThread.Mem.Memory

/-!
# Memory pools

`mempool.c`: a region divided into blocks of one size, each with a header of one pointer, which links the free blocks and
points to the pool while the block is allocated. A step is what runs with the interrupts disabled: a call, or the rest
of a call after its thread has been woken.
-/

namespace RtThread

/-- The width of a pointer, in bytes, is that of `rt_size_t`. -/
structure MpConfig extends Word where
  ptrSize : Nat
  bits_eq : bits = 8 * ptrSize

/-- `a * b` of `rt_size_t`. -/
def Word.mul (w : Word) (a b : Nat) : Nat := a * b % 2 ^ w.bits

structure RtMempool where
  startAddress : Nat
  size : Nat
  blockSize : Nat
  blockList : Nat
  blockTotalCount : Nat
  blockFreeCount : Nat
  suspendThread : List Nat

namespace RtMempool

/-- The pool that `rt_mp_init` makes of a region, and the pointers it writes, in their order. -/
def rtMpInit (w : MpConfig) (start size blockSize : Nat) : Option (RtMempool × List (Nat × Nat)) :=
  let size := w.rtAlignDown size
  let blockSize := w.rtAlign blockSize
  let stride := w.add blockSize w.ptrSize
  -- a division by zero
  if stride = 0 then none
  else
    let blockTotalCount := size / stride
    let links := (List.range blockTotalCount).map fun offset =>
      (w.add start (w.mul offset stride), w.add start (w.mul (w.add offset 1) stride))
    let last := (w.add start (w.mul (w.sub blockTotalCount 1) stride), 0)
    some (⟨start, size, blockSize, start, blockTotalCount, blockTotalCount, []⟩, links ++ [last])

end RtMempool

/-- Where a thread is in `rt_mp_alloc`, and the time it has left. -/
inductive MpPhase
  | idle
  | suspended (time : BitVec 32)
  | woken (time : BitVec 32)
deriving DecidableEq, Repr

structure MpThread where
  phase : MpPhase
  error : RtErr
deriving DecidableEq, Repr

/-- The memory, the pool at `addr`, the threads, and the blocks that callers have. -/
structure MpState where
  mem : Nat → BitVec 8
  addr : Nat
  mp : RtMempool
  thread : Nat → MpThread
  owned : List Nat

inductive MpRet
  | block (ptr : Nat)
  | null
  | blocked
  | done
deriving DecidableEq, Repr

/-- What happens: calls by a thread or (`none`) an interrupt handler, the timer of a thread, `rt_thread_resume` of a
thread, the rest of a call after `elapsed` ticks, and writes of a caller to its blocks. -/
inductive MpEv
  | alloc (c : Option Nat) (time : BitVec 32)
  | timeout (t : Nat)
  | resume (t : Nat)
  | goOn (t : Nat) (elapsed : BitVec 32)
  | free (block : Nat)
  | write (mem : Nat → BitVec 8)

namespace MpState

variable (w : MpConfig)

def load (s : MpState) (a : Nat) : Nat := Bytes.load s.mem a w.ptrSize

def store (s : MpState) (a v : Nat) : MpState := { s with mem := Bytes.store s.mem a v w.ptrSize }

def setThread (s : MpState) (t : Nat) (th : MpThread) : MpState :=
  { s with thread := Function.update s.thread t th }

def setPhase (s : MpState) (c : Option Nat) (phase : MpPhase) : MpState :=
  match c with
  | none => s
  | some t => s.setThread t { s.thread t with phase := phase }

/-- `while (mp->block_free_count == 0)`, one time round, and what follows the loop. -/
def mpAllocLoop (s : MpState) (c : Option Nat) (time : BitVec 32) : Option (MpState × MpRet) :=
  if s.mp.blockFreeCount = 0 then
    if time = 0 then
      some (s.setPhase c .idle, .null)
    else
      match c with
      | none => none
      | some t =>
        some ({ s.setThread t ⟨.suspended time, .eok⟩ with
          mp := { s.mp with suspendThread := t :: s.mp.suspendThread } }, .blocked)
  else
    let blockPtr := s.mp.blockList
    if blockPtr = 0 then none
    else
      let s := { s with
        mp := { s.mp with blockFreeCount := s.mp.blockFreeCount - 1, blockList := s.load w blockPtr }
        owned := blockPtr :: s.owned }
      some ((s.store w blockPtr s.addr).setPhase c .idle, .block (blockPtr + w.ptrSize))

/-- The rest of `rt_mp_alloc` after `rt_schedule`. -/
def mpAllocGoOn (s : MpState) (t : Nat) (time elapsed : BitVec 32) : Option (MpState × MpRet) :=
  if (s.thread t).error ≠ .eok then
    some (s.setPhase (some t) .idle, .null)
  else
    let left := if (0 : BitVec 32).slt time then
        if (time - elapsed).slt 0 then 0 else time - elapsed
      else time
    s.mpAllocLoop w (some t) left

/-- A thread leaves the list of the suspended threads. -/
def wake (s : MpState) (t : Nat) (err : RtErr) (time : BitVec 32) : MpState :=
  { s.setThread t ⟨.woken time, err⟩ with
    mp := { s.mp with suspendThread := s.mp.suspendThread.erase t } }

/-- `rt_mp_free`, of a block of this pool, which is what its header says. -/
def rtMpFree (s : MpState) (block : Nat) : Option MpState :=
  let blockPtr := block - w.ptrSize
  if block = 0 then some s
  else if s.load w blockPtr ≠ s.addr then none
  else
    let s := { s with
      mp := { s.mp with blockFreeCount := s.mp.blockFreeCount + 1 }
      owned := s.owned.erase blockPtr }
    let s := s.store w blockPtr s.mp.blockList
    let s := { s with mp := { s.mp with blockList := blockPtr } }
    match s.mp.suspendThread with
    | [] => some s
    | t :: _ =>
      match (s.thread t).phase with
      | .suspended time => some (s.wake t .eok time)
      | _ => none

def step (s : MpState) : MpEv → Option (MpState × MpRet)
  | .alloc c time =>
    match c with
    | none => s.mpAllocLoop w none time
    | some t => if (s.thread t).phase = .idle then s.mpAllocLoop w (some t) time else none
  | .timeout t =>
    match (s.thread t).phase with
    | .suspended time => if (0 : BitVec 32).slt time then some (s.wake t .etimeout time, .done) else none
    | _ => none
  | .resume t =>
    match (s.thread t).phase with
    | .suspended time => some (s.wake t (s.thread t).error time, .done)
    | _ => none
  | .goOn t elapsed =>
    match (s.thread t).phase with
    | .woken time => s.mpAllocGoOn w t time elapsed
    | _ => none
  | .free block =>
    if block = 0 ∨ block - w.ptrSize ∈ s.owned ∧ w.ptrSize ≤ block then
      (s.rtMpFree w block).map fun s => (s, .done)
    else none
  | .write mem => some ({ s with mem := mem }, .done)

end MpState

end RtThread
