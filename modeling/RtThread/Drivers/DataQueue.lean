import Mathlib.Algebra.Group.Nat.Defs
import Mathlib.Logic.Function.Basic
import RtThread.Kernel.Types

/-!
# The data queue

`dataqueue.c`: a ring of items with two indices, and two flags that tell an empty queue from a full one. A step is what
runs with the interrupts disabled: a call, or the rest of a call after its thread has been woken. `rt_data_queue_peek` and
`rt_data_queue_len` read a flag before they disable them.
-/

namespace RtThread

/-- `struct rt_data_item`. -/
structure RtDataItem where
  dataPtr : Nat
  dataSize : Nat
deriving DecidableEq, Repr

/-- `RT_DATAQUEUE_EVENT_*`. -/
inductive DataqueueEvent
  | pop
  | push
  | lwm
deriving DecidableEq, Repr

/-- `struct rt_data_queue`. The items behind `queue` are read by their index. -/
structure RtDataQueue where
  size : Nat
  lwm : Nat
  getIndex : Nat
  isEmpty : Bool
  putIndex : Nat
  isFull : Bool
  queue : Nat → RtDataItem
  suspendedPushList : List Nat
  suspendedPopList : List Nat
  evtNotify : Bool

/-- What a bit-field of 15 bits keeps. -/
def index15 (n : Nat) : Nat := n % 2 ^ 15

namespace RtDataQueue

/-- `rt_data_queue_init`, with the memory that `rt_malloc` gives. -/
def rtDataQueueInit (queue : Nat → RtDataItem) (size lwm : Nat) (evtNotify : Bool) : RtDataQueue where
  size := size
  lwm := lwm
  getIndex := 0
  isEmpty := true
  putIndex := 0
  isFull := false
  queue := queue
  suspendedPushList := []
  suspendedPopList := []
  evtNotify := evtNotify

/-- The section of `rt_data_queue_len`: the length is an `rt_int16_t` that is returned as an `rt_uint16_t`. -/
def lenSection (q : RtDataQueue) : Nat :=
  if q.putIndex > q.getIndex then (q.putIndex - q.getIndex) % 2 ^ 16
  else (q.size + q.putIndex - q.getIndex) % 2 ^ 16

/-- `rt_data_queue_len`, where nothing comes between the test and the section. -/
def rtDataQueueLen (q : RtDataQueue) : Nat := if q.isEmpty then 0 else q.lenSection

/-- The index after `i`. -/
def next (q : RtDataQueue) (i : Nat) : Nat :=
  if index15 (i + 1) = q.size then 0 else index15 (i + 1)

/-- An item is written at `put_index`. -/
def put (q : RtDataQueue) (item : RtDataItem) : RtDataQueue :=
  { q with
    queue := Function.update q.queue q.putIndex item
    putIndex := q.next q.putIndex
    isEmpty := false
    isFull := if q.next q.putIndex = q.getIndex then true else q.isFull }

/-- The item at `get_index` is passed. -/
def get (q : RtDataQueue) : RtDataQueue :=
  { q with
    getIndex := q.next q.getIndex
    isFull := false
    isEmpty := if q.putIndex = q.next q.getIndex then true else q.isEmpty }

end RtDataQueue

/-- Where a thread is: suspended or woken in a push or a pop, or in `rt_data_queue_peek` or `rt_data_queue_len` after the test
of the flag. -/
inductive DataqueuePhase
  | idle
  | pushing (item : RtDataItem) (timeout : BitVec 32)
  | pushWoken (item : RtDataItem) (timeout : BitVec 32)
  | popping (timeout : BitVec 32)
  | popWoken (timeout : BitVec 32)
  | peeking
  | measuring
deriving DecidableEq, Repr

/-- `rt_thread_resume`. -/
def DataqueuePhase.wake : DataqueuePhase → DataqueuePhase
  | .pushing item timeout => .pushWoken item timeout
  | .popping timeout => .popWoken timeout
  | phase => phase

/-- The time a suspended thread waits for. -/
def DataqueuePhase.timer : DataqueuePhase → Option (BitVec 32)
  | .pushing _ timeout => some timeout
  | .popping timeout => some timeout
  | _ => none

structure DataqueueThread where
  phase : DataqueuePhase
  error : RtErr
deriving DecidableEq, Repr

structure DataqueueState where
  q : RtDataQueue
  thread : Nat → DataqueueThread

/-- What a step returns: the result of a call, what a pop or a peek stores, a length, and the event of the notification. -/
inductive DataqueueRet
  | push (item : RtDataItem) (result : RtErr) (evt : Option DataqueueEvent)
  | pop (item : Option RtDataItem) (result : RtErr) (evt : Option DataqueueEvent)
  | peek (item : Option RtDataItem)
  | len (n : Nat)
  | blocked
  | done
deriving DecidableEq, Repr

/-- What happens: calls by a thread (or an interrupt handler, which passes no timeout), the timer of a thread, and the
rest of a call. -/
inductive DataqueueEv
  | push (t : Nat) (item : RtDataItem) (timeout : BitVec 32)
  | pop (t : Nat) (timeout : BitVec 32)
  | peek (t : Nat)
  | len (t : Nat)
  | timeout (t : Nat)
  | goOn (t : Nat)
deriving DecidableEq, Repr

namespace DataqueueState

def setThread (s : DataqueueState) (t : Nat) (th : DataqueueThread) : DataqueueState :=
  { s with thread := Function.update s.thread t th }

def setPhase (s : DataqueueState) (t : Nat) (phase : DataqueuePhase) : DataqueueState :=
  s.setThread t { s.thread t with phase := phase }

/-- A suspended thread leaves its list. -/
def wake (s : DataqueueState) (t : Nat) (err : RtErr) : DataqueueState :=
  { s.setThread t ⟨(s.thread t).phase.wake, err⟩ with
    q := { s.q with
      suspendedPushList := s.q.suspendedPushList.erase t
      suspendedPopList := s.q.suspendedPopList.erase t } }

def notify (s : DataqueueState) (evt : DataqueueEvent) : Option DataqueueEvent :=
  if s.q.evtNotify then some evt else none

/-- `while (queue->is_full)`, one time round, and what follows the loop. -/
def pushLoop (s : DataqueueState) (t : Nat) (item : RtDataItem) (timeout : BitVec 32) : DataqueueState × DataqueueRet :=
  if s.q.isFull then
    if timeout = 0 then (s.setPhase t .idle, .push item .etimeout none)
    else
      ({ s.setThread t ⟨.pushing item timeout, .eok⟩ with
        q := { s.q with suspendedPushList := s.q.suspendedPushList ++ [t] } }, .blocked)
  else
    let s : DataqueueState := { s.setPhase t .idle with q := s.q.put item }
    match s.q.suspendedPopList with
    | u :: _ => (s.wake u (s.thread u).error, .push item .eok none)
    | [] => (s, .push item .eok (s.notify .push))

/-- `while (queue->is_empty)`, one time round, and what follows the loop. -/
def popLoop (s : DataqueueState) (t : Nat) (timeout : BitVec 32) : DataqueueState × DataqueueRet :=
  if s.q.isEmpty then
    if timeout = 0 then (s.setPhase t .idle, .pop none .etimeout none)
    else
      ({ s.setThread t ⟨.popping timeout, .eok⟩ with
        q := { s.q with suspendedPopList := s.q.suspendedPopList ++ [t] } }, .blocked)
  else
    let item := s.q.queue s.q.getIndex
    let s : DataqueueState := { s.setPhase t .idle with q := s.q.get }
    if s.q.rtDataQueueLen ≤ s.q.lwm then
      match s.q.suspendedPushList with
      | u :: _ => (s.wake u (s.thread u).error, .pop (some item) .eok (s.notify .lwm))
      | [] => (s, .pop (some item) .eok (s.notify .lwm))
    else (s, .pop (some item) .eok (s.notify .pop))

/-- The rest of a push after `rt_schedule`. -/
def pushGoOn (s : DataqueueState) (t : Nat) (item : RtDataItem) (timeout : BitVec 32) : DataqueueState × DataqueueRet :=
  if (s.thread t).error = .eok then s.pushLoop t item timeout
  else (s.setPhase t .idle, .push item (s.thread t).error none)

/-- The rest of a pop after `rt_schedule`. -/
def popGoOn (s : DataqueueState) (t : Nat) (timeout : BitVec 32) : DataqueueState × DataqueueRet :=
  if (s.thread t).error = .eok then s.popLoop t timeout
  else (s.setPhase t .idle, .pop none (s.thread t).error none)

/-- The rest of a call. -/
def goOn (s : DataqueueState) (t : Nat) : Option (DataqueueState × DataqueueRet) :=
  match (s.thread t).phase with
  | .pushWoken item timeout => some (s.pushGoOn t item timeout)
  | .popWoken timeout => some (s.popGoOn t timeout)
  | .peeking => some (s.setPhase t .idle, .peek (some (s.q.queue s.q.getIndex)))
  | .measuring => some (s.setPhase t .idle, .len s.q.lenSection)
  | _ => none

def step (s : DataqueueState) : DataqueueEv → Option (DataqueueState × DataqueueRet)
  | .push t item timeout => if (s.thread t).phase = .idle then some (s.pushLoop t item timeout) else none
  | .pop t timeout => if (s.thread t).phase = .idle then some (s.popLoop t timeout) else none
  | .peek t =>
    if (s.thread t).phase = .idle then
      if s.q.isEmpty then some (s, .peek none) else some (s.setPhase t .peeking, .done)
    else none
  | .len t =>
    if (s.thread t).phase = .idle then
      if s.q.isEmpty then some (s, .len 0) else some (s.setPhase t .measuring, .done)
    else none
  | .timeout t =>
    match (s.thread t).phase.timer with
    | some time => if (0 : BitVec 32).slt time then some (s.wake t .etimeout, .done) else none
    | none => none
  | .goOn t => s.goOn t

end DataqueueState

end RtThread
