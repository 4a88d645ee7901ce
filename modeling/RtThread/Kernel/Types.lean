import Mathlib.Logic.Function.Basic

/-!
# The kernel state

The data of `rtdef.h` that the scheduler, the thread functions and the IPC objects work on, for one processor
(`scheduler_up.c`). Every thread has one list node (`tlist`); the lists it can be in (the ready queues, the wait lists
of the IPC objects, the defunct list) are one family of intrusive lists, `Kernel.tlist`. Mutexes are linked in the
`taken_object_list` of their owner through a node of their own, `Kernel.takenObjectList`.

A thread that calls a blocking function comes back from `rt_schedule` later; what is left of its calls is its
`cont`, the frames still on its stack.
-/

namespace RtThread

abbrev ThreadId := Nat
abbrev MutexId := Nat
abbrev SemId := Nat
abbrev EventId := Nat
abbrev MailboxId := Nat
abbrev MqId := Nat
abbrev IsrId := Nat

/-- The error codes `-RT_E...` the modelled functions return. -/
inductive RtErr
  | eok | error | etimeout | efull | eintr | einval
  deriving DecidableEq, Repr

/-- `suspend_flag` of `rt_thread_suspend_with_flag`. -/
inductive SuspendFlag
  | interruptible | killable | uninterruptible
  deriving DecidableEq, Repr

/-- The three low bits of `stat`; `suspend` has the `RT_THREAD_SUSPEND_MASK` bit. -/
inductive Stat
  | init | close | ready | running
  | suspend (flag : SuspendFlag)
  deriving DecidableEq, Repr

/-- `(stat & RT_THREAD_SUSPEND_MASK) == RT_THREAD_SUSPEND_MASK`. -/
def Stat.isSuspend : Stat → Bool
  | .suspend _ => true
  | _ => false

/-- `RT_IPC_FLAG_FIFO` and `RT_IPC_FLAG_PRIO`. -/
inductive IpcFlag
  | fifo | prio
  deriving DecidableEq, Repr

/-- What a thread still has to do, from the innermost call outwards. -/
inductive Frame
  /-- The call of `rt_schedule` after an interrupt-disabled section. -/
  | schedule
  /-- The part of `_rt_mutex_take` after `rt_schedule`. -/
  | mutexTake (m : MutexId)
  /-- The part of `_rt_sem_take` after `rt_schedule`. -/
  | semTake (s : SemId)
  /-- The part of `_rt_event_recv` after `rt_schedule`. -/
  | eventRecv (e : EventId)
  /-- The loop of `_rt_mb_send_wait`, with its `value`, `timeout`, `tick_delta` and `suspend_flag`. -/
  | mbSendWait (b : MailboxId) (value : BitVec 64) (timeout tickDelta : BitVec 32) (flag : SuspendFlag)
  /-- The loop of `_rt_mb_recv`, with its `timeout`, `tick_delta` and `suspend_flag`. -/
  | mbRecv (b : MailboxId) (timeout tickDelta : BitVec 32) (flag : SuspendFlag)
  /-- The loop of `_rt_mq_send_wait`, with its `buffer`, `timeout`, `tick_delta` and `suspend_flag`. -/
  | mqSendWait (q : MqId) (buffer : List (BitVec 8)) (timeout tickDelta : BitVec 32) (flag : SuspendFlag)
  /-- The copy of `buffer` to `msg`, which is off the free list; in `rt_mq_urgent` or in `_rt_mq_send_wait`. -/
  | mqCopyIn (q : MqId) (msg : Nat) (buffer : List (BitVec 8)) (urgent : Bool)
  /-- The section that links `msg`. -/
  | mqLink (q : MqId) (msg : Nat) (buffer : List (BitVec 8)) (urgent : Bool)
  /-- The loop of `_rt_mq_recv`, with its `size`, `timeout`, `tick_delta` and `suspend_flag`. -/
  | mqRecv (q : MqId) (size : Nat) (timeout tickDelta : BitVec 32) (flag : SuspendFlag)
  /-- The copy of `size` bytes from `msg`, which is off the queue. -/
  | mqCopyOut (q : MqId) (msg size : Nat)
  /-- The section that puts `msg` on the free list, with the bytes copied from it. -/
  | mqFree (q : MqId) (msg : Nat) (buffer : List (BitVec 8))
  /-- The part of `rt_thread_sleep` after `rt_schedule`. -/
  | sleep
  deriving DecidableEq, Repr

/-- `struct rt_thread`. -/
structure Thread where
  stat : Stat
  /-- `RT_THREAD_STAT_YIELD` in `stat`. -/
  statYield : Bool
  currentPriority : Nat
  initPriority : Nat
  number : Nat
  numberMask : BitVec 32
  highMask : BitVec 8
  error : RtErr
  pendingObject : Option MutexId
  eventSet : BitVec 32
  eventInfo : BitVec 8
  initTick : BitVec 64
  remainingTick : BitVec 64
  /-- `RT_TIMER_FLAG_ACTIVATED` in the flag of `thread_timer`. -/
  timerActivated : Bool
  /-- The answer `lwp_suspend_sigcheck` would give; always `true` without `RT_USING_SMART`. -/
  suspendSigcheck : Bool
  cont : List Frame

/-- Where a mutex object is in its life: `rt_mutex_detach` clears the object type, `rt_mutex_delete` frees it. -/
inductive ObjectState
  | attached | detached | freed
  deriving DecidableEq, Repr

/-- `struct rt_mutex`; the flag of a mutex is always `RT_IPC_FLAG_PRIO`. -/
structure Mutex where
  object : ObjectState
  ceilingPriority : Nat
  priority : Nat
  hold : Nat
  owner : Option ThreadId

/-- `struct rt_semaphore`. -/
structure Semaphore where
  flag : IpcFlag
  value : Nat

/-- `struct rt_event`. -/
structure Event where
  flag : IpcFlag
  set : BitVec 32

/-- `struct rt_mailbox`. -/
structure Mailbox where
  flag : IpcFlag
  msgPool : Nat → BitVec 64
  size : Nat
  entry : Nat
  inOffset : Nat
  outOffset : Nat

/-- `struct rt_messagequeue`. A message is the number of its buffer in the pool; `next` is the link and `content` the
bytes of each. -/
structure MessageQueue where
  flag : IpcFlag
  msgSize : Nat
  maxMsgs : Nat
  entry : Nat
  msgQueueHead : Option Nat
  msgQueueTail : Option Nat
  msgQueueFree : Option Nat
  next : Nat → Option Nat
  content : Nat → Nat → BitVec 8

/-- Who calls a function: a thread, or an interrupt handler. -/
inductive Context
  | thread (t : ThreadId)
  | isr (i : IsrId)
  deriving DecidableEq, Repr

/-- The heads of the lists a `tlist` node can be linked in. -/
inductive ListHead
  /-- `rt_thread_priority_table[p]`. -/
  | ready (p : Nat)
  /-- `_rt_thread_defunct`. -/
  | defunct
  | mutex (m : MutexId)
  | sem (s : SemId)
  | event (e : EventId)
  /-- `mb->parent.suspend_thread`. -/
  | mbRecv (b : MailboxId)
  /-- `mb->suspend_sender_thread`. -/
  | mbSend (b : MailboxId)
  /-- `mq->parent.suspend_thread`. -/
  | mqRecv (q : MqId)
  /-- `mq->suspend_sender_thread`. -/
  | mqSend (q : MqId)
  deriving DecidableEq, Repr

/-- The wait lists: every list but the ready queues and the defunct list. -/
def ListHead.isWait : ListHead → Bool
  | .ready _ | .defunct => false
  | _ => true

/-- The state of the kernel. `priorityMax` is the build constant `RT_THREAD_PRIORITY_MAX`; `isrCont` is what the
interrupt handlers that were interrupted in a message queue function still have to do. -/
structure Kernel where
  priorityMax : Nat
  thread : ThreadId → Thread
  tlist : ListHead → List ThreadId
  takenObjectList : ThreadId → List MutexId
  mutex : MutexId → Mutex
  sem : SemId → Semaphore
  event : EventId → Event
  mailbox : MailboxId → Mailbox
  mq : MqId → MessageQueue
  isrCont : IsrId → List Frame
  readyPriorityGroup : BitVec 32
  readyTable : Nat → BitVec 8
  currentThread : Option ThreadId
  currentPriority : Nat
  schedulerLockNest : BitVec 16
  tick : BitVec 32

namespace Kernel

/-- Write to one thread. -/
def modThread (k : Kernel) (t : ThreadId) (f : Thread → Thread) : Kernel :=
  { k with thread := Function.update k.thread t (f (k.thread t)) }

/-- Write to one mutex. -/
def modMutex (k : Kernel) (m : MutexId) (f : Mutex → Mutex) : Kernel :=
  { k with mutex := Function.update k.mutex m (f (k.mutex m)) }

section Fields

variable (k : Kernel) (t u : ThreadId) (f : Thread → Thread) (m : MutexId) (g : Mutex → Mutex)

theorem modThread_thread : (k.modThread t f).thread = Function.update k.thread t (f (k.thread t)) := rfl

@[simp] theorem modThread_thread_self : (k.modThread t f).thread t = f (k.thread t) := by simp [modThread]

@[simp] theorem modThread_tlist : (k.modThread t f).tlist = k.tlist := rfl
@[simp] theorem modThread_mutex : (k.modThread t f).mutex = k.mutex := rfl
@[simp] theorem modThread_takenObjectList : (k.modThread t f).takenObjectList = k.takenObjectList := rfl
@[simp] theorem modThread_priorityMax : (k.modThread t f).priorityMax = k.priorityMax := rfl
@[simp] theorem modThread_currentThread : (k.modThread t f).currentThread = k.currentThread := rfl
@[simp] theorem modThread_readyPriorityGroup : (k.modThread t f).readyPriorityGroup = k.readyPriorityGroup := rfl
@[simp] theorem modThread_readyTable : (k.modThread t f).readyTable = k.readyTable := rfl
@[simp] theorem modThread_schedulerLockNest : (k.modThread t f).schedulerLockNest = k.schedulerLockNest := rfl

@[simp] theorem modMutex_mutex : (k.modMutex m g).mutex = Function.update k.mutex m (g (k.mutex m)) := rfl
@[simp] theorem modMutex_thread : (k.modMutex m g).thread = k.thread := rfl
@[simp] theorem modMutex_tlist : (k.modMutex m g).tlist = k.tlist := rfl
@[simp] theorem modMutex_takenObjectList : (k.modMutex m g).takenObjectList = k.takenObjectList := rfl
@[simp] theorem modMutex_currentThread : (k.modMutex m g).currentThread = k.currentThread := rfl
@[simp] theorem modMutex_priorityMax : (k.modMutex m g).priorityMax = k.priorityMax := rfl

variable {k t u f}

theorem modThread_thread_of_ne (h : u ≠ t) : (k.modThread t f).thread u = k.thread u := by simp [modThread, h]

/-- A write that keeps a part `p` of the thread keeps it of every thread. -/
theorem modThread_part {α : Type} (p : Thread → α) (hf : p (f (k.thread t)) = p (k.thread t)) (u : ThreadId) :
    p ((k.modThread t f).thread u) = p (k.thread u) := by
  by_cases h : u = t
  · subst h; rw [modThread_thread_self, hf]
  · rw [modThread_thread_of_ne h]

end Fields

/-- `thread->error = e`. -/
def setError (k : Kernel) (t : ThreadId) (e : RtErr) : Kernel := k.modThread t fun x => { x with error := e }

/-- Replace what the thread still has to do. -/
def setCont (k : Kernel) (t : ThreadId) (c : List Frame) : Kernel := k.modThread t fun x => { x with cont := c }

/-- Replace what a caller still has to do. -/
def setFrames (k : Kernel) (c : Context) (fs : List Frame) : Kernel :=
  match c with
  | .thread t => k.setCont t fs
  | .isr i => { k with isrCont := Function.update k.isrCont i fs }

/-- What a caller still has to do. -/
def frames (k : Kernel) : Context → List Frame
  | .thread t => (k.thread t).cont
  | .isr i => k.isrCont i

/-- Write to one message queue. -/
def modMq (k : Kernel) (q : MqId) (f : MessageQueue → MessageQueue) : Kernel :=
  { k with mq := Function.update k.mq q (f (k.mq q)) }

/-- The thread is suspended. -/
abbrev suspended (k : Kernel) (t : ThreadId) : Bool := (k.thread t).stat.isSuspend

/-- The current priority of a thread. -/
abbrev prio (k : Kernel) (t : ThreadId) : Nat := (k.thread t).currentPriority

end Kernel

end RtThread
