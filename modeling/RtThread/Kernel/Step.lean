import RtThread.Kernel.Mutex

/-!
# Steps and runs of the kernel

A step is one interrupt-disabled section, executed by the current thread or by an interrupt handler. Between two
steps anything else may run: a section and the `rt_schedule` after it are two steps when a thread makes the call, and
an interrupt may come between them. Some calls are taken to be atomic: `.startup`, `.resume` and `.delete` are one step
each, with the test before the sections, although `rt_thread_resume`, `rt_thread_delete` and `rt_thread_detach` disable
interrupts twice.

Which thread runs is decided by `rt_schedule`. `Ev.dispatch` also lets any ready thread take the processor, so a run
may interleave the sections of its threads in every order, as the threads of several processors do under the one
kernel lock.
-/

namespace RtThread

/-- What can happen next. The flag `isr` says that an interrupt handler makes the call. -/
inductive Ev
  | schedulerStart
  /-- `rt_schedule`, called from an interrupt handler. -/
  | schedule
  /-- A ready thread takes the processor. -/
  | dispatch (t : ThreadId)
  /-- The current thread runs the next of its frames. -/
  | cont
  /-- The time slice of the clock interrupt. -/
  | tick
  /-- The timer of a thread expires. -/
  | timeout (t : ThreadId)
  /-- `lwp_suspend_sigcheck` changes its answer for a thread. -/
  | sigcheck (t : ThreadId) (answer : Bool)
  | startup (isr : Bool) (t : ThreadId)
  | resume (t : ThreadId)
  | changePriority (t : ThreadId) (priority : Nat)
  /-- `rt_thread_delete` or `rt_thread_detach`. -/
  | delete (t : ThreadId)
  | defunctDequeue
  | exit
  | suspend (flag : SuspendFlag)
  | sleep (tick : BitVec 32)
  | yield
  | enterCritical
  | exitCritical
  | mutexTake (m : MutexId) (timeout : BitVec 32) (flag : SuspendFlag)
  | mutexRelease (m : MutexId)
  | mutexSetprioceiling (m : MutexId) (priority : Nat)
  /-- `rt_mutex_detach` or `rt_mutex_delete`. -/
  | mutexDetach (m : MutexId) (freed : Bool)
  | semTake (s : SemId) (timeout : BitVec 32) (flag : SuspendFlag)
  | semRelease (isr : Bool) (s : SemId)
  | eventRecv (e : EventId) (set : BitVec 32) (option : BitVec 8) (timeout : BitVec 32) (flag : SuspendFlag)
  | eventSend (isr : Bool) (e : EventId) (set : BitVec 32)
  | mbSendWait (b : MailboxId) (value : BitVec 64) (timeout : BitVec 32) (flag : SuspendFlag)
  | mbUrgent (isr : Bool) (b : MailboxId) (value : BitVec 64)
  | mbRecv (b : MailboxId) (timeout : BitVec 32) (flag : SuspendFlag)
  | mqSendWait (q : MqId) (buffer : List (BitVec 8)) (timeout : BitVec 32) (flag : SuspendFlag)
  | mqUrgent (isr : Option IsrId) (q : MqId) (buffer : List (BitVec 8))
  /-- `rt_mq_send`, from an interrupt handler. -/
  | mqSendIsr (i : IsrId) (q : MqId) (buffer : List (BitVec 8))
  | mqRecv (q : MqId) (size : Nat) (timeout : BitVec 32) (flag : SuspendFlag)
  /-- `rt_mq_recv` with no timeout, from an interrupt handler. -/
  | mqRecvIsr (i : IsrId) (q : MqId) (size : Nat)
  /-- `rt_mq_control` with `RT_IPC_CMD_RESET`. -/
  | mqReset (isr : Bool) (q : MqId)
  /-- An interrupt handler goes on with the message queue function it is in. -/
  | isrCont (i : IsrId)
  deriving DecidableEq, Repr

/-- The return of a call, with its result. A call of `_rt_mq_recv` also shows when it takes its message off the
queue. -/
inductive Ret
  | mutexTake (t : ThreadId) (m : MutexId) (err : RtErr)
  | mutexRelease (t : ThreadId) (m : MutexId) (err : RtErr)
  | semTake (t : ThreadId) (s : SemId) (err : RtErr)
  | semRelease (s : SemId) (err : RtErr)
  | eventRecv (t : ThreadId) (e : EventId) (err : RtErr) (recved : BitVec 32)
  | eventSend (e : EventId) (err : RtErr)
  | mbSendWait (t : ThreadId) (b : MailboxId) (value : BitVec 64) (err : RtErr)
  | mbUrgent (b : MailboxId) (value : BitVec 64) (err : RtErr)
  | mbRecv (t : ThreadId) (b : MailboxId) (err : RtErr) (value : BitVec 64)
  | mqSend (c : Context) (q : MqId) (buffer : List (BitVec 8)) (urgent : Bool) (err : RtErr)
  | mqDetach (c : Context) (q : MqId)
  | mqRecv (c : Context) (q : MqId) (err : RtErr) (buffer : List (BitVec 8))
  | mqReset (q : MqId)
  deriving DecidableEq, Repr

namespace Kernel

/-- The current thread, when it is not inside a kernel call. -/
def self (k : Kernel) : Option ThreadId :=
  k.currentThread.filter fun t => (k.thread t).cont = []

/-- The current thread, when it may call a function that blocks. -/
def caller (k : Kernel) : Option ThreadId := k.self.filter fun t => !k.suspended t

theorem self_eq_some {k : Kernel} {t : ThreadId} :
    k.self = some t ↔ k.currentThread = some t ∧ (k.thread t).cont = [] := by
  simp [self, Option.filter_eq_some_iff]

theorem caller_eq_some {k : Kernel} {t : ThreadId} :
    k.caller = some t ↔ k.currentThread = some t ∧ (k.thread t).cont = [] ∧ k.suspended t = false := by
  simp [caller, self_eq_some, Option.filter_eq_some_iff, and_assoc]

/-- The call of `rt_schedule` that ends a function: an interrupt handler makes it at once, a thread as a step of its
own. -/
def callSchedule (k : Kernel) (isr : Bool) : Kernel :=
  if isr then k.rtSchedule
  else
    match k.currentThread with
    | none => k
    | some t => k.setCont t (.schedule :: (k.thread t).cont)

/-- `rt_schedule` at the end of a function, if `need_schedule` says so. -/
def needSchedule (k : Kernel) (isr need : Bool) : Kernel := if need then k.callSchedule isr else k

/-- The caller of a function that does not wait. -/
def context (k : Kernel) : Option IsrId → Option Context
  | none => k.caller.map .thread
  | some i => if k.isrCont i = [] then some (.isr i) else none

/-- What a section of `_rt_mq_recv` shows. -/
def mqRecvRet (c : Context) (q : MqId) : MqRecvEnd → Option Ret
  | .blocked => none
  | .detached => some (.mqDetach c q)
  | .failed err => some (.mqRecv c q err [])

/-- The copies and the second sections of the message queue functions, with `fs` the frames after them; the last
component is `need_schedule`. -/
def mqFrame (k : Kernel) (c : Context) (fs : List Frame) : Frame → Option (Kernel × Option Ret × Bool)
  | .mqCopyIn q msg buffer urgent =>
    some ((k.mqCopyIn q msg buffer urgent).setFrames c (.mqLink q msg buffer urgent :: fs), none, false)
  | .mqLink q msg buffer urgent =>
    let r := (k.setFrames c fs).mqLink q msg urgent
    some (r.1, some (.mqSend c q buffer urgent r.2.1), r.2.2)
  | .mqCopyOut q msg size => some (k.setFrames c (.mqFree q msg (mqBytes (k.mq q) msg size) :: fs), none, false)
  | .mqFree q msg buffer =>
    let r := (k.setFrames c fs).mqFree q msg
    some (r.1, some (.mqRecv c q .eok buffer), r.2)
  | _ => none

/-- The next frame of the current thread `t`, with `fs` the frames after it. -/
def runFrame (fuel : Nat) (k : Kernel) (t : ThreadId) (fs : List Frame) : Frame → Option (Kernel × Option Ret)
  | .schedule => some ((k.setCont t fs).rtSchedule, none)
  | .mutexTake m => (rtMutexTakeWake fuel (k.setCont t fs) t m).map fun r => (r.1, some (.mutexTake t m r.2))
  | .semTake s =>
    let k := k.setCont t fs
    some (k, some (.semTake t s (k.thread t).error))
  | .eventRecv e =>
    let k := k.setCont t fs
    some (k, some (.eventRecv t e (k.thread t).error (k.thread t).eventSet))
  | .mbSendWait b value timeout tickDelta flag =>
    let r := rtMbSendWaitWake (k.setCont t fs) t b value timeout tickDelta flag
    some (r.1.needSchedule false r.2.2, r.2.1.map fun err => .mbSendWait t b value err)
  | .mbRecv b timeout tickDelta flag =>
    let r := rtMbRecvWake (k.setCont t fs) t b timeout tickDelta flag
    some (r.1.needSchedule false r.2.2, r.2.1.map fun v => .mbRecv t b v.1 v.2)
  | .mqSendWait q buffer timeout tickDelta flag =>
    let r := rtMqSendWaitWake (k.setCont t fs) t q buffer timeout tickDelta flag
    some (r.1, r.2.map fun err => .mqSend (.thread t) q buffer false err)
  | .mqRecv q size timeout tickDelta flag =>
    (rtMqRecvWake (k.setCont t fs) t q size timeout tickDelta flag).map fun r => (r.1, mqRecvRet (.thread t) q r.2)
  | .sleep => some ((k.setCont t fs).rtThreadSleepWake t, none)
  | f => (k.mqFrame (.thread t) fs f).map fun r => (r.1.needSchedule false r.2.2, r.2.1)

/-- One step. `rt_schedule` comes back to a thread only when it is running: a thread that suspends itself leaves the
processor to another one, in the last resort to the idle thread. -/
def step (fuel : Nat) (k : Kernel) : Ev → Option (Kernel × Option Ret)
  | .schedulerStart => k.rtSystemSchedulerStart.map fun k => (k, none)
  | .schedule => some (k.rtSchedule, none)
  | .dispatch t =>
    match k.currentThread with
    | none => none
    | some c =>
      if (k.thread t).stat = .ready then
        some (k.switchTo (k.prio t) c t (decide ((k.thread c).stat = .running)), none)
      else none
  | .cont =>
    match k.currentThread with
    | none => none
    | some t =>
      match (k.thread t).cont with
      | [] => none
      | f :: fs => if f = .schedule ∨ (k.thread t).stat = .running then runFrame fuel k t fs f else none
  | .tick => some (k.rtTickIncrease, none)
  | .timeout t =>
    if (k.thread t).timerActivated then
      ((k.threadTimerStop t).threadTimeout t).map fun k => (k.rtSchedule, none)
    else none
  | .sigcheck t answer => some (k.modThread t fun x => { x with suspendSigcheck := answer }, none)
  | .startup isr t =>
    if isr ∨ k.currentThread = none ∨ k.self.isSome then
      (k.rtThreadStartup t).map fun k => (k.callSchedule isr, none)
    else none
  | .resume t => some ((k.rtThreadResume t).1, none)
  | .changePriority t priority =>
    if priority < k.priorityMax then some (k.rtThreadControlChangePriority t priority, none) else none
  | .delete t => (rtThreadDelete fuel k t).map fun k => (k, none)
  | .defunctDequeue => some (k.rtThreadDefunctDequeue, none)
  | .exit => k.self.map fun t => ((k.threadExit t).callSchedule false, none)
  | .suspend flag => k.self.map fun t => ((k.rtThreadSuspendWithFlag t flag).1, none)
  | .sleep tick => k.self.map fun t => ((k.rtThreadSleep t tick).1, none)
  | .yield => k.self.map fun t => (k.rtThreadYield t, none)
  | .enterCritical => some (k.rtEnterCritical, none)
  | .exitCritical => some (k.rtExitCritical, none)
  | .mutexTake m timeout flag => do
    let t ← k.caller
    if (k.mutex m).object = .attached ∧ k.schedulerLockNest = 0#16 then
      let r ← rtMutexTake fuel k t m timeout flag
      some (r.1, r.2.map fun err => .mutexTake t m err)
    else none
  | .mutexRelease m => do
    let t ← k.caller
    if (k.mutex m).object = .attached then
      let r := k.rtMutexRelease t m
      some (r.1.needSchedule false r.2.2, some (.mutexRelease t m r.2.1))
    else none
  | .mutexSetprioceiling m priority => (rtMutexSetprioceiling fuel k m priority).map fun r => (r.1, none)
  | .mutexDetach m freed =>
    if (k.mutex m).object = .attached then
      some (k.rtMutexDetach m (if freed then .freed else .detached), none)
    else none
  | .semTake s timeout flag => do
    let t ← k.caller
    let r := k.rtSemTake t s timeout flag
    some (r.1, r.2.map fun err => .semTake t s err)
  | .semRelease isr s =>
    let r := k.rtSemRelease s
    if isr ∨ k.caller.isSome then
      some (r.1.needSchedule isr r.2.2, some (.semRelease s r.2.1))
    else none
  | .eventRecv e set option timeout flag => do
    let t ← k.caller
    let r ← k.rtEventRecv t e set option timeout flag
    some (r.1, r.2.map fun err => .eventRecv t e err (r.1.thread t).eventSet)
  | .eventSend isr e set =>
    let r := k.rtEventSend e set
    if isr ∨ k.caller.isSome then
      some (r.1.needSchedule isr r.2.2, some (.eventSend e r.2.1))
    else none
  | .mbSendWait b value timeout flag => do
    let t ← k.caller
    let r := k.rtMbSendWait t b value timeout flag
    some (r.1.needSchedule false r.2.2, r.2.1.map fun err => .mbSendWait t b value err)
  | .mbUrgent isr b value =>
    let r := k.rtMbUrgent b value
    if isr ∨ k.caller.isSome then
      some (r.1.needSchedule isr r.2.2, some (.mbUrgent b value r.2.1))
    else none
  | .mbRecv b timeout flag => do
    let t ← k.caller
    let r := k.rtMbRecv t b timeout flag
    some (r.1.needSchedule false r.2.2, r.2.1.map fun v => .mbRecv t b v.1 v.2)
  | .mqSendWait q buffer timeout flag => do
    let t ← k.caller
    if buffer = [] then none
    else
      let r := k.rtMqSendWait t q buffer timeout flag
      some (r.1, r.2.map fun err => .mqSend (.thread t) q buffer false err)
  | .mqUrgent isr q buffer => do
    let c ← k.context isr
    if buffer = [] then none
    else
      let r := k.rtMqUrgent c q buffer true
      some (r.1, r.2.map fun err => .mqSend c q buffer true err)
  | .mqSendIsr i q buffer => do
    let c ← k.context (some i)
    if buffer = [] then none
    else
      let r := k.rtMqUrgent c q buffer false
      some (r.1, r.2.map fun err => .mqSend c q buffer false err)
  | .mqRecv q size timeout flag => do
    let t ← k.caller
    if size = 0 then none
    else (k.rtMqRecv t q size timeout flag).map fun r => (r.1, mqRecvRet (.thread t) q r.2)
  | .mqRecvIsr i q size =>
    if size = 0 ∨ k.isrCont i ≠ [] then none
    else (k.rtMqRecvIsr i q size).map fun r => (r.1, mqRecvRet (.isr i) q r.2)
  | .mqReset isr q =>
    if isr ∨ k.caller.isSome then (rtMqControlReset fuel k q).map fun k => (k.callSchedule isr, some (.mqReset q))
    else none
  | .isrCont i =>
    match k.isrCont i with
    | [] => none
    | f :: fs => (k.mqFrame (.isr i) fs f).map fun r => (r.1.needSchedule true r.2.2, r.2.1)

end Kernel

end RtThread
