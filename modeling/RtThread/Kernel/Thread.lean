import RtThread.Kernel.Scheduler

/-!
# `thread.c` and the time slice of `clock.c`

The state changes of the thread functions. The thread timer appears as its `RT_TIMER_FLAG_ACTIVATED` flag only: that
an activated timer expires no earlier than its deadline is the business of `timer.c`, and here it may expire at any
time. `none` stands for a failed `RT_ASSERT`.
-/

namespace RtThread

namespace Kernel

/-- `rt_timer_start(&thread->thread_timer)` after `RT_TIMER_CTRL_SET_TIME`. -/
def threadTimerStart (k : Kernel) (t : ThreadId) : Kernel := k.modThread t fun x => { x with timerActivated := true }

/-- `rt_timer_stop` and `rt_timer_detach` of the thread timer. -/
def threadTimerStop (k : Kernel) (t : ThreadId) : Kernel := k.modThread t fun x => { x with timerActivated := false }

/-- `rt_thread_defunct_enqueue`. -/
def rtThreadDefunctEnqueue (k : Kernel) (t : ThreadId) : Kernel :=
  { k with tlist := Links.insertAfter k.tlist .defunct t }

/-- `rt_thread_defunct_dequeue`, by the idle thread. -/
def rtThreadDefunctDequeue (k : Kernel) : Kernel :=
  match k.tlist .defunct with
  | [] => k
  | t :: _ => { k with tlist := Links.remove k.tlist t }

/-- `rt_thread_resume`. -/
def rtThreadResume (k : Kernel) (t : ThreadId) : Kernel × RtErr :=
  if k.suspended t then
    let k := { k with tlist := Links.remove k.tlist t }
    let k := k.threadTimerStop t
    (k.rtScheduleInsertThread t, .eok)
  else (k, .error)

/-- `rt_thread_suspend_with_flag`; the thread is the current one (`RT_ASSERT`). -/
def rtThreadSuspendWithFlag (k : Kernel) (t : ThreadId) (flag : SuspendFlag) : Kernel × RtErr :=
  if (k.thread t).stat = .ready ∨ (k.thread t).stat = .running then
    if (k.thread t).suspendSigcheck then
      let k := k.rtScheduleRemoveThread t
      let k := k.modThread t fun x => { x with stat := .suspend flag }
      (k.threadTimerStop t, .eok)
    else (k, .eintr)
  else (k, .error)

/-- `rt_thread_control` with `RT_THREAD_CTRL_CHANGE_PRIORITY`. -/
def rtThreadControlChangePriority (k : Kernel) (t : ThreadId) (priority : Nat) : Kernel :=
  if (k.thread t).stat = .ready then
    let k := k.rtScheduleRemoveThread t
    let k := k.modThread t fun x => k.calcPriorityAttribute { x with currentPriority := priority }
    k.rtScheduleInsertThread t
  else k.modThread t fun x => k.calcPriorityAttribute { x with currentPriority := priority }

section Fields

variable (k : Kernel) (t : ThreadId) (p : Nat)

@[simp] theorem rtThreadControlChangePriority_mutex : (k.rtThreadControlChangePriority t p).mutex = k.mutex := by
  unfold rtThreadControlChangePriority
  split <;> simp

@[simp] theorem rtThreadControlChangePriority_takenObjectList :
    (k.rtThreadControlChangePriority t p).takenObjectList = k.takenObjectList := by
  unfold rtThreadControlChangePriority
  split <;> simp

@[simp] theorem rtThreadControlChangePriority_currentThread :
    (k.rtThreadControlChangePriority t p).currentThread = k.currentThread := by
  unfold rtThreadControlChangePriority
  split <;> simp

@[simp] theorem rtThreadControlChangePriority_priorityMax :
    (k.rtThreadControlChangePriority t p).priorityMax = k.priorityMax := by
  unfold rtThreadControlChangePriority
  split <;> simp

end Fields

/-- `rt_thread_startup`, up to its last call of `rt_schedule`. -/
def rtThreadStartup (k : Kernel) (t : ThreadId) : Option Kernel :=
  if (k.thread t).stat = .init then
    let k := k.modThread t fun x => k.calcPriorityAttribute x
    let k := k.modThread t fun x => { x with stat := .suspend .interruptible, statYield := false }
    some (k.rtThreadResume t).1
  else none

/-- `_thread_exit` of the current thread, up to its last call of `rt_schedule`. -/
def threadExit (k : Kernel) (t : ThreadId) : Kernel :=
  let k := k.rtScheduleRemoveThread t
  let k := k.threadTimerStop t
  let k := k.modThread t fun x => { x with stat := .close, statYield := false }
  k.rtThreadDefunctEnqueue t

/-- `_thread_timeout`, called by the timer check once the timer is deactivated, up to its last call of
`rt_schedule`. -/
def threadTimeout (k : Kernel) (t : ThreadId) : Option Kernel :=
  if k.suspended t then
    let k := k.setError t .etimeout
    let k := { k with tlist := Links.remove k.tlist t }
    some (k.rtScheduleInsertThread t)
  else none

/-- `rt_thread_yield` of the current thread. -/
def rtThreadYield (k : Kernel) (t : ThreadId) : Kernel :=
  let k := k.modThread t fun x => { x with remainingTick := x.initTick, statYield := true }
  k.rtSchedule

/-- `rt_thread_sleep` of the current thread, up to its call of `rt_schedule`; `none` in the second component: the
thread sleeps. -/
def rtThreadSleep (k : Kernel) (t : ThreadId) (tick : BitVec 32) : Kernel × Option RtErr :=
  if tick = 0#32 then (k, some .einval)
  else
    let k := k.setError t .eok
    let r := k.rtThreadSuspendWithFlag t .interruptible
    if r.2 = .eok then
      let k := r.1.threadTimerStart t
      let k := k.setError t .eintr
      (k.setCont t [.schedule, .sleep], none)
    else (r.1, some r.2)

/-- `rt_thread_sleep` after `rt_schedule`. -/
def rtThreadSleepWake (k : Kernel) (t : ThreadId) : Kernel :=
  if (k.thread t).error = .etimeout then k.setError t .eok else k

/-- The time slice of `rt_tick_increase`. -/
def rtTickIncrease (k : Kernel) : Kernel :=
  let k := { k with tick := k.tick + 1#32 }
  match k.currentThread with
  | none => k
  | some t =>
    let k := k.modThread t fun x => { x with remainingTick := x.remainingTick - 1#64 }
    if (k.thread t).remainingTick = 0#64 then
      let k := k.modThread t fun x => { x with remainingTick := x.initTick, statYield := true }
      k.rtSchedule
    else k

end Kernel

end RtThread
