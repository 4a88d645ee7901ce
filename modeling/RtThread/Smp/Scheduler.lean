import RtThread.Kernel.Ffs
import RtThread.Kernel.Types
import RtThread.Lib.Links

/-!
# `scheduler_mp.c`

The scheduler for several processors, in the build with `RT_THREAD_PRIORITY_MAX > 32`, with the thread functions that call
it. A thread that is bound to a processor has its ready queue there, any other one a global queue: `none` stands for the
global tables (and for `RT_CPUS_NR`), `some c` for those of processor `c`. Interrupts are disabled by taking the lock that
all processors share. A call is one step: `rt_thread_startup`, `rt_thread_resume`, `rt_thread_suspend_with_flag`,
`rt_thread_detach` and `rt_thread_delete`, which look at the thread before they take it, or take it twice, are taken to be
atomic. Hooks, the inter-processor interrupts, the stack check and the switch of contexts itself are left out, and so are
signals (`RT_USING_SIGNALS`). `bits` is the width of `rt_ubase_t`.
-/

namespace RtThread

abbrev CpuId := Nat

/-- `struct rt_thread`. -/
structure SmpThread where
  stat : Stat
  /-- `RT_THREAD_STAT_YIELD` in `stat`. -/
  statYield : Bool
  currentPriority : Nat
  number : Nat
  numberMask : BitVec 32
  highMask : BitVec 8
  bindCpu : Option CpuId
  /-- `none` is `RT_CPU_DETACHED`. -/
  oncpu : Option CpuId
  schedulerLockNest : Nat

/-- A priority group and its ready table. -/
structure ReadyBits where
  group : BitVec 32
  table : Nat → BitVec 8

/-- `struct rt_cpu`, without the ready queues. -/
structure RtCpu where
  currentThread : Option ThreadId
  irqNest : Nat
  irqSwitchFlag : Bool
  currentPriority : Nat

structure Smp where
  cpusNr : Nat
  priorityMax : Nat
  thread : ThreadId → SmpThread
  cpu : CpuId → RtCpu
  ready : Option CpuId → ReadyBits
  /-- The ready queues, by their processor and priority. -/
  tlist : Option CpuId × Nat → List ThreadId

namespace ReadyBits

variable (b : ReadyBits)

/-- `table[number] |= high_mask; group |= number_mask;` -/
def mark (x : SmpThread) : ReadyBits :=
  { group := b.group ||| x.numberMask
    table := Function.update b.table x.number (b.table x.number ||| x.highMask) }

/-- `table[number] &= ~high_mask; if (table[number] == 0) group &= ~number_mask;` -/
def unmark (x : SmpThread) : ReadyBits :=
  let table := Function.update b.table x.number (b.table x.number &&& ~~~x.highMask)
  { group := if table x.number = 0#8 then b.group &&& ~~~x.numberMask else b.group
    table := table }

/-- `__rt_ffs(group) - 1`. -/
def number (bits : Nat) : Nat := (rtFfs b.group + (2 ^ bits - 1)) % 2 ^ bits

/-- `table[number]`, with the byte that is read where `number` is not in the table. -/
def read (beyond : BitVec 8) (number : Nat) : BitVec 8 := if number < 32 then b.table number else beyond

/-- `(number << 3) + __rt_ffs(table[number]) - 1`. -/
def highest (bits : Nat) (beyond : BitVec 8) : Nat :=
  ((b.number bits <<< 3) + rtFfs ((b.read beyond (b.number bits)).setWidth 32) + (2 ^ bits - 1)) % 2 ^ bits

end ReadyBits

namespace Smp

/-- The bytes read beyond the global table and beyond that of a processor. -/
abbrev Beyond := BitVec 8 × BitVec 8

variable (k : Smp)

def modThread (t : ThreadId) (f : SmpThread → SmpThread) : Smp :=
  { k with thread := Function.update k.thread t (f (k.thread t)) }

def modCpu (c : CpuId) (f : RtCpu → RtCpu) : Smp := { k with cpu := Function.update k.cpu c (f (k.cpu c)) }

/-- The queue of a thread that is ready. -/
def home (x : SmpThread) : Option CpuId × Nat := (x.bindCpu, x.currentPriority)

/-- `_scheduler_get_highest_priority_thread` on processor `c`: the priority, and the thread. -/
def schedulerGetHighestPriorityThread (bits : Nat) (beyond : Beyond) (c : CpuId) : Nat × Option ThreadId :=
  let highestReadyPriority := (k.ready none).highest bits beyond.1
  let localHighestReadyPriority := (k.ready (some c)).highest bits beyond.2
  if highestReadyPriority < localHighestReadyPriority then
    (highestReadyPriority, (k.tlist (none, highestReadyPriority)).head?)
  else (localHighestReadyPriority, (k.tlist (some c, localHighestReadyPriority)).head?)

def rtScheduleInsertThread (t : ThreadId) : Smp :=
  if (k.thread t).oncpu ≠ none then k.modThread t fun x => { x with stat := .running }
  else
    let k := k.modThread t fun x => { x with stat := .ready }
    let x := k.thread t
    let k := { k with ready := Function.update k.ready x.bindCpu ((k.ready x.bindCpu).mark x) }
    if x.statYield then { k with tlist := Links.insertBefore k.tlist (home x) t }
    else { k with tlist := Links.insertAfter k.tlist (home x) t }

def rtScheduleRemoveThread (t : ThreadId) : Smp :=
  let x := k.thread t
  let k := { k with tlist := Links.remove k.tlist t }
  if k.tlist (home x) = [] then
    { k with ready := Function.update k.ready x.bindCpu ((k.ready x.bindCpu).unmark x) }
  else k

/-- What `rt_schedule` does with the current thread `c0` of processor `c` when `toThread` is the first of priority `hp`, and
the thread that is to run. -/
def scheduleChoice (c : CpuId) (c0 : ThreadId) (hp : Nat) (toThread : ThreadId) : Smp × ThreadId :=
  let k := k.modThread c0 fun x => { x with oncpu := none }
  let x := k.thread c0
  if x.stat = .running then
    let next :=
      if x.bindCpu = none ∨ x.bindCpu = some c then
        if x.currentPriority < hp then (k, c0)
        else if x.currentPriority = hp ∧ x.statYield = false then (k, c0)
        else (k.rtScheduleInsertThread c0, toThread)
      else (k.rtScheduleInsertThread c0, toThread)
    (next.1.modThread c0 fun x => { x with statYield := false }, next.2)
  else (k, toThread)

/-- `to_thread` runs on processor `c`, in place of `c0`. -/
def switchTo (c : CpuId) (c0 : ThreadId) (hp : Nat) (toThread : ThreadId) : Smp :=
  let k := k.modThread toThread fun x => { x with oncpu := some c }
  if toThread = c0 then k
  else
    let k := k.modCpu c fun p => { p with currentPriority := hp % 256, currentThread := some toThread }
    let k := k.rtScheduleRemoveThread toThread
    k.modThread toThread fun x => { x with stat := .running }

/-- The part that `rt_schedule` and `rt_scheduler_do_irq_switch` share. A set bit with an empty queue never occurs
(`Inv.bits`). -/
def reschedule (bits : Nat) (beyond : Beyond) (c : CpuId) (c0 : ThreadId) : Smp :=
  if (k.ready none).group ≠ 0#32 ∨ (k.ready (some c)).group ≠ 0#32 then
    match k.schedulerGetHighestPriorityThread bits beyond c with
    | (hp, some toThread) =>
      let next := k.scheduleChoice c c0 hp toThread
      next.1.switchTo c c0 hp next.2
    | (_, none) => k
  else k

/-- `rt_schedule` on processor `c`. -/
def rtSchedule (bits : Nat) (beyond : Beyond) (c : CpuId) : Smp :=
  if (k.cpu c).irqNest ≠ 0 then k.modCpu c fun p => { p with irqSwitchFlag := true }
  else
    match (k.cpu c).currentThread with
    | some c0 => if (k.thread c0).schedulerLockNest = 1 then k.reschedule bits beyond c c0 else k
    | none => k

/-- `rt_scheduler_do_irq_switch` on processor `c`. -/
def rtSchedulerDoIrqSwitch (bits : Nat) (beyond : Beyond) (c : CpuId) : Smp :=
  match (k.cpu c).currentThread with
  | some c0 =>
    if (k.cpu c).irqSwitchFlag ∧ (k.thread c0).schedulerLockNest = 1 ∧ (k.cpu c).irqNest = 0 then
      let k1 := (k.modCpu c fun p => { p with irqSwitchFlag := false }).reschedule bits beyond c c0
      if (k1.cpu c).currentThread = some c0 then k1
      else k1.modThread c0 fun x => { x with schedulerLockNest := x.schedulerLockNest - 1 }
    else k
  | none => k

/-- `rt_system_scheduler_start` on processor `c`, which has not run a thread yet. -/
def rtSystemSchedulerStart (bits : Nat) (beyond : Beyond) (c : CpuId) : Option Smp :=
  match k.schedulerGetHighestPriorityThread bits beyond c with
  | (_, some toThread) =>
    let k := k.modThread toThread fun x => { x with oncpu := some c }
    let k := k.rtScheduleRemoveThread toThread
    let k := k.modThread toThread fun x => { x with stat := .running, statYield := false }
    some (k.modCpu c fun p => { p with currentThread := some toThread })
  | (_, none) => none

/-! ## `thread.c` -/

/-- `thread->number`, `number_mask` and `high_mask` computed from the current priority. -/
def calcPriorityAttribute (x : SmpThread) : SmpThread :=
  { x with
    number := x.currentPriority >>> 3
    numberMask := 1#32 <<< (x.currentPriority >>> 3)
    highMask := 1#8 <<< (x.currentPriority &&& 0x07) }

def rtThreadResume (t : ThreadId) : Smp :=
  if (k.thread t).stat.isSuspend then
    let k := { k with tlist := Links.remove k.tlist t }
    k.rtScheduleInsertThread t
  else k

def rtThreadStartup (t : ThreadId) : Option Smp :=
  if (k.thread t).stat = .init then
    let k := k.modThread t fun x => { calcPriorityAttribute x with stat := .suspend .uninterruptible }
    some (k.rtThreadResume t)
  else none

/-- `rt_thread_suspend_with_flag` by a thread, for itself. -/
def rtThreadSuspendWithFlag (t : ThreadId) (flag : SuspendFlag) : Smp :=
  if (k.thread t).stat = .ready ∨ (k.thread t).stat = .running then
    (k.rtScheduleRemoveThread t).modThread t fun x => { x with stat := .suspend flag }
  else k

/-- The part of `_thread_exit`, `rt_thread_detach` and `rt_thread_delete` that the scheduler sees. -/
def threadClose (t : ThreadId) : Smp :=
  if (k.thread t).stat = .close then k
  else
    let k := if (k.thread t).stat = .init then k else k.rtScheduleRemoveThread t
    k.modThread t fun x => { x with stat := .close }

/-- `RT_THREAD_CTRL_CHANGE_PRIORITY` of `rt_thread_control`. -/
def changePriority (t : ThreadId) (priority : Nat) : Smp :=
  let set (x : SmpThread) : SmpThread := calcPriorityAttribute { x with currentPriority := priority }
  if (k.thread t).stat = .ready then
    ((k.rtScheduleRemoveThread t).modThread t set).rtScheduleInsertThread t
  else k.modThread t set

def rtThreadCpuBind (t : ThreadId) (cpu : CpuId) : Smp :=
  let cpu := if cpu ≥ k.cpusNr then none else some cpu
  if (k.thread t).stat = .ready then
    ((k.rtScheduleRemoveThread t).modThread t fun x => { x with bindCpu := cpu }).rtScheduleInsertThread t
  else k.modThread t fun x => { x with bindCpu := cpu }

/-! ## Steps -/

/-- A call of one of the functions, or a change of what they look at: the yield bit of a thread, its lock nesting, and the
interrupts a processor is in. -/
inductive Call
  | start (c : CpuId) (beyond : Beyond)
  | schedule (c : CpuId) (beyond : Beyond)
  | irqSwitch (c : CpuId) (beyond : Beyond)
  | startup (t : ThreadId)
  | resume (t : ThreadId)
  | suspend (t : ThreadId) (flag : SuspendFlag)
  | close (t : ThreadId)
  | changePriority (t : ThreadId) (priority : Nat)
  | bind (t : ThreadId) (cpu : CpuId)
  | yield (t : ThreadId)
  | lockNest (t : ThreadId) (n : Nat)
  | irqNest (c : CpuId) (n : Nat)
  deriving DecidableEq

/-- A priority that is set is one the build has, and a processor is started once, with a thread for it to run. -/
def call (bits : Nat) (k : Smp) : Call → Option Smp
  | .start c beyond =>
    if (k.cpu c).currentThread = none ∧ ((k.ready none).group ≠ 0#32 ∨ (k.ready (some c)).group ≠ 0#32) then
      k.rtSystemSchedulerStart bits beyond c
    else none
  | .schedule c beyond => some (k.rtSchedule bits beyond c)
  | .irqSwitch c beyond => some (k.rtSchedulerDoIrqSwitch bits beyond c)
  | .startup t => k.rtThreadStartup t
  | .resume t => some (k.rtThreadResume t)
  | .suspend t flag => some (k.rtThreadSuspendWithFlag t flag)
  | .close t => some (k.threadClose t)
  | .changePriority t priority => if priority < k.priorityMax then some (k.changePriority t priority) else none
  | .bind t cpu => some (k.rtThreadCpuBind t cpu)
  | .yield t => some (k.modThread t fun x => { x with statYield := true })
  | .lockNest t n => some (k.modThread t fun x => { x with schedulerLockNest := n })
  | .irqNest c n => some (k.modCpu c fun p => { p with irqNest := n })

end Smp

end RtThread
