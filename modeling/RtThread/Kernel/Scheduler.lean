import RtThread.Lib.Links
import RtThread.Kernel.Ffs
import RtThread.Kernel.Types

/-!
# `scheduler_up.c`

The ready queues and their bitmap: `rt_thread_ready_priority_group` has one bit for each priority when
`RT_THREAD_PRIORITY_MAX <= 32`, else one bit for each nonzero byte of `rt_thread_ready_table`, which then has one bit
for each priority. The hooks and the stack check read the state only and are left out; so is the context switch
itself, which changes no kernel data.
-/

namespace RtThread

namespace Kernel

/-- The build has the two-level bitmap (`RT_THREAD_PRIORITY_MAX > 32`). -/
abbrev twoLevel (k : Kernel) : Prop := 32 < k.priorityMax

/-- `thread->number`, `number_mask` and `high_mask` computed from the current priority. -/
def calcPriorityAttribute (k : Kernel) (x : Thread) : Thread :=
  if k.twoLevel then
    { x with
      number := x.currentPriority >>> 3
      numberMask := 1#32 <<< (x.currentPriority >>> 3)
      highMask := 1#8 <<< (x.currentPriority &&& 0x07) }
  else { x with numberMask := 1#32 <<< x.currentPriority }

/-- `_scheduler_get_highest_priority_thread`: the priority and the first thread of its queue. -/
def schedulerGetHighestPriorityThread (k : Kernel) : Nat × Option ThreadId :=
  let highestReadyPriority :=
    if k.twoLevel then
      let number := rtFfs k.readyPriorityGroup - 1
      (number <<< 3) + rtFfs ((k.readyTable number).setWidth 32) - 1
    else rtFfs k.readyPriorityGroup - 1
  (highestReadyPriority, (k.tlist (.ready highestReadyPriority)).head?)

/-- `rt_schedule_insert_thread`. -/
def rtScheduleInsertThread (k : Kernel) (t : ThreadId) : Kernel :=
  if k.currentThread = some t then k.modThread t fun x => { x with stat := .running }
  else
    let k := k.modThread t fun x => { x with stat := .ready }
    let x := k.thread t
    let k :=
      if x.statYield then { k with tlist := Links.insertBefore k.tlist (.ready x.currentPriority) t }
      else { k with tlist := Links.insertAfter k.tlist (.ready x.currentPriority) t }
    let k :=
      if k.twoLevel then
        { k with readyTable := Function.update k.readyTable x.number (k.readyTable x.number ||| x.highMask) }
      else k
    { k with readyPriorityGroup := k.readyPriorityGroup ||| x.numberMask }

/-- `rt_schedule_remove_thread`. -/
def rtScheduleRemoveThread (k : Kernel) (t : ThreadId) : Kernel :=
  let x := k.thread t
  let k := { k with tlist := Links.remove k.tlist t }
  if k.tlist (.ready x.currentPriority) = [] then
    if k.twoLevel then
      let k := { k with
        readyTable := Function.update k.readyTable x.number (k.readyTable x.number &&& ~~~x.highMask) }
      if k.readyTable x.number = 0#8 then
        { k with readyPriorityGroup := k.readyPriorityGroup &&& ~~~x.numberMask }
      else k
    else { k with readyPriorityGroup := k.readyPriorityGroup &&& ~~~x.numberMask }
  else k

section Fields

variable (k : Kernel) (t : ThreadId)

theorem rtScheduleInsertThread_thread :
    (k.rtScheduleInsertThread t).thread =
      Function.update k.thread t
        { k.thread t with stat := if k.currentThread = some t then .running else .ready } := by
  unfold rtScheduleInsertThread
  split <;> rename_i h <;> simp [h, modThread]
  split_ifs <;> rfl

theorem rtScheduleInsertThread_tlist :
    (k.rtScheduleInsertThread t).tlist =
      if k.currentThread = some t then k.tlist
      else if (k.thread t).statYield then Links.insertBefore k.tlist (.ready (k.prio t)) t
      else Links.insertAfter k.tlist (.ready (k.prio t)) t := by
  unfold rtScheduleInsertThread
  split <;> rename_i h <;> simp [h, modThread, prio]
  split_ifs <;> rfl

@[simp] theorem rtScheduleInsertThread_mutex : (k.rtScheduleInsertThread t).mutex = k.mutex := by
  unfold rtScheduleInsertThread
  dsimp only
  split_ifs <;> rfl

@[simp] theorem rtScheduleInsertThread_takenObjectList :
    (k.rtScheduleInsertThread t).takenObjectList = k.takenObjectList := by
  unfold rtScheduleInsertThread
  dsimp only
  split_ifs <;> rfl

@[simp] theorem rtScheduleInsertThread_priorityMax : (k.rtScheduleInsertThread t).priorityMax = k.priorityMax := by
  unfold rtScheduleInsertThread
  dsimp only
  split_ifs <;> rfl

@[simp] theorem rtScheduleInsertThread_currentThread :
    (k.rtScheduleInsertThread t).currentThread = k.currentThread := by
  unfold rtScheduleInsertThread
  dsimp only
  split_ifs <;> rfl

@[simp] theorem rtScheduleInsertThread_schedulerLockNest :
    (k.rtScheduleInsertThread t).schedulerLockNest = k.schedulerLockNest := by
  unfold rtScheduleInsertThread
  dsimp only
  split_ifs <;> rfl

@[simp] theorem rtScheduleRemoveThread_thread : (k.rtScheduleRemoveThread t).thread = k.thread := by
  unfold rtScheduleRemoveThread
  dsimp only
  split_ifs <;> rfl

@[simp] theorem rtScheduleRemoveThread_tlist : (k.rtScheduleRemoveThread t).tlist = Links.remove k.tlist t := by
  unfold rtScheduleRemoveThread
  dsimp only
  split_ifs <;> rfl

@[simp] theorem rtScheduleRemoveThread_mutex : (k.rtScheduleRemoveThread t).mutex = k.mutex := by
  unfold rtScheduleRemoveThread
  dsimp only
  split_ifs <;> rfl

@[simp] theorem rtScheduleRemoveThread_takenObjectList :
    (k.rtScheduleRemoveThread t).takenObjectList = k.takenObjectList := by
  unfold rtScheduleRemoveThread
  dsimp only
  split_ifs <;> rfl

@[simp] theorem rtScheduleRemoveThread_priorityMax : (k.rtScheduleRemoveThread t).priorityMax = k.priorityMax := by
  unfold rtScheduleRemoveThread
  dsimp only
  split_ifs <;> rfl

@[simp] theorem rtScheduleRemoveThread_currentThread :
    (k.rtScheduleRemoveThread t).currentThread = k.currentThread := by
  unfold rtScheduleRemoveThread
  dsimp only
  split_ifs <;> rfl

@[simp] theorem rtScheduleRemoveThread_schedulerLockNest :
    (k.rtScheduleRemoveThread t).schedulerLockNest = k.schedulerLockNest := by
  unfold rtScheduleRemoveThread
  dsimp only
  split_ifs <;> rfl

end Fields

/-- The choice `rt_schedule` makes between the current thread `c` and the head `toThread` of the queue of priority `hp`:
the thread to run, and whether the current one goes back to its ready queue. -/
def scheduleChoice (k : Kernel) (c : ThreadId) (hp : Nat) (toThread : ThreadId) : ThreadId × Bool :=
  if (k.thread c).stat = .running then
    if k.prio c < hp then (c, false)
    else if k.prio c = hp ∧ (k.thread c).statYield = false then (c, false)
    else (toThread, true)
  else (toThread, false)

/-- The switch of `rt_schedule` from `c` to `t`, taken from the queue of priority `hp`. -/
def switchTo (k : Kernel) (hp : Nat) (c t : ThreadId) (needInsertFromThread : Bool) : Kernel :=
  let k := { k with currentPriority := hp % 256, currentThread := some t }
  let k := if needInsertFromThread then k.rtScheduleInsertThread c else k
  let k := k.rtScheduleRemoveThread t
  k.modThread t fun x => { x with stat := .running }

theorem switchTo_thread (k : Kernel) (hp : Nat) {c t : ThreadId} (hct : c ≠ t) (need : Bool) :
    (k.switchTo hp c t need).thread =
      Function.update
        (if need then Function.update k.thread c { k.thread c with stat := .ready } else k.thread)
        t { k.thread t with stat := .running } := by
  unfold switchTo
  cases need with
  | true => simp [modThread_thread, rtScheduleInsertThread_thread, hct.symm]
  | false => simp [modThread_thread]

@[simp] theorem switchTo_currentThread (k : Kernel) (hp : Nat) (c t : ThreadId) (need : Bool) :
    (k.switchTo hp c t need).currentThread = some t := by
  unfold switchTo
  cases need <;> simp

@[simp] theorem switchTo_schedulerLockNest (k : Kernel) (hp : Nat) (c t : ThreadId) (need : Bool) :
    (k.switchTo hp c t need).schedulerLockNest = k.schedulerLockNest := by
  unfold switchTo
  cases need <;> simp

/-- `rt_schedule`. A set bit of the bitmap with an empty queue never occurs (`SchedInv`). -/
def rtSchedule (k : Kernel) : Kernel :=
  if k.schedulerLockNest = 0#16 then
    if k.readyPriorityGroup ≠ 0#32 then
      match k.currentThread, schedulerGetHighestPriorityThread k with
      | some c, (hp, some toThread) =>
        let choice := k.scheduleChoice c hp toThread
        let k :=
          if (k.thread c).stat = .running then k.modThread c fun x => { x with statYield := false } else k
        if choice.1 ≠ c then k.switchTo hp c choice.1 choice.2
        else
          let k := k.rtScheduleRemoveThread c
          k.modThread c fun x => { x with stat := .running }
      | _, _ => k
    else k
  else k

section Parts

variable {α : Type} {g : Thread → α} (hg : ∀ x s, g { x with stat := s } = g x)
include hg

/-- Scheduling changes no part of a thread but its state. -/
theorem rtScheduleInsertThread_part (k : Kernel) (t u : ThreadId) :
    g ((k.rtScheduleInsertThread t).thread u) = g (k.thread u) := by
  rw [rtScheduleInsertThread_thread]
  by_cases e : u = t
  · subst e; rw [Function.update_self, hg]
  · rw [Function.update_of_ne e]

theorem switchTo_part (k : Kernel) (hp : Nat) (c t : ThreadId) (need : Bool) (u : ThreadId) :
    g ((k.switchTo hp c t need).thread u) = g (k.thread u) := by
  unfold switchTo
  rw [modThread_part g (hg _ _), rtScheduleRemoveThread_thread]
  split
  · rw [rtScheduleInsertThread_part hg]
  · rfl

theorem rtSchedule_part (hy : ∀ x y, g { x with statYield := y } = g x) (k : Kernel) (u : ThreadId) :
    g (k.rtSchedule.thread u) = g (k.thread u) := by
  unfold rtSchedule
  split
  · split
    · split
      · rename_i c hp toThread _ _
        have h1 : g ((if (k.thread c).stat = .running then k.modThread c fun x => { x with statYield := false }
            else k).thread u) = g (k.thread u) := by
          split
          · exact modThread_part g (hy _ _) u
          · rfl
        dsimp only
        split
        · rw [switchTo_part hg, h1]
        · rw [modThread_part g (hg _ _), rtScheduleRemoveThread_thread, h1]
      · rfl
    · rfl
  · rfl

end Parts

/-- `rt_system_scheduler_start`: the first switch, to the highest-priority ready thread. -/
def rtSystemSchedulerStart (k : Kernel) : Option Kernel :=
  match k.currentThread, schedulerGetHighestPriorityThread k with
  | none, (_, some toThread) =>
    if k.readyPriorityGroup ≠ 0#32 then
      let k := { k with currentThread := some toThread }
      let k := k.rtScheduleRemoveThread toThread
      some (k.modThread toThread fun x => { x with stat := .running, statYield := false })
    else none
  | _, _ => none

/-- `rt_enter_critical`. -/
def rtEnterCritical (k : Kernel) : Kernel := { k with schedulerLockNest := k.schedulerLockNest + 1#16 }

/-- `rt_exit_critical`. -/
def rtExitCritical (k : Kernel) : Kernel :=
  let k := { k with schedulerLockNest := k.schedulerLockNest - 1#16 }
  if k.schedulerLockNest.toInt ≤ 0 then
    let k := { k with schedulerLockNest := 0#16 }
    if k.currentThread.isSome then k.rtSchedule else k
  else k

end Kernel

end RtThread
