import Mathlib.Algebra.Group.Nat.Defs
import RtThread.Kernel.Types
import RtThread.Lib.Intrusive

/-!
# Work queues

`workqueue.c`: work items that are to run now are in the `work_list` of a queue, those that wait for their timer in its
`delayed_list`; a worker thread runs them. A step is a section with the interrupts disabled, or an access to shared memory
outside of one. The worker's semaphore is only used with the scheduler locked, so that the loop of
`_workqueue_work_completion` is one step.
-/

namespace RtThread

/-- The timer of a work item: whether it is a timer object, and `RT_TIMER_FLAG_ACTIVATED`. -/
structure WorkTimer where
  isTimer : Bool
  activated : Bool
deriving DecidableEq, Repr

/-- `struct rt_work`. The node of its list is in one of the lists of `WorkqueueState`. -/
structure RtWork where
  pending : Bool
  submitting : Bool
  timer : WorkTimer
  workqueue : Option Nat
deriving DecidableEq, Repr

/-- Where the worker thread is in `_workqueue_thread_entry`. -/
inductive WorkerStage
  | ready
  | running (work : Nat)
  | acking
deriving DecidableEq, Repr

/-- `struct rt_workqueue`, with the state of its thread. -/
structure RtWorkqueue where
  workCurrent : Option Nat
  semValue : Nat
  semSuspend : List Nat
  stage : WorkerStage
  threadSuspended : Bool
deriving DecidableEq, Repr

/-- The lists of the queues. -/
inductive WorkList
  | workList (queue : Nat)
  | delayedList (queue : Nat)
deriving DecidableEq, Repr

/-- The timer thread: a timer has expired and its handler is to run, or it has read the queue. -/
inductive TimerStage
  | idle
  | expired (work : Nat)
  | handling (work queue : Nat)
deriving DecidableEq, Repr

/-- Where a caller of `rt_workqueue_cancel_work_sync` is. -/
inductive SyncStage
  | idle
  | cancelling (queue work : Nat)
  | taking (queue work : Nat)
  | waiting (queue work : Nat)
  | woken (queue work : Nat)
deriving DecidableEq, Repr

/-- The lists, the queues and the work items, the calls that are about to start the timer of a work item, the timer
thread, and the callers of `rt_workqueue_cancel_work_sync`. -/
structure WorkqueueState where
  list : WorkList → List Nat
  queue : Nat → RtWorkqueue
  work : Nat → RtWork
  starting : List Nat
  timerThread : TimerStage
  caller : Nat → SyncStage

inductive WorkRet
  | eok
  | error
  | ebusy
  | called (work : Nat)
  | done
deriving DecidableEq, Repr

inductive WorkEv
  | dowork (queue work : Nat)
  | submit (queue work ticks : Nat)
  | startTimer (work : Nat)
  | urgent (queue work : Nat)
  | cancel (queue work : Nat)
  | cancelFirst (list : WorkList) (work : Nat)
  | expire (work : Nat)
  | handlerRead
  | handlerSection
  | take (queue : Nat)
  | finish (queue : Nat)
  | ack (queue : Nat)
  | syncTest (caller queue work : Nat)
  | syncCancel (caller work : Nat)
  | syncTake (caller : Nat)
  | syncReturn (caller : Nat)
deriving DecidableEq, Repr

/-- `RT_TICK_MAX` -/
def rtTickMax : Nat := 2 ^ 32 - 1

namespace WorkqueueState

def setQueue (s : WorkqueueState) (queue : Nat) (q : RtWorkqueue) : WorkqueueState :=
  { s with queue := Function.update s.queue queue q }

def setWork (s : WorkqueueState) (work : Nat) (w : RtWork) : WorkqueueState :=
  { s with work := Function.update s.work work w }

def setCaller (s : WorkqueueState) (t : Nat) (stage : SyncStage) : WorkqueueState :=
  { s with caller := Function.update s.caller t stage }

/-- `rt_list_remove(&(work->list));` -/
def rtListRemove (s : WorkqueueState) (work : Nat) : WorkqueueState :=
  { s with list := Intrusive.remove work s.list }

def setList (s : WorkqueueState) (l : WorkList) (works : List Nat) : WorkqueueState :=
  { s with list := Function.update s.list l works }

/-- `rt_list_insert_after(list.prev, &(work->list));` -/
def insertLast (s : WorkqueueState) (l : WorkList) (work : Nat) : WorkqueueState := s.setList l (s.list l ++ [work])

/-- Whether the workqueue is doing work, and else the worker thread is resumed. -/
def resumeWorkThread (s : WorkqueueState) (queue : Nat) : WorkqueueState :=
  if (s.queue queue).workCurrent = none ∧ (s.queue queue).threadSuspended then
    s.setQueue queue { s.queue queue with threadSuspended := false }
  else s

/-- `_workqueue_submit_work` -/
def workqueueSubmitWork (s : WorkqueueState) (queue work ticks : Nat) : Option (WorkqueueState × WorkRet) :=
  let w := { s.work work with pending := false }
  let s := (s.rtListRemove work).setWork work w
  if ticks = 0 then
    let s := (s.insertLast (.workList queue) work).setWork work { w with pending := true, workqueue := some queue }
    some (s.resumeWorkThread queue, .eok)
  else if ticks < rtTickMax / 2 then
    -- `rt_timer_stop` asserts that it has a timer, and `rt_timer_init` that it has none
    if w.submitting ≠ w.timer.isTimer then none
    else
      let w := if w.submitting then { w with timer := { w.timer with activated := false } }
        else { w with timer := ⟨true, false⟩, submitting := true }
      let s := (s.setWork work { w with workqueue := some queue }).insertLast (.delayedList queue) work
      some ({ s with starting := work :: s.starting }, .done)
  else some (s, .error)

/-- `rt_timer_start(&(work->timer));` at the end of `_workqueue_submit_work`. It asserts that it has a timer before its section,
and only with `RT_DEBUG`: that may be so no longer. -/
def startTimer (s : WorkqueueState) (work : Nat) : Option (WorkqueueState × WorkRet) :=
  if work ∈ s.starting then
    let s := s.setWork work { s.work work with timer := { (s.work work).timer with activated := true } }
    some ({ s with starting := s.starting.erase work }, .eok)
  else none

/-- `_workqueue_cancel_work` -/
def workqueueCancelWork (s : WorkqueueState) (queue work : Nat) : Option (WorkqueueState × WorkRet) :=
  let w := { s.work work with pending := false }
  let s := s.rtListRemove work
  if w.submitting ∧ w.timer.isTimer = false then none
  else
    let w := if w.submitting then { w with timer := ⟨false, false⟩, submitting := false } else w
    some (s.setWork work { w with workqueue := none }, if (s.queue queue).workCurrent = some work then .ebusy else .eok)

/-- `rt_workqueue_urgent_work` -/
def rtWorkqueueUrgentWork (s : WorkqueueState) (queue work : Nat) : WorkqueueState :=
  let s := s.rtListRemove work
  (s.setList (.workList queue) (work :: s.list (.workList queue))).resumeWorkThread queue

/-- Inserts the work into the queue, unless it is the current work of it. -/
def insertWorkQueue (s : WorkqueueState) (work queue : Nat) : WorkqueueState :=
  if (s.queue queue).workCurrent = some work then s
  else (s.insertLast (.workList queue) work).setWork work { s.work work with pending := true }

/-- The section of `_delayed_work_timeout_handler`, which detaches the timer. -/
def delayedWorkTimeoutHandler (s : WorkqueueState) (work queue : Nat) : Option WorkqueueState :=
  if (s.work work).timer.isTimer then
    let s := s.setWork work { s.work work with timer := ⟨false, false⟩, submitting := false }
    some { ((s.rtListRemove work).insertWorkQueue work queue).resumeWorkThread queue with timerThread := .idle }
  else none

/-- The section of `_workqueue_thread_entry`, and the call of the function of the work. -/
def workqueueThreadEntry (s : WorkqueueState) (queue : Nat) : WorkqueueState × WorkRet :=
  match s.list (.workList queue) with
  | [] => (s.setQueue queue { s.queue queue with threadSuspended := true }, .done)
  | work :: _ =>
    let s := s.rtListRemove work
    let s := s.setQueue queue { s.queue queue with workCurrent := some work, stage := .running work }
    (s.setWork work { s.work work with pending := false, workqueue := none }, .called work)

/-- `_workqueue_work_completion`: the value of the semaphore, and the callers that have taken it. -/
def workCompletion : Nat → List Nat → Nat × List Nat
  | value + 1, _ => (value, [])
  -- the semaphore is released, and taken again
  | 0, [] => (0, [])
  | 0, t :: ts => ((workCompletion 0 ts).1, t :: (workCompletion 0 ts).2)

/-- A caller of `rt_sem_take` goes on. -/
def SyncStage.wake : SyncStage → SyncStage
  | .waiting queue work => .woken queue work
  | stage => stage

def ackCompletion (s : WorkqueueState) (queue : Nat) : WorkqueueState :=
  let q := s.queue queue
  let (value, woken) := workCompletion q.semValue q.semSuspend
  { s.setQueue queue { q with
      semValue := value, semSuspend := q.semSuspend.drop woken.length, stage := .ready } with
    caller := fun t => if t ∈ woken then SyncStage.wake (s.caller t) else s.caller t }

/-- `rt_sem_take(&(queue->sem), RT_WAITING_FOREVER);` -/
def semTake (s : WorkqueueState) (t queue work : Nat) : WorkqueueState :=
  let q := s.queue queue
  if 0 < q.semValue then
    (s.setQueue queue { q with semValue := q.semValue - 1 }).setCaller t (.woken queue work)
  else (s.setQueue queue { q with semSuspend := q.semSuspend ++ [t] }).setCaller t (.waiting queue work)

def step (s : WorkqueueState) : WorkEv → Option (WorkqueueState × WorkRet)
  | .dowork queue work => s.workqueueSubmitWork queue work 0
  | .submit queue work ticks => if ticks < rtTickMax / 2 then s.workqueueSubmitWork queue work ticks else none
  | .startTimer work => s.startTimer work
  | .urgent queue work => some (s.rtWorkqueueUrgentWork queue work, .eok)
  | .cancel queue work => s.workqueueCancelWork queue work
  -- one turn of a loop of `rt_workqueue_cancel_all_work`
  | .cancelFirst l work =>
    if (s.list l).head? = some work then
      match l with
      | .workList queue | .delayedList queue => s.workqueueCancelWork queue work
    else none
  -- `rt_soft_timer_check`
  | .expire work =>
    if (s.work work).timer.activated ∧ s.timerThread = .idle then
      some ({ s.setWork work { s.work work with timer := { (s.work work).timer with activated := false } } with
        timerThread := .expired work }, .done)
    else none
  | .handlerRead =>
    match s.timerThread with
    | .expired work =>
      -- `RT_ASSERT(queue != RT_NULL)`
      match (s.work work).workqueue with
      | some queue => some ({ s with timerThread := .handling work queue }, .done)
      | none => none
    | _ => none
  | .handlerSection =>
    match s.timerThread with
    | .handling work queue => (s.delayedWorkTimeoutHandler work queue).map fun s => (s, .done)
    | _ => none
  | .take queue =>
    if (s.queue queue).stage = .ready ∧ (s.queue queue).threadSuspended = false then some (s.workqueueThreadEntry queue)
    else none
  -- the function has returned
  | .finish queue =>
    match (s.queue queue).stage with
    | .running _ => some (s.setQueue queue { s.queue queue with workCurrent := none, stage := .acking }, .done)
    | _ => none
  | .ack queue => if (s.queue queue).stage = .acking then some (s.ackCompletion queue, .done) else none
  -- `rt_workqueue_cancel_work_sync`
  | .syncTest t queue work =>
    if s.caller t = .idle then
      some (s.setCaller t (if (s.queue queue).workCurrent = some work then .taking queue work
        else .cancelling queue work), .done)
    else none
  | .syncCancel t work =>
    match s.caller t with
    | .cancelling queue w =>
      if w = work then (s.workqueueCancelWork queue work).map fun x => (x.1.setCaller t .idle, .eok) else none
    | _ => none
  | .syncTake t =>
    match s.caller t with
    | .taking queue work => some (s.semTake t queue work, .done)
    | _ => none
  | .syncReturn t =>
    match s.caller t with
    | .woken _ _ => some (s.setCaller t .idle, .eok)
    | _ => none

end WorkqueueState

end RtThread
