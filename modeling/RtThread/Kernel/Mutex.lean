import RtThread.Kernel.Ipc

/-!
# `ipc.c`: mutexes with priority inheritance, and thread deletion

`_thread_update_priority` calls itself along the chain of owners; it is given fuel, and a run of the kernel may use
any amount of it. `none` is a chain longer than the fuel, a null owner that the code dereferences, or a mutex object
that was freed.
-/

namespace RtThread

namespace Kernel

/-- `RT_MUTEX_HOLD_MAX`. -/
def mutexHoldMax : Nat := 255

/-- The priority of the first waiter, `0xff` if there is none. -/
def firstWaiterPriority (k : Kernel) (m : MutexId) : Nat :=
  match k.tlist (.mutex m) with
  | [] => 0xff
  | t :: _ => k.prio t

/-- `_mutex_update_priority`. -/
def mutexUpdatePriority (k : Kernel) (m : MutexId) : Kernel :=
  k.modMutex m fun x => { x with priority := k.firstWaiterPriority m }

/-- `_thread_get_mutex_priority`. -/
def threadGetMutexPriority (k : Kernel) (t : ThreadId) : Nat :=
  (k.takenObjectList t).foldl (fun priority m => min priority (min (k.mutex m).priority (k.mutex m).ceilingPriority))
    (k.thread t).initPriority

/-- `_thread_update_priority`. -/
def threadUpdatePriority : Nat → Kernel → ThreadId → Nat → SuspendFlag → Option Kernel
  | 0, _, _, _, _ => none
  | fuel + 1, k, t, priority, suspendFlag =>
    let k := k.rtThreadControlChangePriority t priority
    if k.suspended t then
      match (k.thread t).pendingObject with
      | none => some k
      | some m =>
        match (k.mutex m).object with
        | .freed => none
        | .detached => some k
        | .attached =>
          let k := { k with tlist := Links.remove k.tlist t }
          let r := k.ipcListSuspend (.mutex m) t .prio suspendFlag
          if r.2 ≠ .eok then some r.1
          else
            let k := r.1.mutexUpdatePriority m
            match (k.mutex m).owner with
            | none => none
            | some o =>
              let mutexPriority := k.threadGetMutexPriority o
              if mutexPriority ≠ k.prio o then threadUpdatePriority fuel k o mutexPriority suspendFlag else some k
    else some k

/-- What the code does after a waiter has left the list of `m` without getting it: refresh the priority of the mutex,
and recompute that of its owner if the owner had the priority of the waiter. -/
def waiterLeft (fuel : Nat) (k : Kernel) (m : MutexId) (t : ThreadId) : Option Kernel :=
  match (k.mutex m).owner with
  | none => none
  | some o =>
    let needUpdate := k.prio o = k.prio t
    let k := k.mutexUpdatePriority m
    if needUpdate then
      let priority := k.threadGetMutexPriority o
      if priority ≠ k.prio o then threadUpdatePriority fuel k o priority .uninterruptible else some k
    else some k

/-- `rt_mutex_drop_thread`. -/
def rtMutexDropThread (fuel : Nat) (k : Kernel) (m : MutexId) (t : ThreadId) : Option Kernel :=
  waiterLeft fuel { k with tlist := Links.remove k.tlist t } m t

/-- `rt_mutex_setprioceiling`; the old ceiling is returned. -/
def rtMutexSetprioceiling (fuel : Nat) (k : Kernel) (m : MutexId) (priority : Nat) : Option (Kernel × Nat) :=
  if priority < k.priorityMax then
    let old := (k.mutex m).ceilingPriority
    let k := k.modMutex m fun x => { x with ceilingPriority := priority }
    match (k.mutex m).owner with
    | none => some (k, old)
    | some o =>
      let priority := k.threadGetMutexPriority o
      if priority ≠ k.prio o then
        (threadUpdatePriority fuel k o priority .uninterruptible).map fun k => (k, old)
      else some (k, old)
  else some (k, 0xff)

/-- `rt_mutex_detach` (`.detached`) and `rt_mutex_delete` (`.freed`). -/
def rtMutexDetach (k : Kernel) (m : MutexId) (object : ObjectState) : Kernel :=
  let k := k.ipcListResumeAll (.mutex m)
  let k := { k with takenObjectList := Links.remove k.takenObjectList m }
  k.modMutex m fun x => { x with object := object }

/-- `_rt_mutex_take`. -/
def rtMutexTake (fuel : Nat) (k : Kernel) (t : ThreadId) (m : MutexId) (timeout : BitVec 32)
    (suspendFlag : SuspendFlag) : Option (Kernel × Option RtErr) :=
  let k := k.setError t .eok
  if (k.mutex m).owner = some t then
    if (k.mutex m).hold < mutexHoldMax then
      some (k.modMutex m fun x => { x with hold := x.hold + 1 }, some .eok)
    else some (k, some .efull)
  else
    match (k.mutex m).owner with
    | none =>
      let k := k.modMutex m fun x => { x with owner := some t, priority := 0xff, hold := 1 }
      let ceiling := (k.mutex m).ceilingPriority
      let raised :=
        if ceiling ≠ 0xff ∧ ceiling < k.prio t then threadUpdatePriority fuel k t ceiling suspendFlag else some k
      raised.map fun k => ({ k with takenObjectList := Links.insertAfter k.takenObjectList t m }, some .eok)
    | some o =>
      if timeout = 0#32 then some (k.setError t .etimeout, some .etimeout)
      else
        let priority := k.prio t
        let r := k.ipcListSuspend (.mutex m) t .prio suspendFlag
        if r.2 ≠ .eok then some (r.1, some r.2)
        else
          let k := r.1.modThread t fun x => { x with pendingObject := some m }
          let inherited :=
            if priority < (k.mutex m).priority then
              let k := k.modMutex m fun x => { x with priority := priority }
              if priority < k.prio o then threadUpdatePriority fuel k o priority .uninterruptible else some k
            else some k
          inherited.map fun k =>
            let k := if 0 < timeout.toInt then k.threadTimerStart t else k
            (k.setCont t [.schedule, .mutexTake m], none)

/-- `_rt_mutex_take` after `rt_schedule`. -/
def rtMutexTakeWake (fuel : Nat) (k : Kernel) (t : ThreadId) (m : MutexId) : Option (Kernel × RtErr) :=
  if (k.thread t).error = .eok then some (k, .eok)
  else if (k.mutex m).object = .freed then none
  else (waiterLeft fuel k m t).map fun k => (k, (k.thread t).error)

/-- The wakeup of the first waiter `n` in `rt_mutex_release`, who gets the mutex. -/
def mutexHandOver (k : Kernel) (m : MutexId) (n : ThreadId) : Kernel :=
  let k := { k with tlist := Links.remove k.tlist n }
  let k := k.modMutex m fun x => { x with owner := some n, hold := 1 }
  let k := { k with takenObjectList := Links.insertAfter k.takenObjectList n m }
  let k := k.modThread n fun x => { x with pendingObject := none }
  let k := (k.rtThreadResume n).1
  k.mutexUpdatePriority m

/-- `rt_mutex_release` once `hold` has come down to `0`. -/
def mutexReleaseLast (k : Kernel) (t : ThreadId) (m : MutexId) : Kernel × Bool :=
  let k := { k with takenObjectList := Links.remove k.takenObjectList m }
  let change := decide ((k.mutex m).ceilingPriority ≠ 0xff ∨ k.prio t = (k.mutex m).priority)
  let k := if change then k.rtThreadControlChangePriority t (k.threadGetMutexPriority t) else k
  match k.tlist (.mutex m) with
  | n :: _ => (k.mutexHandOver m n, true)
  | [] => (k.modMutex m fun x => { x with owner := none, priority := 0xff }, change)

/-- `rt_mutex_release`. -/
def rtMutexRelease (k : Kernel) (t : ThreadId) (m : MutexId) : Kernel × RtErr × Bool :=
  if (k.mutex m).owner ≠ some t then (k.setError t .error, .error, false)
  else
    let k := k.modMutex m fun x => { x with hold := (x.hold + 255) % 256 }
    if (k.mutex m).hold = 0 then
      let r := k.mutexReleaseLast t m
      (r.1, .eok, r.2)
    else (k, .eok, false)

/-- `rt_thread_delete` up to `stat = RT_THREAD_CLOSE`. -/
def threadClose (k : Kernel) (t : ThreadId) : Kernel :=
  let k := if (k.thread t).stat ≠ .init then k.rtScheduleRemoveThread t else k
  let k := k.threadTimerStop t
  k.modThread t fun x => { x with stat := .close, statYield := false }

/-- `rt_thread_delete`, the part about `pending_object`. -/
def dropPendingObject (fuel : Nat) (k : Kernel) (t : ThreadId) : Option Kernel :=
  match (k.thread t).pendingObject with
  | none => some k
  | some m =>
    match (k.mutex m).object with
    | .freed => none
    | .detached => some k
    | .attached => (rtMutexDropThread fuel k m t).map fun k => k.modThread t fun x => { x with pendingObject := none }

/-- `rt_thread_delete` and `rt_thread_detach`. -/
def rtThreadDelete (fuel : Nat) (k : Kernel) (t : ThreadId) : Option Kernel :=
  if (k.thread t).stat = .close then some k
  else (dropPendingObject fuel (k.threadClose t) t).map fun k => k.rtThreadDefunctEnqueue t

end Kernel

end RtThread
