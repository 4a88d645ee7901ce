import RtThread.Kernel.Thread

/-!
# `ipc.c`: wait lists, semaphores, events, mailboxes and message queues

A function that can block is cut at its call of `rt_schedule`. The first part either returns (`some err`) or leaves
the frames the thread still has to run in its `cont` (`none`); the part after `rt_schedule` is the definition with
`Wake` in its name. Functions that end in `rt_schedule` give back `need_schedule` instead of calling it. A timeout is
an `rt_int32_t`, here the 32 bits of it.

The message queue functions leave the interrupt-disabled section to copy a message, between taking a buffer off one
list and putting it on the other; the copy and the second section are frames of the caller too.
-/

namespace RtThread

open Function (update)

namespace Kernel

/-! ## Wait lists -/

/-- `_ipc_list_suspend`. -/
def ipcListSuspend (k : Kernel) (h : ListHead) (t : ThreadId) (flag : IpcFlag) (suspendFlag : SuspendFlag) :
    Kernel × RtErr :=
  let r := if k.suspended t then (k, .eok) else k.rtThreadSuspendWithFlag t suspendFlag
  if r.2 ≠ .eok then r
  else
    let k := r.1
    match flag with
    | .fifo => ({ k with tlist := Links.insertBefore k.tlist h t }, .eok)
    | .prio => ({ k with tlist := Links.insertSorted k.prio k.tlist h t }, .eok)

/-- `_ipc_list_resume`; the callers check that the list is not empty. -/
def ipcListResume (k : Kernel) (h : ListHead) : Kernel :=
  match k.tlist h with
  | [] => k
  | t :: _ => ((k.setError t .eok).rtThreadResume t).1

/-- `_ipc_list_resume_all`, thread by thread from the front. -/
def ipcListResumeAll (k : Kernel) (h : ListHead) : Kernel :=
  (k.tlist h).foldl (fun k t => ((k.setError t .error).rtThreadResume t).1) k

/-! ## Semaphores -/

/-- `RT_SEM_VALUE_MAX`. -/
def semValueMax : Nat := 65535

/-- `_rt_sem_take`. -/
def rtSemTake (k : Kernel) (t : ThreadId) (s : SemId) (timeout : BitVec 32) (suspendFlag : SuspendFlag) :
    Kernel × Option RtErr :=
  let x := k.sem s
  if 0 < x.value then ({ k with sem := update k.sem s { x with value := x.value - 1 } }, some .eok)
  else if timeout = 0#32 then (k, some .etimeout)
  else
    let k := k.setError t .eintr
    let r := k.ipcListSuspend (.sem s) t x.flag suspendFlag
    if r.2 ≠ .eok then (r.1, some r.2)
    else
      let k := r.1
      let k := if 0 < timeout.toInt then k.threadTimerStart t else k
      (k.setCont t [.schedule, .semTake s], none)

/-- `rt_sem_release`. -/
def rtSemRelease (k : Kernel) (s : SemId) : Kernel × RtErr × Bool :=
  let x := k.sem s
  if k.tlist (.sem s) ≠ [] then (k.ipcListResume (.sem s), .eok, true)
  else if x.value < semValueMax then
    ({ k with sem := update k.sem s { x with value := x.value + 1 } }, .eok, false)
  else (k, .efull, false)

/-! ## Events -/

/-- `RT_EVENT_FLAG_AND`. -/
def eventFlagAnd : BitVec 8 := 0x01#8
/-- `RT_EVENT_FLAG_OR`. -/
def eventFlagOr : BitVec 8 := 0x02#8
/-- `RT_EVENT_FLAG_CLEAR`. -/
def eventFlagClear : BitVec 8 := 0x04#8

/-- The resumption of a waiter in `rt_event_send`, with the bits it asked to clear. -/
def eventResume (k : Kernel) (e : EventId) (t : ThreadId) : Kernel :=
  let x := k.event e
  let k :=
    if (k.thread t).eventInfo &&& eventFlagClear ≠ 0#8 then
      { k with event := update k.event e { x with set := x.set &&& ~~~(k.thread t).eventSet } }
    else k
  (k.rtThreadResume t).1.setError t .eok

/-- The loop of `rt_event_send` over the waiters; `none` is the return with `-RT_EINVAL` in the middle of it. -/
def eventSendLoop (e : EventId) : List ThreadId → Kernel → Bool → Kernel × Option Bool
  | [], k, needSchedule => (k, some needSchedule)
  | t :: ts, k, needSchedule =>
    let x := k.thread t
    let set := (k.event e).set
    if x.eventInfo &&& eventFlagAnd ≠ 0#8 then
      if x.eventSet &&& set = x.eventSet then eventSendLoop e ts (k.eventResume e t) true
      else eventSendLoop e ts k needSchedule
    else if x.eventInfo &&& eventFlagOr ≠ 0#8 then
      if x.eventSet &&& set ≠ 0#32 then
        eventSendLoop e ts ((k.modThread t fun x => { x with eventSet := x.eventSet &&& set }).eventResume e t) true
      else eventSendLoop e ts k needSchedule
    else (k, none)

/-- `rt_event_send`. -/
def rtEventSend (k : Kernel) (e : EventId) (set : BitVec 32) : Kernel × RtErr × Bool :=
  if set = 0#32 then (k, .error, false)
  else
    let k := { k with event := update k.event e { k.event e with set := (k.event e).set ||| set } }
    match eventSendLoop e (k.tlist (.event e)) k false with
    | (k, some needSchedule) => (k, .eok, needSchedule)
    | (k, none) => (k, .einval, false)

/-- `_rt_event_recv`. `*recved` is the thread's `event_set` whenever the call succeeds. -/
def rtEventRecv (k : Kernel) (t : ThreadId) (e : EventId) (set : BitVec 32) (option : BitVec 8) (timeout : BitVec 32)
    (suspendFlag : SuspendFlag) : Option (Kernel × Option RtErr) :=
  if set = 0#32 then some (k, some .error)
  else if option &&& eventFlagAnd = 0#8 ∧ option &&& eventFlagOr = 0#8 then none
  else
    let k := k.setError t .eintr
    let x := k.event e
    let received :=
      if option &&& eventFlagAnd ≠ 0#8 then decide (x.set &&& set = set) else decide (x.set &&& set ≠ 0#32)
    if received then
      let k := k.setError t .eok
      let k := k.modThread t fun y => { y with eventSet := x.set &&& set, eventInfo := option }
      if option &&& eventFlagClear ≠ 0#8 then
        some ({ k with event := update k.event e { x with set := x.set &&& ~~~set } }, some .eok)
      else some (k, some .eok)
    else if timeout = 0#32 then some (k.setError t .etimeout, some .etimeout)
    else
      let k := k.modThread t fun y => { y with eventSet := set, eventInfo := option }
      let r := k.ipcListSuspend (.event e) t x.flag suspendFlag
      if r.2 ≠ .eok then some (r.1, some r.2)
      else
        let k := r.1
        let k := if 0 < timeout.toInt then k.threadTimerStart t else k
        some (k.setCont t [.schedule, .eventRecv e], none)

/-! ## Mailboxes -/

/-- `RT_MB_ENTRY_MAX`. -/
def mbEntryMax : Nat := 65535

/-- The mailbox after `rt_mb_init` or `rt_mb_create`. -/
def rtMbInit (flag : IpcFlag) (msgPool : Nat → BitVec 64) (size : Nat) : Mailbox :=
  { flag := flag, msgPool := msgPool, size := size, entry := 0, inOffset := 0, outOffset := 0 }

/-- `timeout` recomputed after `rt_schedule` in the loops of mailboxes and message queues. -/
def mbTimeout (k : Kernel) (timeout tickDelta : BitVec 32) : BitVec 32 :=
  if 0 < timeout.toInt then
    let timeout := timeout - (k.tick - tickDelta)
    if timeout.toInt < 0 then 0#32 else timeout
  else timeout

/-- `_rt_mb_send_wait` from the test of its loop on. -/
def mbSendWaitLoop (k : Kernel) (t : ThreadId) (b : MailboxId) (value : BitVec 64) (timeout tickDelta : BitVec 32)
    (suspendFlag : SuspendFlag) : Kernel × Option RtErr × Bool :=
  let x := k.mailbox b
  if x.entry = x.size then
    let k := k.setError t .eintr
    if timeout = 0#32 then (k, some .efull, false)
    else
      let r := k.ipcListSuspend (.mbSend b) t x.flag suspendFlag
      if r.2 ≠ .eok then (r.1, some r.2, false)
      else
        let k := r.1
        let tickDelta := if 0 < timeout.toInt then k.tick else tickDelta
        let k := if 0 < timeout.toInt then k.threadTimerStart t else k
        (k.setCont t [.schedule, .mbSendWait b value timeout tickDelta suspendFlag], none, false)
  else
    let x := { x with
      msgPool := update x.msgPool x.inOffset value
      inOffset := if x.size ≤ x.inOffset + 1 then 0 else x.inOffset + 1 }
    if x.entry < mbEntryMax then
      let k := { k with mailbox := update k.mailbox b { x with entry := x.entry + 1 } }
      if k.tlist (.mbRecv b) ≠ [] then (k.ipcListResume (.mbRecv b), some .eok, true) else (k, some .eok, false)
    else ({ k with mailbox := update k.mailbox b x }, some .efull, false)

/-- `_rt_mb_send_wait`. -/
def rtMbSendWait (k : Kernel) (t : ThreadId) (b : MailboxId) (value : BitVec 64) (timeout : BitVec 32)
    (suspendFlag : SuspendFlag) : Kernel × Option RtErr × Bool :=
  if (k.mailbox b).entry = (k.mailbox b).size ∧ timeout = 0#32 then (k, some .efull, false)
  else k.mbSendWaitLoop t b value timeout 0#32 suspendFlag

/-- `_rt_mb_send_wait` after `rt_schedule`. -/
def rtMbSendWaitWake (k : Kernel) (t : ThreadId) (b : MailboxId) (value : BitVec 64) (timeout tickDelta : BitVec 32)
    (suspendFlag : SuspendFlag) : Kernel × Option RtErr × Bool :=
  if (k.thread t).error ≠ .eok then (k, some (k.thread t).error, false)
  else k.mbSendWaitLoop t b value (k.mbTimeout timeout tickDelta) (k.tick - tickDelta) suspendFlag

/-- `rt_mb_urgent`. -/
def rtMbUrgent (k : Kernel) (b : MailboxId) (value : BitVec 64) : Kernel × RtErr × Bool :=
  let x := k.mailbox b
  if x.entry = x.size then (k, .efull, false)
  else
    let outOffset := if 0 < x.outOffset then x.outOffset - 1 else x.size - 1
    let x := { x with
      outOffset := outOffset
      msgPool := update x.msgPool outOffset value
      entry := x.entry + 1 }
    let k := { k with mailbox := update k.mailbox b x }
    if k.tlist (.mbRecv b) ≠ [] then (k.ipcListResume (.mbRecv b), .eok, true) else (k, .eok, false)

/-- `_rt_mb_recv` from the test of its loop on; a mail received is in the second component. -/
def mbRecvLoop (k : Kernel) (t : ThreadId) (b : MailboxId) (timeout tickDelta : BitVec 32)
    (suspendFlag : SuspendFlag) : Kernel × Option (RtErr × BitVec 64) × Bool :=
  let x := k.mailbox b
  if x.entry = 0 then
    let k := k.setError t .eintr
    if timeout = 0#32 then (k.setError t .etimeout, some (.etimeout, 0#64), false)
    else
      let r := k.ipcListSuspend (.mbRecv b) t x.flag suspendFlag
      if r.2 ≠ .eok then (r.1, some (r.2, 0#64), false)
      else
        let k := r.1
        let tickDelta := if 0 < timeout.toInt then k.tick else tickDelta
        let k := if 0 < timeout.toInt then k.threadTimerStart t else k
        (k.setCont t [.schedule, .mbRecv b timeout tickDelta suspendFlag], none, false)
  else
    let value := x.msgPool x.outOffset
    let x := { x with
      outOffset := if x.size ≤ x.outOffset + 1 then 0 else x.outOffset + 1
      entry := x.entry - 1 }
    let k := { k with mailbox := update k.mailbox b x }
    if k.tlist (.mbSend b) ≠ [] then (k.ipcListResume (.mbSend b), some (.eok, value), true)
    else (k, some (.eok, value), false)

/-- `_rt_mb_recv`. -/
def rtMbRecv (k : Kernel) (t : ThreadId) (b : MailboxId) (timeout : BitVec 32) (suspendFlag : SuspendFlag) :
    Kernel × Option (RtErr × BitVec 64) × Bool :=
  if (k.mailbox b).entry = 0 ∧ timeout = 0#32 then (k, some (.etimeout, 0#64), false)
  else k.mbRecvLoop t b timeout 0#32 suspendFlag

/-- `_rt_mb_recv` after `rt_schedule`. -/
def rtMbRecvWake (k : Kernel) (t : ThreadId) (b : MailboxId) (timeout tickDelta : BitVec 32)
    (suspendFlag : SuspendFlag) : Kernel × Option (RtErr × BitVec 64) × Bool :=
  if (k.thread t).error ≠ .eok then (k, some ((k.thread t).error, 0#64), false)
  else k.mbRecvLoop t b (k.mbTimeout timeout tickDelta) (k.tick - tickDelta) suspendFlag

/-! ## Message queues -/

/-- `RT_MQ_ENTRY_MAX`. -/
def mqEntryMax : Nat := 65535

/-- The message queue after `rt_mq_init` or `rt_mq_create`; the loop puts one buffer after the other on the free list. -/
def rtMqInit (flag : IpcFlag) (msgSize maxMsgs : Nat) : MessageQueue :=
  (List.range maxMsgs).foldl
    (fun q temp => { q with next := update q.next temp q.msgQueueFree, msgQueueFree := some temp })
    { flag := flag
      msgSize := msgSize
      maxMsgs := maxMsgs
      entry := 0
      msgQueueHead := none
      msgQueueTail := none
      msgQueueFree := none
      next := fun _ => none
      content := fun _ _ => 0#8 }

/-- The buffer `msg` goes off the free list; what is left is the copy. -/
def mqTake (k : Kernel) (c : Context) (q : MqId) (msg : Nat) (buffer : List (BitVec 8)) (urgent : Bool) : Kernel :=
  (k.modMq q fun x => { x with msgQueueFree := x.next msg }).setFrames c [.mqCopyIn q msg buffer urgent]

/-- `_rt_mq_send_wait` from the test of its loop on, up to the copy. -/
def mqSendWaitLoop (k : Kernel) (t : ThreadId) (q : MqId) (buffer : List (BitVec 8)) (timeout tickDelta : BitVec 32)
    (suspendFlag : SuspendFlag) : Kernel × Option RtErr :=
  match (k.mq q).msgQueueFree with
  | none =>
    let k := k.setError t .eintr
    if timeout = 0#32 then (k, some .efull)
    else
      let r := k.ipcListSuspend (.mqSend q) t (k.mq q).flag suspendFlag
      if r.2 ≠ .eok then (r.1, some r.2)
      else
        let k := r.1
        let tickDelta := if 0 < timeout.toInt then k.tick else tickDelta
        let k := if 0 < timeout.toInt then k.threadTimerStart t else k
        (k.setCont t [.schedule, .mqSendWait q buffer timeout tickDelta suspendFlag], none)
  | some msg => (k.mqTake (.thread t) q msg buffer false, none)

/-- `_rt_mq_send_wait`, up to the copy. -/
def rtMqSendWait (k : Kernel) (t : ThreadId) (q : MqId) (buffer : List (BitVec 8)) (timeout : BitVec 32)
    (suspendFlag : SuspendFlag) : Kernel × Option RtErr :=
  if (k.mq q).msgSize < buffer.length then (k, some .error)
  else if (k.mq q).msgQueueFree = none ∧ timeout = 0#32 then (k, some .efull)
  else k.mqSendWaitLoop t q buffer timeout 0#32 suspendFlag

/-- `_rt_mq_send_wait` after `rt_schedule`. -/
def rtMqSendWaitWake (k : Kernel) (t : ThreadId) (q : MqId) (buffer : List (BitVec 8)) (timeout tickDelta : BitVec 32)
    (suspendFlag : SuspendFlag) : Kernel × Option RtErr :=
  if (k.thread t).error ≠ .eok then (k, some (k.thread t).error)
  else k.mqSendWaitLoop t q buffer (k.mbTimeout timeout tickDelta) (k.tick - tickDelta) suspendFlag

/-- `rt_mq_urgent`, and `rt_mq_send` from an interrupt handler (which cannot wait), up to the copy. -/
def rtMqUrgent (k : Kernel) (c : Context) (q : MqId) (buffer : List (BitVec 8)) (urgent : Bool) :
    Kernel × Option RtErr :=
  if (k.mq q).msgSize < buffer.length then (k, some .error)
  else
    match (k.mq q).msgQueueFree with
    | none => (k, some .efull)
    | some msg => (k.mqTake c q msg buffer urgent, none)

/-- The copy of a message to its buffer; `_rt_mq_send_wait` also writes the link. -/
def mqCopyIn (k : Kernel) (q : MqId) (msg : Nat) (buffer : List (BitVec 8)) (urgent : Bool) : Kernel :=
  k.modMq q fun x => { x with
    next := if urgent then x.next else update x.next msg none
    content := update x.content msg fun i => (buffer[i]?).getD (x.content msg i) }

/-- The links of `_rt_mq_send_wait` (at the end) and of `rt_mq_urgent` (at the front). -/
def mqLinkMsg (x : MessageQueue) (msg : Nat) (urgent : Bool) : MessageQueue :=
  if urgent then
    { x with
      next := update x.next msg x.msgQueueHead
      msgQueueHead := some msg
      msgQueueTail := x.msgQueueTail.or (some msg) }
  else
    { x with
      next :=
        match x.msgQueueTail with
        | none => x.next
        | some tail => update x.next tail (some msg)
      msgQueueTail := some msg
      msgQueueHead := x.msgQueueHead.or (some msg) }

/-- The second section of `_rt_mq_send_wait` and of `rt_mq_urgent`. -/
def mqLink (k : Kernel) (q : MqId) (msg : Nat) (urgent : Bool) : Kernel × RtErr × Bool :=
  let k := k.modMq q fun x => mqLinkMsg x msg urgent
  if (k.mq q).entry < mqEntryMax then
    let k := k.modMq q fun x => { x with entry := x.entry + 1 }
    if k.tlist (.mqRecv q) ≠ [] then (k.ipcListResume (.mqRecv q), .eok, true) else (k, .eok, false)
  else (k, .efull, false)

/-- The first message goes off the queue; what is left is the copy. -/
def mqDetach (k : Kernel) (c : Context) (q : MqId) (msg size : Nat) : Kernel :=
  (k.modMq q fun x => { x with
    msgQueueHead := x.next msg
    msgQueueTail := if x.msgQueueTail = some msg then none else x.msgQueueTail
    entry := x.entry - 1 }).setFrames c [.mqCopyOut q msg size]

/-- What a section of `_rt_mq_recv` ends with: the caller waits, it has a message to copy, or the call returns. -/
inductive MqRecvEnd
  | blocked | detached
  | failed (err : RtErr)
  deriving DecidableEq, Repr

/-- `_rt_mq_recv` from the test of its loop on, up to the copy; `none` is a null head that is dereferenced. -/
def mqRecvLoop (k : Kernel) (t : ThreadId) (q : MqId) (size : Nat) (timeout tickDelta : BitVec 32)
    (suspendFlag : SuspendFlag) : Option (Kernel × MqRecvEnd) :=
  if (k.mq q).entry = 0 then
    let k := k.setError t .eintr
    if timeout = 0#32 then some (k.setError t .etimeout, .failed .etimeout)
    else
      let r := k.ipcListSuspend (.mqRecv q) t (k.mq q).flag suspendFlag
      if r.2 ≠ .eok then some (r.1, .failed r.2)
      else
        let k := r.1
        let tickDelta := if 0 < timeout.toInt then k.tick else tickDelta
        let k := if 0 < timeout.toInt then k.threadTimerStart t else k
        some (k.setCont t [.schedule, .mqRecv q size timeout tickDelta suspendFlag], .blocked)
  else (k.mq q).msgQueueHead.map fun msg => (k.mqDetach (.thread t) q msg size, .detached)

/-- `_rt_mq_recv`, up to the copy. -/
def rtMqRecv (k : Kernel) (t : ThreadId) (q : MqId) (size : Nat) (timeout : BitVec 32) (suspendFlag : SuspendFlag) :
    Option (Kernel × MqRecvEnd) :=
  if (k.mq q).entry = 0 ∧ timeout = 0#32 then some (k, .failed .etimeout)
  else k.mqRecvLoop t q size timeout 0#32 suspendFlag

/-- `_rt_mq_recv` after `rt_schedule`. -/
def rtMqRecvWake (k : Kernel) (t : ThreadId) (q : MqId) (size : Nat) (timeout tickDelta : BitVec 32)
    (suspendFlag : SuspendFlag) : Option (Kernel × MqRecvEnd) :=
  if (k.thread t).error ≠ .eok then some (k, .failed (k.thread t).error)
  else k.mqRecvLoop t q size (k.mbTimeout timeout tickDelta) (k.tick - tickDelta) suspendFlag

/-- `rt_mq_recv` from an interrupt handler, which cannot wait, up to the copy. -/
def rtMqRecvIsr (k : Kernel) (i : IsrId) (q : MqId) (size : Nat) : Option (Kernel × MqRecvEnd) :=
  if (k.mq q).entry = 0 then some (k, .failed .etimeout)
  else (k.mq q).msgQueueHead.map fun msg => (k.mqDetach (.isr i) q msg size, .detached)

/-- The bytes `_rt_mq_recv` copies to the caller. -/
def mqBytes (x : MessageQueue) (msg size : Nat) : List (BitVec 8) :=
  (List.range (if x.msgSize < size then x.msgSize else size)).map (x.content msg)

/-- The second section of `_rt_mq_recv`. -/
def mqFree (k : Kernel) (q : MqId) (msg : Nat) : Kernel × Bool :=
  let k := k.modMq q fun x => { x with next := update x.next msg x.msgQueueFree, msgQueueFree := some msg }
  if k.tlist (.mqSend q) ≠ [] then (k.ipcListResume (.mqSend q), true) else (k, false)

/-- The loop of `rt_mq_control` that releases all messages; `fuel` bounds the length of the queue. -/
def mqReleaseAll : Nat → MessageQueue → Option MessageQueue
  | fuel, x =>
    match x.msgQueueHead with
    | none => some x
    | some msg =>
      match fuel with
      | 0 => none
      | fuel + 1 => mqReleaseAll fuel { x with
          msgQueueHead := x.next msg
          msgQueueTail := if x.msgQueueTail = some msg then none else x.msgQueueTail
          next := update x.next msg x.msgQueueFree
          msgQueueFree := some msg }

/-- `rt_mq_control` with `RT_IPC_CMD_RESET`, up to its call of `rt_schedule`. -/
def rtMqControlReset (fuel : Nat) (k : Kernel) (q : MqId) : Option Kernel :=
  let k := k.ipcListResumeAll (.mqRecv q)
  let k := k.ipcListResumeAll (.mqSend q)
  (mqReleaseAll fuel (k.mq q)).map fun x => k.modMq q fun _ => { x with entry := 0 }

end Kernel

end RtThread
