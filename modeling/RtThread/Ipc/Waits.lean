import RtThread.Kernel.Ipc
import RtThread.Kernel.Step
import RtThread.Mutex.Protocol

/-!
# Waiting for IPC objects

What the semaphores, events, mailboxes and message queues see of the kernel: the calls the threads and the interrupt
handlers are in, the wait lists and the objects. The scheduler and the mutexes are left out.

- `Waits`: the state, and the writes to it.
- `Waiting`: who is in a wait list is in a call that waits there, and has not been woken.
- `Step`: one constructor for each way a section of `ipc.c` can end (`SemStep`, `EventStep`, `MailboxStep`, `MqStep`);
  what everything else in the kernel does is `Quiet`. Every step keeps `Waiting`, and steps on one object are nothing to
  the others (`Apart`).
-/

namespace RtThread

open Function (update update_of_ne update_self)

/-- The IPC objects other than mutexes. -/
inductive Obj
  | sem (s : SemId)
  | event (e : EventId)
  | mailbox (b : MailboxId)
  | mq (q : MqId)
  deriving DecidableEq

/-- The object a wait list belongs to. -/
def ListHead.obj : ListHead → Option Obj
  | .sem s => some (.sem s)
  | .event e => some (.event e)
  | .mbRecv b | .mbSend b => some (.mailbox b)
  | .mqRecv q | .mqSend q => some (.mq q)
  | .ready _ | .defunct | .mutex _ => none

/-- The wait lists of the calls that loop: who is woken there looks again. -/
def ListHead.retries : ListHead → Bool
  | .mbRecv _ | .mbSend _ | .mqRecv _ | .mqSend _ => true
  | _ => false

/-- The object a frame is about. -/
def Frame.obj : Frame → Option Obj
  | .semTake s => some (.sem s)
  | .eventRecv e => some (.event e)
  | .mbSendWait b _ _ _ _ | .mbRecv b _ _ _ => some (.mailbox b)
  | .mqSendWait q _ _ _ _ | .mqCopyIn q _ _ _ | .mqLink q _ _ _ | .mqRecv q _ _ _ _ | .mqCopyOut q _ _
  | .mqFree q _ _ => some (.mq q)
  | .schedule | .mutexTake _ | .sleep => none

/-- The wait list a frame waits in. -/
def Frame.head : Frame → Option ListHead
  | .semTake s => some (.sem s)
  | .eventRecv e => some (.event e)
  | .mbSendWait b _ _ _ _ => some (.mbSend b)
  | .mbRecv b _ _ _ => some (.mbRecv b)
  | .mqSendWait q _ _ _ _ => some (.mqSend q)
  | .mqRecv q _ _ _ _ => some (.mqRecv q)
  | _ => none

theorem Frame.obj_of_head {f : Frame} {h : ListHead} (hf : f.head = some h) : f.obj = h.obj := by
  cases f <;> simp_all [Frame.head, Frame.obj] <;> subst hf <;> rfl

theorem Frame.isSome_obj {f : Frame} {h : ListHead} (hf : f.head = some h) : f.obj.isSome := by
  cases f <;> first | rfl | cases hf

/-- The semaphores, events, mailboxes and message queues. -/
structure Objects where
  sem : SemId → Semaphore
  event : EventId → Event
  mailbox : MailboxId → Mailbox
  mq : MqId → MessageQueue

/-- An object is the same in both. -/
def Objects.SameAt (x y : Objects) : Obj → Prop
  | .sem s => y.sem s = x.sem s
  | .event e => y.event e = x.event e
  | .mailbox b => y.mailbox b = x.mailbox b
  | .mq q => y.mq q = x.mq q

/-- A thread, as far as IPC objects see it; `calls` are its frames but those of `rt_schedule`. -/
structure Waiter where
  phase : Phase
  error : RtErr
  calls : List Frame
  eventSet : BitVec 32
  eventInfo : BitVec 8

/-- The calls, the wait lists and the objects. -/
structure Waits where
  waiter : ThreadId → Waiter
  isr : IsrId → List Frame
  list : ListHead → List ThreadId
  objects : Objects

namespace Waits

/-! ## Writes -/

/-- The calls a thread or an interrupt handler is in. -/
def calls (s : Waits) : Context → List Frame
  | .thread t => (s.waiter t).calls
  | .isr i => s.isr i

def modWaiter (s : Waits) (t : ThreadId) (f : Waiter → Waiter) : Waits :=
  { s with waiter := update s.waiter t (f (s.waiter t)) }

def setCalls (s : Waits) (c : Context) (fs : List Frame) : Waits :=
  match c with
  | .thread t => s.modWaiter t fun x => { x with calls := fs }
  | .isr i => { s with isr := update s.isr i fs }

/-- Take a thread out of the wait list it is in. -/
def unlink (s : Waits) (t : ThreadId) : Waits := { s with list := Links.remove s.list t }

/-- A thread leaves its wait list and runs on, with an error code. -/
def wake (s : Waits) (t : ThreadId) (e : RtErr) : Waits :=
  (s.unlink t).modWaiter t fun x => { x with phase := .active, error := e }

/-- `_ipc_list_resume`, if there is a thread to resume. -/
def wakeFirst (s : Waits) (h : ListHead) : Waits :=
  match s.list h with
  | [] => s
  | t :: _ => s.wake t .eok

/-- `_ipc_list_resume_all`. -/
def wakeAll (s : Waits) (h : ListHead) : Waits := (s.list h).foldl (fun s t => s.wake t .error) s

/-- A thread suspends itself in a wait list, which is `xs` then. -/
def block (s : Waits) (t : ThreadId) (h : ListHead) (x : Waiter) (xs : List ThreadId) : Waits :=
  { s.modWaiter t fun _ => x with list := update s.list h xs }

def setSem (s : Waits) (i : SemId) (x : Semaphore) : Waits :=
  { s with objects := { s.objects with sem := update s.objects.sem i x } }

def setEvent (s : Waits) (i : EventId) (x : Event) : Waits :=
  { s with objects := { s.objects with event := update s.objects.event i x } }

def setMailbox (s : Waits) (i : MailboxId) (x : Mailbox) : Waits :=
  { s with objects := { s.objects with mailbox := update s.objects.mailbox i x } }

def setMq (s : Waits) (i : MqId) (x : MessageQueue) : Waits :=
  { s with objects := { s.objects with mq := update s.objects.mq i x } }

/-- The caller goes on with the object of `h`: it is in no call, or was woken in `h` and looks again. -/
def Enters (s : Waits) (c : Context) (h : ListHead) : Prop :=
  s.calls c = [] ∨ h.retries ∧
    ∃ t f, c = .thread t ∧ (s.waiter t).calls = [f] ∧ f.head = some h ∧ (s.waiter t).error = .eok

end Waits

/-! ## Steps -/

/-- The call did what it is for, or a part of it. -/
def Ret.acts : Ret → Bool
  | .mutexTake _ _ _ | .mutexRelease _ _ _ => false
  | .eventSend _ e => e ≠ .error
  | .semTake _ _ e | .semRelease _ e | .eventRecv _ _ e _ | .mbSendWait _ _ _ e | .mbUrgent _ _ e | .mbRecv _ _ e _
  | .mqSend _ _ _ _ e | .mqRecv _ _ e _ => e = .eok
  | .mqDetach _ _ | .mqReset _ => true

/-- The object a call is about. -/
@[simp] def Ret.obj : Ret → Option Obj
  | .semTake _ i _ | .semRelease i _ => some (.sem i)
  | .eventRecv _ i _ _ | .eventSend i _ => some (.event i)
  | .mbSendWait _ i _ _ | .mbUrgent i _ _ | .mbRecv _ i _ _ => some (.mailbox i)
  | .mqSend _ i _ _ _ | .mqDetach _ i | .mqRecv _ i _ _ | .mqReset i => some (.mq i)
  | .mutexTake _ _ _ | .mutexRelease _ _ _ => none

/-- Who comes back from an IPC call that can wait. -/
def Ret.caller : Ret → Option Context
  | .semTake t _ _ | .eventRecv t _ _ _ | .mbSendWait t _ _ _ | .mbRecv t _ _ _ => some (.thread t)
  | .mqSend c _ _ _ _ | .mqRecv c _ _ _ => some c
  | _ => none

namespace Waits

/-- The test of `_rt_event_recv` and of `rt_event_send`. -/
def satisfied (info : BitVec 8) (want set : BitVec 32) : Bool :=
  if info &&& Kernel.eventFlagAnd ≠ 0#8 then decide (set &&& want = want) else decide (set &&& want ≠ 0#32)

/-- The request has one of `RT_EVENT_FLAG_AND` and `RT_EVENT_FLAG_OR`, and asks for something. -/
def Asks (info : BitVec 8) (want : BitVec 32) : Prop :=
  want ≠ 0#32 ∧ ¬(info &&& Kernel.eventFlagAnd = 0#8 ∧ info &&& Kernel.eventFlagOr = 0#8)

/-- What a thread waits for in `h` is not there; `x` has its request. -/
def Unavailable (s : Waits) (h : ListHead) (x : Waiter) : Prop :=
  match h with
  | .sem i => (s.objects.sem i).value = 0
  | .event i => Asks x.eventInfo x.eventSet ∧ satisfied x.eventInfo x.eventSet (s.objects.event i).set = false
  | .mbSend i => (s.objects.mailbox i).entry = (s.objects.mailbox i).size
  | .mbRecv i => (s.objects.mailbox i).entry = 0
  | .mqSend i => (s.objects.mq i).msgQueueFree = none
  | .mqRecv i => (s.objects.mq i).entry = 0
  | .ready _ | .defunct | .mutex _ => False

/-- A message that waits to be sent fits in a buffer of its queue. -/
def Fits (s : Waits) : Frame → Prop
  | .mqSendWait i buffer _ _ _ => buffer.length ≤ (s.objects.mq i).msgSize
  | _ => True

/-- At most one call, and about no IPC object. -/
def Plain (fs : List Frame) : Prop := fs.length ≤ 1 ∧ ∀ f ∈ fs, f.obj = none

/-- What happens outside the IPC objects: a thread may leave its wait list without being granted anything. -/
structure Quiet (ev : Ev) (s s' : Waits) : Prop where
  objects : s'.objects = s.objects
  isr : s'.isr = s.isr
  calls : ∀ t, (s'.waiter t).calls = (s.waiter t).calls ∨ Plain (s.waiter t).calls ∧ Plain (s'.waiter t).calls
  sub : ∀ h, (s'.list h).Sublist (s.list h)
  request : ∀ {t f}, (s.waiter t).calls = [f] → f.obj.isSome →
    (s'.waiter t).eventSet = (s.waiter t).eventSet ∧ (s'.waiter t).eventInfo = (s.waiter t).eventInfo
  error : ∀ {t f h}, (s.waiter t).calls = [f] → f.head = some h →
    ((s'.waiter t).error = .eok ↔ (s.waiter t).error = .eok)
  phase : ∀ {t f h}, (s.waiter t).calls = [f] → f.head = some h → (s.waiter t).error = .eok →
    (s'.waiter t).phase = (s.waiter t).phase ∨ ev = .delete t ∧ (s'.waiter t).phase = .closed

/-- The sections of the semaphore functions. -/
inductive SemStep (i : SemId) (s : Waits) : Option Ret → Waits → Prop
  | take {t : ThreadId} (hc : (s.waiter t).calls = []) (hv : 0 < (s.objects.sem i).value) :
      SemStep i s (some (.semTake t i .eok))
        (s.setSem i { s.objects.sem i with value := (s.objects.sem i).value - 1 })
  | finish {t : ThreadId} (hc : (s.waiter t).calls = [.semTake i]) (hl : ∀ h, t ∉ s.list h) :
      SemStep i s (some (.semTake t i (s.waiter t).error)) (s.setCalls (.thread t) [])
  | wake {t : ThreadId} {ts : List ThreadId} (hw : s.list (.sem i) = t :: ts) :
      SemStep i s (some (.semRelease i .eok)) (s.wake t .eok)
  | release (hw : s.list (.sem i) = []) (hv : (s.objects.sem i).value < Kernel.semValueMax) :
      SemStep i s (some (.semRelease i .eok))
        (s.setSem i { s.objects.sem i with value := (s.objects.sem i).value + 1 })

/-- The loop of `rt_event_send`; `false` is the return with `-RT_EINVAL`. -/
def sendLoop (i : EventId) : List ThreadId → Waits → Waits × Bool
  | [], s => (s, true)
  | t :: ts, s =>
    let x := s.waiter t
    let set := (s.objects.event i).set
    if x.eventInfo &&& Kernel.eventFlagAnd = 0#8 ∧ x.eventInfo &&& Kernel.eventFlagOr = 0#8 then (s, false)
    else if satisfied x.eventInfo x.eventSet set then
      let got := if x.eventInfo &&& Kernel.eventFlagAnd ≠ 0#8 then x.eventSet else x.eventSet &&& set
      let cleared := if x.eventInfo &&& Kernel.eventFlagClear ≠ 0#8 then set &&& ~~~got else set
      let s := s.modWaiter t fun x => { x with eventSet := got }
      sendLoop i ts ((s.setEvent i { s.objects.event i with set := cleared }).wake t .eok)
    else sendLoop i ts s

/-- The sections of the event functions. -/
inductive EventStep (i : EventId) (s : Waits) : Option Ret → Waits → Prop
  | recv {t : ThreadId} {want : BitVec 32} {info : BitVec 8} {x : Waiter} (hc : (s.waiter t).calls = [])
      (hx : x.calls = []) (hs : satisfied info want (s.objects.event i).set) :
      EventStep i s (some (.eventRecv t i .eok ((s.objects.event i).set &&& want)))
        ((s.modWaiter t fun _ => x).setEvent i { s.objects.event i with
          set := if info &&& Kernel.eventFlagClear ≠ 0#8 then (s.objects.event i).set &&& ~~~want
            else (s.objects.event i).set })
  | finish {t : ThreadId} (hc : (s.waiter t).calls = [.eventRecv i]) (hl : ∀ h, t ∉ s.list h) :
      EventStep i s (some (.eventRecv t i (s.waiter t).error (s.waiter t).eventSet)) (s.setCalls (.thread t) [])
  | send {set : BitVec 32} {r : Waits × Bool} (h0 : set ≠ 0#32)
      (hr : sendLoop i (s.list (.event i))
        (s.setEvent i { s.objects.event i with set := (s.objects.event i).set ||| set }) = r) :
      EventStep i s (some (.eventSend i (if r.2 then .eok else .einval))) r.1

/-- A mailbox with a mail at its end, with one at its front, and without its first one. -/
def mailPut (x : Mailbox) (value : BitVec 64) : Mailbox :=
  { x with
    msgPool := update x.msgPool x.inOffset value
    inOffset := if x.size ≤ x.inOffset + 1 then 0 else x.inOffset + 1 }

def mailUrgent (x : Mailbox) (value : BitVec 64) : Mailbox :=
  let outOffset := if 0 < x.outOffset then x.outOffset - 1 else x.size - 1
  { x with
    outOffset := outOffset
    msgPool := update x.msgPool outOffset value
    entry := x.entry + 1 }

def mailGet (x : Mailbox) : Mailbox :=
  { x with
    outOffset := if x.size ≤ x.outOffset + 1 then 0 else x.outOffset + 1
    entry := x.entry - 1 }

/-- The sections of the mailbox functions. -/
inductive MailboxStep (i : MailboxId) (s : Waits) : Option Ret → Waits → Prop
  | send {t : ThreadId} {value : BitVec 64} (hc : s.Enters (.thread t) (.mbSend i))
      (hn : (s.objects.mailbox i).entry ≠ (s.objects.mailbox i).size)
      (he : (s.objects.mailbox i).entry < Kernel.mbEntryMax) :
      MailboxStep i s (some (.mbSendWait t i value .eok))
        (((s.setCalls (.thread t) []).setMailbox i { mailPut (s.objects.mailbox i) value with
          entry := (s.objects.mailbox i).entry + 1 }).wakeFirst (.mbRecv i))
  | overflow {t : ThreadId} {value : BitVec 64} (hc : s.Enters (.thread t) (.mbSend i))
      (hn : (s.objects.mailbox i).entry ≠ (s.objects.mailbox i).size)
      (he : Kernel.mbEntryMax ≤ (s.objects.mailbox i).entry) :
      MailboxStep i s (some (.mbSendWait t i value .efull))
        ((s.setCalls (.thread t) []).setMailbox i (mailPut (s.objects.mailbox i) value))
  | urgent {value : BitVec 64} (hn : (s.objects.mailbox i).entry ≠ (s.objects.mailbox i).size) :
      MailboxStep i s (some (.mbUrgent i value .eok))
        ((s.setMailbox i (mailUrgent (s.objects.mailbox i) value)).wakeFirst (.mbRecv i))
  | recv {t : ThreadId} (hc : s.Enters (.thread t) (.mbRecv i)) (hn : (s.objects.mailbox i).entry ≠ 0) :
      MailboxStep i s (some (.mbRecv t i .eok ((s.objects.mailbox i).msgPool (s.objects.mailbox i).outOffset)))
        (((s.setCalls (.thread t) []).setMailbox i (mailGet (s.objects.mailbox i))).wakeFirst (.mbSend i))

/-- A message queue without its first free buffer, with the bytes of a message in a buffer, and without its first
message. -/
def mqTaken (x : MessageQueue) (msg : Nat) : MessageQueue := { x with msgQueueFree := x.next msg }

def mqFilled (x : MessageQueue) (msg : Nat) (buffer : List (BitVec 8)) (urgent : Bool) : MessageQueue :=
  { x with
    next := if urgent then x.next else update x.next msg none
    content := update x.content msg fun i => (buffer[i]?).getD (x.content msg i) }

def mqDetached (x : MessageQueue) (msg : Nat) : MessageQueue :=
  { x with
    msgQueueHead := x.next msg
    msgQueueTail := if x.msgQueueTail = some msg then none else x.msgQueueTail
    entry := x.entry - 1 }

def mqFreed (x : MessageQueue) (msg : Nat) : MessageQueue :=
  { x with next := update x.next msg x.msgQueueFree, msgQueueFree := some msg }

/-- The sections of the message queue functions, and the copies between them. -/
inductive MqStep (i : MqId) (s : Waits) : Option Ret → Waits → Prop
  | take {c : Context} {msg : Nat} {buffer : List (BitVec 8)} {urgent : Bool} (hc : s.Enters c (.mqSend i))
      (hf : (s.objects.mq i).msgQueueFree = some msg) (hs : buffer.length ≤ (s.objects.mq i).msgSize) :
      MqStep i s none ((s.setMq i (mqTaken (s.objects.mq i) msg)).setCalls c [.mqCopyIn i msg buffer urgent])
  | copyIn {c : Context} {msg : Nat} {buffer : List (BitVec 8)} {urgent : Bool}
      (hc : s.calls c = [.mqCopyIn i msg buffer urgent]) :
      MqStep i s none ((s.setMq i (mqFilled (s.objects.mq i) msg buffer urgent)).setCalls c
        [.mqLink i msg buffer urgent])
  | link {c : Context} {msg : Nat} {buffer : List (BitVec 8)} {urgent : Bool}
      (hc : s.calls c = [.mqLink i msg buffer urgent]) (he : (s.objects.mq i).entry < Kernel.mqEntryMax) :
      MqStep i s (some (.mqSend c i buffer urgent .eok))
        (((s.setCalls c []).setMq i { Kernel.mqLinkMsg (s.objects.mq i) msg urgent with
          entry := (s.objects.mq i).entry + 1 }).wakeFirst (.mqRecv i))
  | overflow {c : Context} {msg : Nat} {buffer : List (BitVec 8)} {urgent : Bool}
      (hc : s.calls c = [.mqLink i msg buffer urgent]) (he : Kernel.mqEntryMax ≤ (s.objects.mq i).entry) :
      MqStep i s (some (.mqSend c i buffer urgent .efull))
        ((s.setCalls c []).setMq i (Kernel.mqLinkMsg (s.objects.mq i) msg urgent))
  | detach {c : Context} {msg size : Nat} (hc : s.Enters c (.mqRecv i)) (hn : (s.objects.mq i).entry ≠ 0)
      (hh : (s.objects.mq i).msgQueueHead = some msg) :
      MqStep i s (some (.mqDetach c i))
        ((s.setMq i (mqDetached (s.objects.mq i) msg)).setCalls c [.mqCopyOut i msg size])
  | copyOut {c : Context} {msg size : Nat} (hc : s.calls c = [.mqCopyOut i msg size]) :
      MqStep i s none (s.setCalls c [.mqFree i msg (Kernel.mqBytes (s.objects.mq i) msg size)])
  | free {c : Context} {msg : Nat} {buffer : List (BitVec 8)} (hc : s.calls c = [.mqFree i msg buffer]) :
      MqStep i s (some (.mqRecv c i .eok buffer))
        (((s.setCalls c []).setMq i (mqFreed (s.objects.mq i) msg)).wakeFirst (.mqSend i))
  | reset {fuel : Nat} {x : MessageQueue} (hx : Kernel.mqReleaseAll fuel (s.objects.mq i) = some x) :
      MqStep i s (some (.mqReset i))
        (((s.wakeAll (.mqRecv i)).wakeAll (.mqSend i)).setMq i { x with entry := 0 })

/-- What a call shows that did nothing: its caller was in no other call, and if it cannot wait nothing has changed. -/
structure Idle (s s' : Waits) (x : Ret) : Prop where
  acts : x.acts = false
  calls : ∀ c ∈ x.caller, s.calls c = []
  same : x.caller = none → x.obj.isSome → s' = s

/-- The steps. -/
inductive Step (s : Waits) : Ev × Option Ret → Waits → Prop
  | quiet {ev : Ev} {r : Option Ret} {s' : Waits} (hq : Quiet ev s s') (hr : ∀ x ∈ r, Idle s s' x) : Step s (ev, r) s'
  /-- A thread suspends itself. -/
  | block {t : ThreadId} {h : ListHead} {f : Frame} {x : Waiter} {xs : List ThreadId} (ev : Ev)
      (hc : s.Enters (.thread t) h) (hf : f.head = some h) (hu : s.Unavailable h x) (hx : x.calls = [f])
      (hs : s.Fits f) (he : x.error ≠ .eok) (hp : x.phase = .suspended) (hxs : xs.Perm (t :: s.list h)) :
      Step s (ev, none) (s.block t h x xs)
  /-- A thread that waited returns with an error. -/
  | fail {t : ThreadId} {h : ListHead} {f : Frame} {x : Waiter} {r : Ret} (ev : Ev) (hc : (s.waiter t).calls = [f])
      (hf : f.head = some h) (hh : h.retries) (hl : ∀ h, t ∉ s.list h)
      (hu : (s.waiter t).error = .eok → s.Unavailable h (s.waiter t)) (hx : x.calls = []) (ha : r.acts = false)
      (hr : r.obj = h.obj ∧ r.caller = some (.thread t)) : Step s (ev, some r) (s.modWaiter t fun _ => x)
  | sem {i : SemId} {r : Option Ret} {s' : Waits} (ev : Ev) (h : SemStep i s r s') : Step s (ev, r) s'
  | event {i : EventId} {r : Option Ret} {s' : Waits} (ev : Ev) (h : EventStep i s r s') : Step s (ev, r) s'
  | mailbox {i : MailboxId} {r : Option Ret} {s' : Waits} (ev : Ev) (h : MailboxStep i s r s') : Step s (ev, r) s'
  | mq {i : MqId} {r : Option Ret} {s' : Waits} (ev : Ev) (h : MqStep i s r s') : Step s (ev, r) s'

/-! ## The invariant -/

/-- The calls and the wait lists agree. -/
structure Waiting (s : Waits) : Prop where
  calls_le : ∀ c, (s.calls c).length ≤ 1
  nodup : ∀ h, (s.list h).Nodup
  /-- Who is in a wait list waits there, and was not granted anything. -/
  linked : ∀ {t h}, t ∈ s.list h → (s.waiter t).error ≠ .eok ∧ ∃ f, (s.waiter t).calls = [f] ∧ f.head = some h
  /-- Who was granted something runs. -/
  awake : ∀ {t f h}, (s.waiter t).calls = [f] → f.head = some h → (s.waiter t).error = .eok →
    (s.waiter t).phase ≠ .suspended
  fits : ∀ {t f}, (s.waiter t).calls = [f] → s.Fits f

variable {s s' : Waits} {t u : ThreadId} {h h' : ListHead} {c c' : Context} {f : Frame} {fs : List Frame}

section Fields

variable (s t)

@[simp] theorem modWaiter_waiter_self (g : Waiter → Waiter) : (s.modWaiter t g).waiter t = g (s.waiter t) := by
  simp [modWaiter]

theorem modWaiter_waiter_of_ne {g : Waiter → Waiter} (hu : u ≠ t) : (s.modWaiter t g).waiter u = s.waiter u := by
  simp [modWaiter, hu]

@[simp] theorem modWaiter_list (g : Waiter → Waiter) : (s.modWaiter t g).list = s.list := rfl
@[simp] theorem unlink_waiter : (s.unlink t).waiter = s.waiter := rfl
@[simp] theorem wake_list (e : RtErr) : (s.wake t e).list = Links.remove s.list t := rfl
@[simp] theorem wake_objects (e : RtErr) : (s.wake t e).objects = s.objects := rfl

@[simp] theorem wake_waiter_self (e : RtErr) :
    (s.wake t e).waiter t = { s.waiter t with phase := .active, error := e } := by simp [wake]

theorem wake_waiter_of_ne {e : RtErr} (hu : u ≠ t) : (s.wake t e).waiter u = s.waiter u := by
  rw [wake, modWaiter_waiter_of_ne _ _ hu, unlink_waiter]

/-- Waking leaves the calls and the request. -/
theorem wake_request (e : RtErr) (u : ThreadId) :
    ((s.wake t e).waiter u).calls = (s.waiter u).calls ∧ ((s.wake t e).waiter u).eventSet = (s.waiter u).eventSet ∧
      ((s.wake t e).waiter u).eventInfo = (s.waiter u).eventInfo := by
  by_cases hu : u = t
  · subst hu; simp
  · rw [wake_waiter_of_ne _ _ hu]; exact ⟨rfl, rfl, rfl⟩

@[simp] theorem wakeFirst_objects (h : ListHead) : (s.wakeFirst h).objects = s.objects := by
  unfold wakeFirst
  split <;> rfl

@[simp] theorem setCalls_list (fs : List Frame) : (s.setCalls c fs).list = s.list := by cases c <;> rfl
@[simp] theorem setCalls_objects (fs : List Frame) : (s.setCalls c fs).objects = s.objects := by cases c <;> rfl

theorem calls_thread : s.calls (.thread t) = (s.waiter t).calls := rfl

@[simp] theorem calls_setCalls_self (c : Context) (fs : List Frame) : (s.setCalls c fs).calls c = fs := by
  cases c with
  | thread t => simp [setCalls, calls_thread]
  | isr i => simp [setCalls, calls]

theorem calls_setCalls_of_ne (hc : c' ≠ c) : (s.setCalls c fs).calls c' = s.calls c' := by
  cases c with
  | thread t =>
    cases c' with
    | thread u =>
      have hu : u ≠ t := by rintro rfl; exact hc rfl
      rw [calls_thread, calls_thread, setCalls, modWaiter_waiter_of_ne _ _ hu]
    | isr i => rfl
  | isr i =>
    cases c' with
    | thread u => rfl
    | isr j =>
      have hj : j ≠ i := by rintro rfl; exact hc rfl
      simp [setCalls, calls, hj]

theorem setCalls_self (hc : s.calls c = fs) : s.setCalls c fs = s := by
  subst hc
  cases c with
  | thread t => simp [setCalls, modWaiter, calls]
  | isr i => simp [setCalls, calls]

theorem setMq_setMq (i : MqId) (x y : MessageQueue) : (s.setMq i x).setMq i y = s.setMq i y := by simp [setMq]

theorem setCalls_setMq_setCalls (i : MqId) (x : MessageQueue) (c : Context) (fs fs' : List Frame) :
    ((s.setCalls c fs).setMq i x).setCalls c fs' = (s.setMq i x).setCalls c fs' := by
  cases c with
  | thread t => simp [setCalls, setMq, modWaiter]
  | isr i => simp [setCalls, setMq]

@[simp] theorem setEvent_waiter (i : EventId) (x : Event) : (s.setEvent i x).waiter = s.waiter := rfl
@[simp] theorem setEvent_list (i : EventId) (x : Event) : (s.setEvent i x).list = s.list := rfl
theorem setEvent_self (i : EventId) : s.setEvent i (s.objects.event i) = s := by simp [setEvent]

@[simp] theorem setMailbox_mailbox (i : MailboxId) (x : Mailbox) : (s.setMailbox i x).objects.mailbox i = x := by
  simp [setMailbox]
section

variable (i : MqId) (x : MessageQueue)

@[simp] theorem setMq_mq : (s.setMq i x).objects.mq i = x := by simp [setMq]
@[simp] theorem setMq_calls (c : Context) : (s.setMq i x).calls c = s.calls c := by
  cases c <;> rfl

end

end Fields

/-- Who goes on with an object is in no wait list. -/
theorem Waiting.notMem_of_enters (hw : s.Waiting) (hc : s.Enters (.thread t) h') (h : ListHead) : t ∉ s.list h := by
  intro hm
  obtain ⟨he, f, hf, -⟩ := hw.linked hm
  rcases hc with hc | ⟨-, u, g, hu, -, -, hg⟩
  · rw [calls_thread, hf] at hc; cases hc
  · obtain rfl := Context.thread.inj hu
    exact he hg

theorem Waiting.notMem_of_idle (hw : s.Waiting) (hc : (s.waiter t).calls = []) (h : ListHead) : t ∉ s.list h :=
  hw.notMem_of_enters (Or.inl hc : s.Enters (.thread t) h) h

theorem Fits.congr (hf : s.Fits f) (hs : ∀ i, (s'.objects.mq i).msgSize = (s.objects.mq i).msgSize) : s'.Fits f := by
  cases f with
  | mqSendWait i _ _ _ _ => exact hf.trans_eq (hs i).symm
  | _ => trivial

theorem Plain.nil : Plain [] := ⟨by simp, by simp⟩

/-- The calls of IPC functions stay. -/
theorem Quiet.calls_eq {ev : Ev} (hq : Quiet ev s s') (hf : f.obj.isSome) :
    (s'.waiter t).calls = [f] ↔ (s.waiter t).calls = [f] := by
  rcases hq.calls t with e | ⟨h, h'⟩
  · rw [e]
  · refine iff_of_false (fun e => ?_) fun e => ?_
    · rw [h'.2 f (by simp [e])] at hf; cases hf
    · rw [h.2 f (by simp [e])] at hf; cases hf

theorem Quiet.plain {ev : Ev} (hq : Quiet ev s s') (h : Plain (s.waiter t).calls) : Plain (s'.waiter t).calls := by
  rcases hq.calls t with e | h'
  · rw [e]; exact h
  · exact h'.2

theorem Waiting.quiet {ev : Ev} (hw : s.Waiting) (hq : Quiet ev s s') : s'.Waiting where
  calls_le c := by
    cases c with
    | thread t =>
      rcases hq.calls t with e | ⟨-, h⟩
      · rw [calls_thread, e]; exact hw.calls_le (.thread t)
      · exact h.1
    | isr i => simpa [calls, hq.isr] using hw.calls_le (.isr i)
  nodup h := (hq.sub h).nodup (hw.nodup h)
  linked hm := by
    obtain ⟨he, f, hf, hh⟩ := hw.linked ((hq.sub _).subset hm)
    exact ⟨fun he' => he ((hq.error hf hh).1 he'), f, (hq.calls_eq (Frame.isSome_obj hh)).2 hf, hh⟩
  awake {t f h} hf hh he := by
    rw [hq.calls_eq (Frame.isSome_obj hh)] at hf
    have he' := (hq.error hf hh).1 he
    rcases hq.phase hf hh he' with hp | ⟨-, hp⟩
    · rw [hp]; exact hw.awake hf hh he'
    · simp [hp]
  fits {t f} hf := by
    cases ho : f.obj with
    | none =>
      cases f with
      | mqSendWait => cases ho
      | _ => trivial
    | some o =>
      rw [hq.calls_eq (by rw [ho]; rfl)] at hf
      exact (hw.fits hf).congr fun i => by rw [hq.objects]

section

variable (hw : s.Waiting)

include hw

/-- Only objects change, and no message queue its message size. -/
theorem Waiting.setObjects {x : Objects}
    (hx : ∀ i, (x.mq i).msgSize = (s.objects.mq i).msgSize) : Waiting { s with objects := x } where
  calls_le c := by
    cases c with
    | thread t => exact hw.calls_le (.thread t)
    | isr i => exact hw.calls_le (.isr i)
  nodup := hw.nodup
  linked := hw.linked
  awake := hw.awake
  fits {t f} hf := Fits.congr (hw.fits hf) hx

theorem Waiting.setSem (i : SemId) (x : Semaphore) : (s.setSem i x).Waiting :=
  hw.setObjects fun _ => rfl

theorem Waiting.setEvent (i : EventId) (x : Event) : (s.setEvent i x).Waiting :=
  hw.setObjects fun _ => rfl

theorem Waiting.setMailbox (i : MailboxId) (x : Mailbox) : (s.setMailbox i x).Waiting :=
  hw.setObjects fun _ => rfl

theorem Waiting.setMq (i : MqId) {x : MessageQueue} (hx : x.msgSize = (s.objects.mq i).msgSize) :
    (s.setMq i x).Waiting := by
  refine hw.setObjects fun j => ?_
  by_cases hj : j = i
  · subst hj; simpa using hx
  · simp [hj]

/-- One thread changes, and the lists with it. -/
theorem Waiting.update {x : Waiter} {L : ListHead → List ThreadId} (hn : ∀ h, (L h).Nodup)
    (hL : ∀ u h, u ≠ t → u ∈ L h → u ∈ s.list h) (hx : x.calls.length ≤ 1)
    (hl : ∀ h, t ∈ L h → x.error ≠ .eok ∧ ∃ f, x.calls = [f] ∧ f.head = some h)
    (ha : ∀ f h, x.calls = [f] → f.head = some h → x.error = .eok → x.phase ≠ .suspended)
    (hf : ∀ f, x.calls = [f] → s.Fits f) : Waiting { s.modWaiter t fun _ => x with list := L } := by
  have hself : (s.modWaiter t fun _ => x).waiter t = x := modWaiter_waiter_self s t _
  have hother {u : ThreadId} (hu : u ≠ t) : (s.modWaiter t fun _ => x).waiter u = s.waiter u :=
    modWaiter_waiter_of_ne s t hu
  refine ⟨fun c => ?_, hn, fun {u h} hm => ?_, fun {u f h} hc hh he => ?_, fun {u f} hc => ?_⟩
  · cases c with
    | thread u =>
      change ((s.modWaiter t fun _ => x).waiter u).calls.length ≤ 1
      by_cases hu : u = t
      · subst hu; rw [hself]; exact hx
      · rw [hother hu]; exact hw.calls_le (.thread u)
    | isr i => exact hw.calls_le (.isr i)
  · by_cases hu : u = t
    · subst hu; rw [hself]; exact hl h hm
    · rw [hother hu]; exact hw.linked (hL u h hu hm)
  · change ((s.modWaiter t fun _ => x).waiter u).error = .eok at he
    change ((s.modWaiter t fun _ => x).waiter u).phase ≠ .suspended
    by_cases hu : u = t
    · subst hu; rw [hself] at hc he ⊢; exact ha f h hc hh he
    · rw [hother hu] at hc he ⊢; exact hw.awake hc hh he
  · have hfit : s.Fits f := by
      by_cases hu : u = t
      · subst hu; rw [hself] at hc; exact hf f hc
      · rw [hother hu] at hc; exact hw.fits hc
    exact Fits.congr hfit fun _ => rfl

/-- A thread that is in no list and in no call that waits changes. -/
theorem Waiting.modIdle {g : Waiter → Waiter} (hl : ∀ h, t ∉ s.list h)
    (hx : (g (s.waiter t)).calls = []) : (s.modWaiter t g).Waiting :=
  hw.update (x := g (s.waiter t)) (L := s.list) hw.nodup (fun _ _ _ hm => hm) (by simp [hx])
    (fun h hm => absurd hm (hl h)) (by simp [hx]) (by simp [hx])

theorem Waiting.wake (t : ThreadId) (e : RtErr) : (s.wake t e).Waiting := by
  have key : s.wake t e = { s.modWaiter t fun _ => { s.waiter t with phase := .active, error := e } with
    list := Links.remove s.list t } := rfl
  rw [key]
  exact hw.update (fun h => (hw.nodup h).filter _) (fun u h _ hm => (Links.mem_remove.1 hm).1) (hw.calls_le (.thread t))
    (fun h hm => absurd hm (Links.free_remove _ _ h)) (by simp) fun f hf => hw.fits hf

theorem Waiting.wakeFirst (h : ListHead) : (s.wakeFirst h).Waiting := by
  unfold Waits.wakeFirst
  split
  · exact hw
  · exact hw.wake _ _

theorem Waiting.wakeAll (h : ListHead) : (s.wakeAll h).Waiting := by
  unfold Waits.wakeAll
  generalize s.list h = ts
  induction ts generalizing s with
  | nil => exact hw
  | cons t ts ih => exact ih (hw.wake t .error)

/-- A caller that is in no list goes on with a frame that does not wait. -/
theorem Waiting.setCalls (hl : ∀ t h, c = .thread t → t ∉ s.list h) (hfs : fs.length ≤ 1)
    (hn : ∀ f, fs = [f] → f.head = none ∧ s.Fits f) : (s.setCalls c fs).Waiting := by
  cases c with
  | thread t =>
    exact hw.update (x := { s.waiter t with calls := fs }) (L := s.list) hw.nodup (fun _ _ _ hm => hm) hfs
      (fun h hm => absurd hm (hl t h rfl)) (fun f h hf hh => by rw [(hn f hf).1] at hh; cases hh)
      fun f hf => (hn f hf).2
  | isr i =>
    refine ⟨fun c => ?_, hw.nodup, hw.linked, hw.awake, fun {t f} hf => ?_⟩
    · cases c with
      | thread t => exact hw.calls_le (.thread t)
      | isr j =>
        by_cases hj : j = i
        · subst hj; simpa [calls, Waits.setCalls] using hfs
        · simpa [calls, Waits.setCalls, hj] using hw.calls_le (.isr j)
    · exact Fits.congr (hw.fits (t := t) hf) fun _ => rfl

/-- The request of a thread does not count. -/
theorem Waiting.request (t : ThreadId) (g : Waiter → Waiter)
    (hg : ∀ x, (g x).calls = x.calls ∧ (g x).error = x.error ∧ (g x).phase = x.phase) : (s.modWaiter t g).Waiting := by
  obtain ⟨hc, he, hp⟩ := hg (s.waiter t)
  refine hw.update (x := g (s.waiter t)) (L := s.list) hw.nodup (fun _ _ _ hm => hm) ?_ (fun h hm => ?_)
    (fun f h hf hh hu => ?_) fun f hf => ?_
  · rw [hc]; exact hw.calls_le (.thread t)
  · rw [hc, he]; exact hw.linked hm
  · rw [hp]; exact hw.awake (hc ▸ hf) hh (he ▸ hu)
  · exact hw.fits (hc ▸ hf)

end

theorem Waiting.sendLoop (i : EventId) (ts : List ThreadId) (hw : s.Waiting) : (Waits.sendLoop i ts s).1.Waiting := by
  induction ts generalizing s with
  | nil => exact hw
  | cons t ts ih =>
    unfold Waits.sendLoop
    dsimp only
    split_ifs
    · exact hw
    all_goals first | exact ih hw | skip
    all_goals
      refine ih (Waiting.wake (Waiting.setEvent ?_ i _) t .eok)
      exact hw.request t _ fun _ => ⟨rfl, rfl, rfl⟩

/-! ## Every step keeps the invariant -/

variable {r : Option Ret}

/-- The caller returns. -/
theorem Waiting.leave (hw : s.Waiting) (hl : ∀ t h, c = .thread t → t ∉ s.list h) : (s.setCalls c []).Waiting :=
  hw.setCalls hl (by simp) (by simp)

theorem Waiting.leave_of_enters (hw : s.Waiting) (hc : s.Enters c h) : (s.setCalls c []).Waiting :=
  hw.leave fun t h' ht => by subst ht; exact hw.notMem_of_enters hc h'

theorem Waiting.notMem_of_calls (hw : s.Waiting) (hc : s.calls c = [f]) (hf : f.head = none) (t : ThreadId)
    (h : ListHead) (ht : c = .thread t) : t ∉ s.list h := by
  subst ht
  intro hm
  obtain ⟨-, g, hg, hh⟩ := hw.linked hm
  obtain rfl := (List.cons.inj (hc.symm.trans hg)).1
  rw [hf] at hh; cases hh

theorem SemStep.waiting {i : SemId} (hst : SemStep i s r s') (hw : s.Waiting) : s'.Waiting := by
  cases hst with
  | take hc hv => exact hw.setSem i _
  | finish hc hl => exact hw.leave fun u h hu => by rw [← Context.thread.inj hu]; exact hl h
  | wake hl => exact hw.wake _ _
  | release hl hv => exact hw.setSem i _

theorem EventStep.waiting {i : EventId} (hst : EventStep i s r s') (hw : s.Waiting) : s'.Waiting := by
  cases hst with
  | recv hc hx hs => exact (hw.modIdle (hw.notMem_of_idle hc) hx).setEvent i _
  | finish hc hl => exact hw.leave fun u h hu => by rw [← Context.thread.inj hu]; exact hl h
  | send h0 hr => rw [← hr]; exact (hw.setEvent i _).sendLoop i _

theorem MailboxStep.waiting {i : MailboxId} (hst : MailboxStep i s r s') (hw : s.Waiting) : s'.Waiting := by
  cases hst with
  | send hc hn he => exact ((hw.leave_of_enters hc).setMailbox i _).wakeFirst _
  | overflow hc hn he => exact (hw.leave_of_enters hc).setMailbox i _
  | urgent hn => exact (hw.setMailbox i _).wakeFirst _
  | recv hc hn => exact ((hw.leave_of_enters hc).setMailbox i _).wakeFirst _

@[simp] theorem mqLinkMsg_msgSize (x : MessageQueue) (msg : Nat) (urgent : Bool) :
    (Kernel.mqLinkMsg x msg urgent).msgSize = x.msgSize := by
  unfold Kernel.mqLinkMsg
  split <;> rfl

theorem mqReleaseAll_msgSize {fuel : Nat} {x y : MessageQueue} (hx : Kernel.mqReleaseAll fuel x = some y) :
    y.msgSize = x.msgSize := by
  induction fuel generalizing x with
  | zero =>
    unfold Kernel.mqReleaseAll at hx
    split at hx
    · rw [← Option.some.inj hx]
    · cases hx
  | succ fuel ih =>
    unfold Kernel.mqReleaseAll at hx
    split at hx
    · rw [← Option.some.inj hx]
    · have h1 := ih hx
      exact h1

theorem wakeAll_objects (s : Waits) (h : ListHead) : (s.wakeAll h).objects = s.objects := by
  unfold wakeAll
  generalize s.list h = ts
  induction ts generalizing s with
  | nil => rfl
  | cons t ts ih => exact ih (s.wake t .error)

/-- The caller goes on with a frame that does not wait. -/
theorem Waiting.goOn (hw : s.Waiting) (hl : ∀ t h, c = .thread t → t ∉ s.list h) (hf : f.head = none) :
    (s.setCalls c [f]).Waiting := by
  refine hw.setCalls hl (by simp) fun g hg => ?_
  obtain rfl := (List.cons.inj hg).1
  refine ⟨hf, ?_⟩
  cases f with
  | mqSendWait => cases hf
  | _ => trivial

theorem MqStep.waiting {i : MqId} (hst : MqStep i s r s') (hw : s.Waiting) : s'.Waiting := by
  have enter {c : Context} {h : ListHead} (hc : s.Enters c h) (t : ThreadId) (h' : ListHead) (ht : c = .thread t) :
      t ∉ s.list h' := by
    subst ht; exact hw.notMem_of_enters hc h'
  cases hst with
  | take hc hf hs => exact Waiting.goOn (hw.setMq i rfl) (enter hc) rfl
  | copyIn hc => exact Waiting.goOn (hw.setMq i rfl) (hw.notMem_of_calls hc rfl) rfl
  | link hc he =>
    refine Waiting.wakeFirst (Waiting.setMq (hw.leave (hw.notMem_of_calls hc rfl)) i ?_) _
    rw [setCalls_objects]; exact mqLinkMsg_msgSize _ _ _
  | overflow hc he =>
    refine Waiting.setMq (hw.leave (hw.notMem_of_calls hc rfl)) i ?_
    rw [setCalls_objects]; exact mqLinkMsg_msgSize _ _ _
  | detach hc hn hh => exact Waiting.goOn (hw.setMq i rfl) (enter hc) rfl
  | copyOut hc => exact hw.goOn (hw.notMem_of_calls hc rfl) rfl
  | free hc =>
    refine Waiting.wakeFirst (Waiting.setMq (hw.leave (hw.notMem_of_calls hc rfl)) i ?_) _
    rw [setCalls_objects]; rfl
  | reset hx =>
    refine ((hw.wakeAll _).wakeAll _).setMq i ?_
    rw [wakeAll_objects, wakeAll_objects]
    have h1 := mqReleaseAll_msgSize hx
    exact h1

/-- Every step keeps the invariant. -/
theorem Step.waiting {l : Ev × Option Ret} (hst : Step s l s') (hw : s.Waiting) : s'.Waiting := by
  cases hst with
  | quiet hq hr => exact hw.quiet hq
  | @block t h f x xs ev hc hf hu hx hs he hp hxs =>
    have hnot := hw.notMem_of_enters hc
    refine hw.update (fun h' => ?_) (fun u h' hne hm => ?_) (by simp [hx]) (fun h' hm => ?_)
      (fun g h' _ _ he' => absurd he' he) fun g hg => ?_
    · by_cases e : h' = h
      · subst e
        rw [update_self]
        exact hxs.nodup_iff.2 (List.nodup_cons.2 ⟨hnot h', hw.nodup h'⟩)
      · rw [update_of_ne e]; exact hw.nodup h'
    · by_cases e : h' = h
      · subst e
        rw [update_self] at hm
        exact (List.mem_cons.1 (hxs.mem_iff.1 hm)).resolve_left hne
      · rwa [update_of_ne e] at hm
    · by_cases e : h' = h
      · subst e; exact ⟨he, f, hx, hf⟩
      · rw [update_of_ne e] at hm; exact absurd hm (hnot h')
    · obtain rfl := (List.cons.inj (hx.symm.trans hg)).1
      exact hs
  | fail ev hc hf hh hl hu hx ha hr => exact hw.modIdle hl hx
  | sem ev h => exact h.waiting hw
  | event ev h => exact h.waiting hw
  | mailbox ev h => exact h.waiting hw
  | mq ev h => exact h.waiting hw

end Waits

end RtThread
