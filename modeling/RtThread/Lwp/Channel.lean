import Mathlib.Logic.Function.Basic

/-!
# IPC channels

`lwp_ipc.c`: the pool of messages (45–92), `_rt_raw_channel_send_recv_timeout` with the wake-ups and the timeout of a sender
(276–357, 407–579), `rt_raw_channel_reply` (608–656), and `_rt_raw_channel_recv_timeout` with the wake-up and the timeout of
a receiver (658–809), for one open channel. A step is a section with interrupts disabled, with the accesses to the thread's
own fields behind it: others use the `msg_ret` of a thread only while it waits, so that it is cleared a little later cannot be
seen. A failed assertion, or an access through a null pointer, has no result. Beside the state of the code there are the
messages that were accepted, and received, the replies, and what the senders got.
-/

namespace RtThread.LwpIpc

open Function (update)

inductive ChannelStat
  | idle
  | wait
  | active
deriving DecidableEq, Repr

/-- `struct rt_ipc_msg`. The sender is also the link of the free list. -/
structure IpcMsg (δ : Type) where
  sender : Option Nat
  needReply : Bool
  data : δ

/-- The functions for `rt_thread_wakeup`. -/
inductive Wakeup
  | senderWaitRecv
  | senderWaitReply
  | receiver
deriving DecidableEq, Repr

/-- The functions of a timer that runs. -/
inductive ChannelTimer
  | sender
  | receiver
deriving DecidableEq, Repr

/-- Where a thread is: in user code; suspended in a call that sends, resumed there, and with the reply read; suspended in a
call that receives, and resumed there. -/
inductive ChannelPc
  | user
  | send
  | sendResumed
  | sendFree
  | recv
  | recvResumed
deriving DecidableEq, Repr

structure ChannelThread where
  error : Int
  msgRet : Option Nat
  wakeup : Option Wakeup
  timer : Option ChannelTimer
  pc : ChannelPc
  /-- The number of the message that it sent last. -/
  request : Nat
deriving DecidableEq, Repr

structure Channel (δ : Type) where
  msg : Nat → IpcMsg δ
  msgFreeList : Option Nat
  msgUsed : Nat
  stat : ChannelStat
  reply : Option Nat
  waitMsg : List Nat
  waitThread : List Nat
  suspendThread : List Nat
  thread : Nat → ChannelThread
  /-- The messages that were accepted, with their senders, and the number of each message there. -/
  accepted : List (Nat × Bool × δ)
  number : Nat → Nat
  /-- The messages that were received, with their numbers, the last one first. -/
  received : List (Nat × δ)
  /-- The replies: the number of the message that was received last, the thread, and the data. -/
  replies : List (Option Nat × Nat × δ)
  /-- The calls that returned a reply: the number of the message, the thread, and the data. -/
  returned : List (Nat × Nat × δ)

def RT_EOK : Int := 0
def RT_ETIMEOUT : Int := 2
def RT_EINTR : Int := 9

namespace Channel

variable {δ : Type}

/-! ## Messages -/

/-- `_ipc_msg_alloc`, with `RT_CH_MSG_MAX_NR` -/
def msgAlloc (max : Nat) (s : Channel δ) : Option (Nat × Channel δ) :=
  match s.msgFreeList with
  | some p => some (p, { s with msgFreeList := (s.msg p).sender })
  | none => if s.msgUsed < max then some (s.msgUsed, { s with msgUsed := s.msgUsed + 1 }) else none

def msgFree (s : Channel δ) (m : Nat) : Channel δ :=
  { s with msg := update s.msg m { s.msg m with sender := s.msgFreeList }, msgFreeList := some m }

def msgInit (s : Channel δ) (m self : Nat) (needReply : Bool) (data : δ) : Channel δ :=
  { s with msg := update s.msg m ⟨some self, needReply, data⟩ }

/-! ## Threads -/

def setThread (s : Channel δ) (t : Nat) (x : ChannelThread) : Channel δ := { s with thread := update s.thread t x }

/-- A thread that gets on behind `rt_schedule`. -/
def ChannelPc.resumed : ChannelPc → ChannelPc
  | .send => .sendResumed
  | .recv => .recvResumed
  | pc => pc

/-- `rt_thread_resume`: a suspended thread leaves its list, its timer is stopped, and its function for wake-ups cleared. -/
def resume (s : Channel δ) (t : Nat) : Channel δ :=
  let x := s.thread t
  if x.pc = .send ∨ x.pc = .recv then
    { s with waitThread := s.waitThread.erase t, suspendThread := s.suspendThread.erase t }.setThread t
      { x with wakeup := none, timer := none, pc := ChannelPc.resumed x.pc }
  else s

def setError (s : Channel δ) (t : Nat) (error : Int) : Channel δ := s.setThread t { s.thread t with error := error }

/-- A message is accepted, with the next number. -/
def accept (s : Channel δ) (t m : Nat) (needReply : Bool) (data : δ) : Channel δ :=
  { s with
    accepted := s.accepted ++ [(t, needReply, data)]
    number := update s.number m s.accepted.length }.setThread t { s.thread t with request := s.accepted.length }

/-! ## `_rt_raw_channel_send_recv_timeout` -/

/-- A sender is put into the list, with a function for wake-ups and maybe a timer. -/
def suspendSender (s : Channel δ) (t : Nat) (wakeup : Wakeup) (time : Int) : Channel δ :=
  { s with waitThread := s.waitThread ++ [t] }.setThread t
    { s.thread t with wakeup := some wakeup, timer := if 0 < time then some .sender else none, pc := .send }

/-- The section that sends. `pending` is `lwp_suspend_sigcheck`, for a signal: the thread is not suspended then. -/
def sendRecvTimeout (max : Nat) (s : Channel δ) (t : Nat) (data : δ) (needReply : Bool) (time : Int) (pending : Bool) :
    Option (Channel δ) :=
  if needReply ∧ time = 0 then some s
  else
    match s.msgAlloc max with
    | none => some s
    | some (m, s) =>
      let s := s.msgInit m t needReply data
      let s := if needReply then s.setError t RT_EOK else s
      if needReply ∧ pending then some (s.msgFree m)
      else
        let s := s.accept t m needReply data
        match s.stat with
        | .idle | .active =>
          let s := if needReply then s.suspendSender t .senderWaitRecv time else s
          some { s with waitMsg := s.waitMsg ++ [m] }
        | .wait =>
          match s.suspendThread with
          | [] => none
          | recv :: _ =>
            let s :=
              if needReply then { s.suspendSender t .senderWaitReply time with reply := some t, stat := .active }
              else { s with stat := .idle }
            some ((s.setThread recv { s.thread recv with msgRet := some m, error := RT_EOK }).resume recv)

/-- Behind `rt_schedule`, up to the copy of the reply. -/
def sendResumed (s : Channel δ) (t : Nat) : Option (Channel δ) :=
  let x := s.thread t
  if x.error ≠ RT_EOK then some (s.setThread t { x with pc := .user })
  else
    match x.msgRet with
    | none => none
    | some m =>
      some { s.setThread t { x with pc := .sendFree } with returned := (x.request, t, (s.msg m).data) :: s.returned }

/-- The section that puts the reply back. -/
def sendFree (s : Channel δ) (t : Nat) : Option (Channel δ) :=
  match (s.thread t).msgRet with
  | none => none
  | some m => some ((s.msgFree m).setThread t { s.thread t with msgRet := none, pc := .user })

/-! ## `rt_raw_channel_reply` -/

def rawChannelReply (max : Nat) (s : Channel δ) (self : Nat) (data : δ) : Channel δ :=
  if s.stat ≠ .active then s
  else
    match s.reply with
    | none => s
    | some t =>
      match s.msgAlloc max with
      | none => s
      | some (m, s) =>
        let s := s.msgInit m self false data
        { (s.setThread t { s.thread t with msgRet := some m }).resume t with
          stat := .idle
          reply := none
          replies := (s.received.head?.map Prod.fst, t, data) :: s.replies }

/-! ## `_rt_raw_channel_recv_timeout` -/

/-- The section that takes a message, or suspends the thread. -/
def recvTimeout (s : Channel δ) (t : Nat) (time : Int) (pending : Bool) : Option (Channel δ) :=
  if s.stat ≠ .idle then some s
  else
    match s.waitMsg with
    | m :: rest =>
      let s := { s with waitMsg := rest, received := (s.number m, (s.msg m).data) :: s.received }
      if (s.msg m).needReply then
        match s.waitThread with
        | [] => none
        | sender :: senders =>
          some ({ s with waitThread := senders, reply := some sender, stat := .active }.msgFree m)
      else some (s.msgFree m)
    | [] =>
      if time = 0 ∨ pending then some s
      else
        some ({ s with suspendThread := s.suspendThread ++ [t], stat := .wait }.setThread t
          { s.thread t with
            error := RT_EOK, wakeup := some .receiver, timer := if 0 < time then some .receiver else none, pc := .recv })

/-- The section behind `rt_schedule`. -/
def recvResumed (s : Channel δ) (t : Nat) : Option (Channel δ) :=
  let x := s.thread t
  if x.error ≠ RT_EOK then some (s.setThread t { x with pc := .user })
  else
    match x.msgRet with
    | none => none
    | some m =>
      some ({ s with received := (s.number m, (s.msg m).data) :: s.received }.msgFree m |>.setThread t
        { x with msgRet := none, pc := .user })

/-! ## Wake-ups and timeouts -/

/-- What a sender leaves behind: the pointer for the reply, or its message. -/
def dropSender (s : Channel δ) (t : Nat) : Channel δ :=
  if s.stat = .active ∧ s.reply = some t then { s with stat := .idle, reply := none }
  else
    match s.waitMsg.find? fun m => (s.msg m).needReply ∧ (s.msg m).sender = some t with
    | none => s
    | some m => { s with waitMsg := s.waitMsg.erase m }.msgFree m

/-- `rt_thread_wakeup` of a suspended thread -/
def threadWakeup (s : Channel δ) (t : Nat) : Option (Channel δ) :=
  match (s.thread t).wakeup with
  | some .senderWaitRecv => some (((s.dropSender t).setError t (-RT_EINTR)).resume t)
  | some .senderWaitReply =>
    if s.stat = .active ∧ s.reply = some t then
      some (({ s with stat := .idle, reply := none }.setError t (-RT_EINTR)).resume t)
    else none
  | some .receiver =>
    match s.suspendThread with
    | [] => none
    | recv :: _ => some (({ s with stat := .idle }.setError t (-RT_EINTR)).resume recv)
  | none => some (s.resume t)

/-- `sender_timeout` and `receiver_timeout` -/
def threadTimeout (s : Channel δ) (t : Nat) : ChannelTimer → Channel δ
  | .sender => ((s.dropSender t).setError t (-RT_ETIMEOUT)).resume t
  | .receiver => ({ s with stat := .idle }.setError t (-RT_ETIMEOUT)).resume t

/-! ## The steps -/

inductive ChannelEv (δ : Type)
  | send (t : Nat) (data : δ) (needReply : Bool) (time : Int) (pending : Bool)
  | sendResumed (t : Nat)
  | sendFree (t : Nat)
  | reply (data : δ)
  | recv (time : Int) (pending : Bool)
  | recvResumed
  | wakeup (t : Nat)
  | timeout (t : Nat)

/-- The clients send, with and without a reply; the server replies and receives; resumed threads go on; and suspended threads
are woken up, and their timers end. -/
inductive Step (max server : Nat) : Channel δ → ChannelEv δ → Channel δ → Prop
  | send {s s' : Channel δ} {t : Nat} {data : δ} {needReply : Bool} {time : Int} {pending : Bool} (hne : t ≠ server)
      (ht : (s.thread t).pc = .user) (hr : s.sendRecvTimeout max t data needReply time pending = some s') :
      Step max server s (.send t data needReply time pending) s'
  | sendResumed {s s' : Channel δ} {t : Nat} (ht : (s.thread t).pc = .sendResumed) (hr : s.sendResumed t = some s') :
      Step max server s (.sendResumed t) s'
  | sendFree {s s' : Channel δ} {t : Nat} (ht : (s.thread t).pc = .sendFree) (hr : s.sendFree t = some s') :
      Step max server s (.sendFree t) s'
  | reply {s : Channel δ} (data : δ) (ht : (s.thread server).pc = .user) :
      Step max server s (.reply data) (s.rawChannelReply max server data)
  | recv {s s' : Channel δ} {time : Int} {pending : Bool} (ht : (s.thread server).pc = .user)
      (hr : s.recvTimeout server time pending = some s') : Step max server s (.recv time pending) s'
  | recvResumed {s s' : Channel δ} (ht : (s.thread server).pc = .recvResumed) (hr : s.recvResumed server = some s') :
      Step max server s .recvResumed s'
  | wakeup {s s' : Channel δ} {t : Nat} (ht : (s.thread t).pc = .send ∨ (s.thread t).pc = .recv)
      (hr : s.threadWakeup t = some s') : Step max server s (.wakeup t) s'
  | timeout {s : Channel δ} {t : Nat} {timer : ChannelTimer} (ht : (s.thread t).timer = some timer) :
      Step max server s (.timeout t) (s.threadTimeout t timer)

/-- A channel that was just opened, with any messages in the pool. -/
def init (msg : Nat → IpcMsg δ) : Channel δ :=
  ⟨msg, none, 0, .idle, none, [], [], [], fun _ => ⟨0, none, none, none, .user, 0⟩, [], fun _ => 0, [], [], []⟩

end Channel

end RtThread.LwpIpc
