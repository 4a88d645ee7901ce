import RtThread.Drivers.RingFifo
import RtThread.Drivers.WaitQueue

/-!
# Pipes

`pipe_fops_open`, `pipe_fops_close`, `pipe_fops_read` and `pipe_fops_write` (`pipe.c`), called by any threads on any
descriptors. A step is a section under `pipe->lock`, or one of a wait queue outside of it. `vnode->ref_count` is the number
of descriptors. `O_RDONLY` is 0, `O_WRONLY` 1 and `O_RDWR` 2, so a descriptor opened with `O_RDWR` does not pass the test
for `O_WRONLY`. The lengths of writes are below 2^31, what an `int` counts.
-/

namespace RtThread

/-- The access mode of `fd->flags`. -/
inductive AccessMode
  | rdonly
  | wronly
  | rdwr
deriving DecidableEq, Repr

/-- `(flags & O_WRONLY) == O_WRONLY`. -/
def AccessMode.hasWronly : AccessMode → Bool
  | .wronly => true
  | _ => false

/-- Opened for writing. -/
def AccessMode.Writes (mode : AccessMode) : Prop := mode ≠ .rdonly

instance (mode : AccessMode) : Decidable mode.Writes := inferInstanceAs (Decidable (mode ≠ .rdonly))

/-- A descriptor of the pipe: `fd->flags`. -/
structure PipeFd where
  fd : Nat
  mode : AccessMode
  nonblock : Bool
deriving DecidableEq, Repr

/-- The pipe: `bufsz`, as `rt_pipe_create` and `rt_ringbuffer_create` assert it, and `is_named`. -/
structure PipeConfig where
  word : Word
  bufsz : Nat
  isNamed : Bool
  bufsz_pos : 0 < bufsz
  bufsz_lt : bufsz < 0xFFFF

/-- Who waits in a queue. -/
inductive PipeSide
  | readers
  | writers
deriving DecidableEq, Repr

/-- A call under way: what it has to read, or what it has still to write (the `count - ret` bytes at `pbuf`) and `ret`. -/
inductive PipeCall
  | read (nonblock : Bool) (count : Nat)
  | write (nonblock : Bool) (rest : List (BitVec 8)) (ret : Nat)
deriving DecidableEq, Repr

def PipeCall.side : PipeCall → PipeSide
  | .read _ _ => .readers
  | .write _ _ _ => .writers

def PipeSide.other : PipeSide → PipeSide
  | .readers => .writers
  | .writers => .readers

/-- Where a thread is: it takes the lock next; it has released it and wakes up the other side; it waits next; it is
suspended; it has been resumed; it has cleared the flag; or it has written, what it returns (`none` for `-EAGAIN`), and wakes
up the readers. -/
inductive PipeStage
  | idle
  | lock (call : PipeCall)
  | wakeup (call : PipeCall)
  | wait (call : PipeCall)
  | suspended (call : PipeCall)
  | resumed (call : PipeCall)
  | leaving (call : PipeCall)
  | done (ret : Option Nat)
deriving DecidableEq, Repr

/-- `rt_pipe_t` (`writer`, the two queues and `fifo`), its descriptors, whether it is deleted, and the threads. -/
structure PipeState where
  fifo : Option RtRingbuffer
  writer : Bool
  queue : PipeSide → RtWqueue
  fds : List PipeFd
  deleted : Bool
  thread : ThreadId → PipeStage

inductive PipeEv
  | open (fd : Nat) (mode : AccessMode) (nonblock alloc : Bool)
  | close (fd : Nat)
  | read (t : ThreadId) (fd count : Nat)
  | write (t : ThreadId) (fd : Nat) (data : List (BitVec 8))
  | lock (t : ThreadId)
  | wakeup (t : ThreadId)
  | wait (t : ThreadId)
  | clean (t : ThreadId)
  | remove (t : ThreadId)
deriving DecidableEq, Repr

/-- What a step returns: the result of an open, the bytes read (none for the value 0), the value of a write, `-EAGAIN`,
or nothing yet. -/
inductive PipeRet
  | opened (ok : Bool)
  | got (bytes : List (BitVec 8))
  | wrote (ret : Nat)
  | eagain
  | none
deriving DecidableEq, Repr

namespace PipeState

def initial : PipeState := ⟨none, false, fun _ => .init, [], false, fun _ => .idle⟩

def setThread (s : PipeState) (t : ThreadId) (stage : PipeStage) : PipeState :=
  { s with thread := Function.update s.thread t stage }

def setQueue (s : PipeState) (side : PipeSide) (q : RtWqueue) : PipeState :=
  { s with queue := Function.update s.queue side q }

def setFifo (s : PipeState) (fifo : Option RtRingbuffer) : PipeState := { s with fifo := fifo }

/-- `rt_thread_resume` -/
def rtThreadResume (s : PipeState) (t : ThreadId) : PipeState :=
  match s.thread t with
  | .suspended call => s.setThread t (.resumed call)
  | _ => s

/-- `rt_wqueue_wakeup`: the first thread of the queue is resumed and taken out. -/
def rtWqueueWakeup (s : PipeState) (side : PipeSide) : PipeState :=
  match (s.queue side).waitingList with
  | [] => s.setQueue side ⟨true, []⟩
  | t :: ts => (s.rtThreadResume t).setQueue side ⟨true, ts⟩

/-- The wakeups of `pipe_fops_close`, while there is a thread in the list. -/
def wakeupReaders (s : PipeState) : PipeState :=
  (fun s => s.rtWqueueWakeup .readers)^[(s.queue .readers).waitingList.length] s

/-- `pipe_fops_open`. A descriptor whose open fails is not opened; `writer` has been set. -/
def pipeFopsOpen (c : PipeConfig) (s : PipeState) (f : PipeFd) (alloc : Bool) : PipeState × PipeRet :=
  let s := { s with writer := s.writer || f.mode.hasWronly }
  if s.fds.length + 1 = 1 then
    if alloc then
      ({ s with fifo := some (rtRingbufferInit c.word (fun _ => 0) c.bufsz), fds := f :: s.fds }, .opened true)
    else ({ s with fifo := none }, .opened false)
  else ({ s with fds := f :: s.fds }, .opened true)

/-- The end of `pipe_fops_close`: the last descriptor takes the fifo along, and an unnamed pipe. -/
def dropFd (c : PipeConfig) (s : PipeState) (f : PipeFd) : PipeState :=
  if s.fds.length = 1 then { s with fifo := none, deleted := !c.isNamed, fds := s.fds.erase f }
  else { s with fds := s.fds.erase f }

/-- `pipe_fops_close` -/
def pipeFopsClose (c : PipeConfig) (s : PipeState) (f : PipeFd) : PipeState :=
  dropFd c (if f.mode.hasWronly then { s with writer := false }.wakeupReaders else s) f

/-- The section of `pipe_fops_read` under the lock. -/
def pipeFopsRead (s : PipeState) (t : ThreadId) (rb : RtRingbuffer) (nonblock : Bool) (count : Nat) :
    PipeState × PipeRet :=
  let (len, buf, rb) := rtRingbufferGet rb (fun _ => 0) (count % 2 ^ 32)
  let s := s.setFifo (some rb)
  if 0 < len ∨ s.writer = false then
    ((s.setThread t .idle).rtWqueueWakeup .writers, .got (RtRingbuffer.bytes buf len))
  else if nonblock then (s.setThread t .idle, .eagain)
  else (s.setThread t (.wakeup (.read nonblock count)), .none)

/-- The section of `pipe_fops_write` under the lock. -/
def pipeFopsWrite (s : PipeState) (t : ThreadId) (rb : RtRingbuffer) (nonblock : Bool) (rest : List (BitVec 8))
    (ret : Nat) : PipeState × PipeRet :=
  let (len, rb) := rtRingbufferPut rb (fun i => rest.getD i 0) rest.length
  let ret := ret + len
  let s := s.setFifo (some rb)
  if rest.drop len = [] then (s.setThread t (.done (some ret)), .none)
  else if nonblock then (s.setThread t (.done (if ret = 0 then none else some ret)), .none)
  else (s.setThread t (.wakeup (.write nonblock (rest.drop len) ret)), .none)

/-- `rt_wqueue_wait(queue, 0, -1)`, up to the call of `rt_schedule`. -/
def rtWqueueWait (s : PipeState) (t : ThreadId) (call : PipeCall) : PipeState :=
  let q := s.queue call.side
  if q.flag then (s.setQueue call.side { q with flag := false }).setThread t (.leaving call)
  else (s.setQueue call.side { q with waitingList := q.waitingList ++ [t] }).setThread t (.suspended call)

def step (c : PipeConfig) (s : PipeState) : PipeEv → Option (PipeState × PipeRet)
  | .open fd mode nonblock alloc =>
    if s.deleted = false ∧ ∀ f ∈ s.fds, f.fd ≠ fd then some (s.pipeFopsOpen c ⟨fd, mode, nonblock⟩ alloc) else none
  | .close fd => (s.fds.find? fun f => f.fd = fd).map fun f => (s.pipeFopsClose c f, .none)
  | .read t fd count =>
    match s.thread t, s.fds.find? fun f => f.fd = fd with
    | .idle, some f => some (s.setThread t (.lock (.read f.nonblock count)), .none)
    | _, _ => none
  | .write t fd data =>
    match s.thread t, s.fds.find? fun f => f.fd = fd with
    | .idle, some f =>
      if data = [] then some (s, .wrote 0) else some (s.setThread t (.lock (.write f.nonblock data 0)), .none)
    | _, _ => none
  | .lock t =>
    match s.thread t, s.fifo with
    | .lock (.read nonblock count), some rb => some (s.pipeFopsRead t rb nonblock count)
    | .lock (.write nonblock rest ret), some rb => some (s.pipeFopsWrite t rb nonblock rest ret)
    | _, _ => none
  | .wakeup t =>
    match s.thread t with
    | .wakeup call => some ((s.setThread t (.wait call)).rtWqueueWakeup call.side.other, .none)
    | .done ret => some ((s.setThread t .idle).rtWqueueWakeup .readers, ret.elim .eagain .wrote)
    | _ => none
  | .wait t =>
    match s.thread t with
    | .wait call => some (s.rtWqueueWait t call, .none)
    | _ => none
  | .clean t =>
    match s.thread t with
    | .resumed call =>
      some ((s.setQueue call.side { s.queue call.side with flag := false }).setThread t (.leaving call), .none)
    | _ => none
  | .remove t =>
    match s.thread t with
    | .leaving call =>
      let q := s.queue call.side
      some ((s.setQueue call.side { q with waitingList := q.waitingList.erase t }).setThread t (.lock call), .none)
    | _ => none

def Step (c : PipeConfig) (s : PipeState) (x : PipeEv × PipeRet) (s' : PipeState) : Prop :=
  s.step c x.1 = some (s', x.2)

end PipeState

end RtThread
