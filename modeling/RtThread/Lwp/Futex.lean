import Mathlib.Logic.Function.Basic

/-!
# Futexes

`lwp_futex.c` (101–254): `futex_wait`, `futex_wake` and `sys_futex`, for the threads of one process and one address, with
what they use: `rt_mutex_take_interruptible` and `rt_mutex_release` for `_futex_lock`, `rt_thread_suspend_with_flag`,
`rt_thread_resume`, `rt_thread_wakeup` and `_thread_timeout`. A step is a section with interrupts disabled, or what lies
between two of them. Beside the state of the code there are the order in which the threads were put into the list, what
each wake did, and how each call ended.
-/

namespace RtThread.Futex

open Function (update)

inductive FutexOp
  /-- `FUTEX_WAIT`, with or without a timeout. -/
  | wait (value : Int) (timeout : Bool)
  | wake (number : Int)
  | other
deriving DecidableEq, Repr

/-- How a thread got on: by `futex_wake`, by its timer, by a wake-up for a signal, or without having waited. -/
inductive FutexEnd
  | wake
  | timer
  | signal
  | none
deriving DecidableEq, Repr

/-- Where a thread is: in user code; at `rt_mutex_take_interruptible`, suspended in it, and resumed in it; behind it; behind
the comparison with the expected value; suspended on the futex, and resumed; and at a release of the lock before an
error. -/
inductive FutexPc
  | user
  | take (op : FutexOp)
  | lockWait (op : FutexOp)
  | lockResumed (op : FutexOp)
  | locked (op : FutexOp)
  | block (op : FutexOp)
  | wait (op : FutexOp)
  | resumed (op : FutexOp) (how : FutexEnd)
  | unlock (op : FutexOp) (ret : Int)
deriving DecidableEq, Repr

structure FutexThread where
  error : Int
  /-- `thread_timer` runs. -/
  timer : Bool
  pc : FutexPc
deriving DecidableEq, Repr

structure FutexWorld where
  /-- `*uaddr` -/
  word : Int
  owner : Option Nat
  hold : Nat
  lockList : List Nat
  /-- `waiting_thread` -/
  waitList : List Nat
  thread : Nat → FutexThread
  /-- The place of each thread in the order of arrival, and how many there are. -/
  arrived : Nat → Nat
  arrivals : Nat
  /-- For each wake its number, the places of the threads that waited, and of those that it resumed. -/
  wakes : List (Int × List Nat × List Nat)
  /-- The calls that returned, how, and with what. -/
  returned : List (FutexOp × FutexEnd × Int)

def RT_EOK : Int := 0
def RT_ERROR : Int := 1
def RT_ETIMEOUT : Int := 2
def RT_ENOMEM : Int := 5
def RT_EINTR : Int := 9
def RT_EINVAL : Int := 10
def ENOSYS : Int := 38

namespace FutexWorld

def setError (s : FutexWorld) (t : Nat) (error : Int) : FutexWorld :=
  { s with thread := update s.thread t { s.thread t with error := error } }

def goto (s : FutexWorld) (t : Nat) (pc : FutexPc) : FutexWorld :=
  { s with thread := update s.thread t { s.thread t with pc := pc } }

/-- `sys_futex` returns. -/
def ret (s : FutexWorld) (t : Nat) (op : FutexOp) (how : FutexEnd) (value : Int) : FutexWorld :=
  { s.goto t .user with returned := (op, how, value) :: s.returned }

/-- `rt_thread_resume`: a suspended thread leaves its list, and its timer is stopped. -/
def resume (s : FutexWorld) (t : Nat) (how : FutexEnd) : FutexWorld :=
  match (s.thread t).pc with
  | .lockWait op =>
    { s with lockList := s.lockList.erase t, thread := update s.thread t ⟨(s.thread t).error, false, .lockResumed op⟩ }
  | .wait op =>
    { s with waitList := s.waitList.erase t, thread := update s.thread t ⟨(s.thread t).error, false, .resumed op how⟩ }
  | _ => s

/-! ## The lock -/

/-- `_rt_mutex_take` up to `rt_schedule`. `pending` is `lwp_suspend_sigcheck`, for a signal; the threads that wait are in the
order of their priorities, so that the place of a new one is any. -/
def rtMutexTake (s : FutexWorld) (t : Nat) (op : FutexOp) (pending : Bool) (place : Nat) : FutexWorld :=
  let s := s.setError t RT_EOK
  match s.owner with
  | none => { s with owner := some t, hold := 1 }.goto t (.locked op)
  | some self =>
    if self = t then { s with hold := s.hold + 1 }.goto t (.locked op)
    else if pending then s.ret t op .none (-RT_EINTR)
    else { s with lockList := s.lockList.take place ++ t :: s.lockList.drop place }.goto t (.lockWait op)

/-- `_rt_mutex_take` behind `rt_schedule`. -/
def rtMutexTaken (s : FutexWorld) (t : Nat) (op : FutexOp) : FutexWorld :=
  if (s.thread t).error = RT_EOK then s.goto t (.locked op) else s.ret t op .none (-RT_EINTR)

def rtMutexRelease (s : FutexWorld) (t : Nat) : FutexWorld :=
  if s.owner = some t then
    if s.hold - 1 = 0 then
      match s.lockList with
      | [] => { s with owner := none, hold := 0 }
      | next :: _ => { s with owner := some next, hold := 1 }.resume next .none
    else { s with hold := s.hold - 1 }
  else s.setError t (-RT_ERROR)

/-! ## `futex_wait` and `futex_wake` -/

/-- The comparison with the expected value. -/
def check (s : FutexWorld) (t : Nat) (value : Int) (timeout : Bool) : FutexWorld :=
  if s.word = value then s.goto t (.block (.wait value timeout))
  else s.goto t (.unlock (.wait value timeout) (-RT_EINTR))

/-- The section that suspends the thread. -/
def block (s : FutexWorld) (t : Nat) (value : Int) (timeout pending : Bool) : FutexWorld :=
  if pending then (s.ret t (.wait value timeout) .none (-RT_EINTR)).rtMutexRelease t
  else
    let thread : FutexThread := ⟨(s.thread t).error, timeout, .wait (.wait value timeout)⟩
    { s with
      waitList := s.waitList ++ [t]
      thread := update s.thread t thread
      arrived := update s.arrived t s.arrivals
      arrivals := s.arrivals + 1 }.rtMutexRelease t

/-- The loop of `futex_wake`, and the threads that it resumed. -/
def wakeLoop : Nat → Int → FutexWorld → FutexWorld × List Nat
  | 0, _, s => (s, [])
  | fuel + 1, number, s =>
    match s.waitList with
    | [] => (s, [])
    | t :: _ =>
      if number = 0 then (s, [])
      else
        let (s, ts) := wakeLoop fuel (number - 1) ((s.setError t RT_EOK).resume t .wake)
        (s, t :: ts)

def futexWake (s : FutexWorld) (t : Nat) (number : Int) : FutexWorld :=
  let (s', ts) := wakeLoop s.waitList.length number s
  let s' := { s' with wakes := (number, s.waitList.map s.arrived, ts.map s.arrived) :: s.wakes }
  (s'.ret t (.wake number) .none 0).rtMutexRelease t

/-- `_thread_timeout` -/
def threadTimeout (s : FutexWorld) (t : Nat) : FutexWorld := (s.setError t (-RT_ETIMEOUT)).resume t .timer

/-! ## The steps -/

inductive FutexEv
  | store (value : Int)
  | setError (t : Nat) (error : Int)
  | call (t : Nat) (op : FutexOp)
  | denied (t : Nat)
  | take (t : Nat) (pending : Bool) (place : Nat)
  | reorder (lockList : List Nat)
  | taken (t : Nat)
  | noMemory (t : Nat)
  | check (t : Nat)
  | block (t : Nat) (pending : Bool)
  | wake (t : Nat)
  | other (t : Nat)
  | unlock (t : Nat)
  | timeout (t : Nat)
  | signal (t : Nat)
  | ret (t : Nat)

/-- A thread in user code stores to the address, makes other calls, and calls `sys_futex`, where the memory of the arguments
may not be accessible, or no memory be left for the futex; priorities change, and with them the order of the threads that
wait for the lock; timers end; and signals wake threads up that are suspended. -/
inductive Step : FutexWorld → FutexEv → FutexWorld → Prop
  | store {s : FutexWorld} (value : Int) : Step s (.store value) { s with word := value }
  | setError {s : FutexWorld} {t : Nat} (error : Int) (ht : (s.thread t).pc = .user) :
      Step s (.setError t error) (s.setError t error)
  | call {s : FutexWorld} {t : Nat} (op : FutexOp) (ht : (s.thread t).pc = .user) : Step s (.call t op) (s.goto t (.take op))
  | denied {s : FutexWorld} {t : Nat} {op : FutexOp} (ht : (s.thread t).pc = .take op) :
      Step s (.denied t) (s.ret t op .none (-RT_EINVAL))
  | take {s : FutexWorld} {t : Nat} {op : FutexOp} (pending : Bool) (place : Nat) (ht : (s.thread t).pc = .take op) :
      Step s (.take t pending place) (s.rtMutexTake t op pending place)
  | reorder {s : FutexWorld} {lockList : List Nat} (hl : lockList.Perm s.lockList) :
      Step s (.reorder lockList) { s with lockList := lockList }
  | taken {s : FutexWorld} {t : Nat} {op : FutexOp} (ht : (s.thread t).pc = .lockResumed op) :
      Step s (.taken t) (s.rtMutexTaken t op)
  | noMemory {s : FutexWorld} {t : Nat} {op : FutexOp} (ht : (s.thread t).pc = .locked op) :
      Step s (.noMemory t) (s.goto t (.unlock op (-RT_ENOMEM)))
  | check {s : FutexWorld} {t : Nat} {value : Int} {timeout : Bool} (ht : (s.thread t).pc = .locked (.wait value timeout)) :
      Step s (.check t) (s.check t value timeout)
  | block {s : FutexWorld} {t : Nat} {value : Int} {timeout : Bool} (pending : Bool)
      (ht : (s.thread t).pc = .block (.wait value timeout)) : Step s (.block t pending) (s.block t value timeout pending)
  | wake {s : FutexWorld} {t : Nat} {number : Int} (ht : (s.thread t).pc = .locked (.wake number)) :
      Step s (.wake t) (s.futexWake t number)
  | other {s : FutexWorld} {t : Nat} (ht : (s.thread t).pc = .locked .other) :
      Step s (.other t) (s.goto t (.unlock .other (-ENOSYS)))
  | unlock {s : FutexWorld} {t : Nat} {op : FutexOp} {value : Int} (ht : (s.thread t).pc = .unlock op value) :
      Step s (.unlock t) ((s.ret t op .none value).rtMutexRelease t)
  | timeout {s : FutexWorld} {t : Nat} (ht : (s.thread t).timer = true) : Step s (.timeout t) (s.threadTimeout t)
  | signal {s : FutexWorld} (t : Nat) : Step s (.signal t) (s.resume t .signal)
  | ret {s : FutexWorld} {t : Nat} {op : FutexOp} {how : FutexEnd} (ht : (s.thread t).pc = .resumed op how) :
      Step s (.ret t) (s.ret t op how (s.thread t).error)

/-- All threads run user code, with any error fields. -/
def init (word : Int) (error : Nat → Int) : FutexWorld :=
  ⟨word, none, 0, [], [], fun t => ⟨error t, false, .user⟩, fun _ => 0, 0, [], []⟩

end FutexWorld

end RtThread.Futex
