import Mathlib.Logic.Function.Basic
import RtThread.Lib.Runs

/-!
# The end of processes

`lwp_pid.c`: `lwp_ref_dec` and `lwp_free` (355–550), and `waitpid` (628–693). A step is a section with interrupts
disabled, or what lies between two of them. A structure is known by the order in which it was allocated, and its fields
are maps; an access to one that is freed, or through a null pointer, has no result. A thread that has ended, or has not
been made, is `none`. A process has a reference for each of its threads.
-/

namespace RtThread

/-- Where a thread is: in user code; suspended in `waitpid`; or resumed there, with its local `pid` and `lwp`. -/
inductive WaitPc
  | user
  | wait (pid lwp : Nat)
  | resumed (pid lwp : Nat)
deriving DecidableEq, Repr

structure LwpThread where
  lwp : Nat
  error : Int
  pc : WaitPc
deriving DecidableEq, Repr

/-- Where `lwp_free` is: before `finish` is set; freeing what the process owns; at the loop over the children, and at the
`rt_free` in it; at the terminal; at the section for the parent, and at the `rt_free` behind it. -/
inductive FreePc
  | finish
  | release
  | children
  | freeChild (child : Nat)
  | terminal
  | parent
  | free
deriving DecidableEq, Repr

structure LwpWorld where
  allocated : Nat → Bool
  parent : Nat → Option Nat
  firstChild : Nat → Option Nat
  sibling : Nat → Option Nat
  waitList : Nat → List Nat
  finish : Nat → Bool
  lwpRet : Nat → Int
  ref : Nat → Nat
  pid : Nat → Nat
  /-- `lwp_from_pid` -/
  pidOwner : Nat → Option Nat
  thread : Nat → Option LwpThread
  freePc : Nat → Option FreePc
  nextLwp : Nat
  nextThread : Nat
  /-- The structures that `rt_free` got, those whose pid `lwp_pid_put` got, and what `waitpid` returned: the pid, whose it
  was, and the value stored. -/
  frees : List Nat
  puts : List Nat
  returned : List (Nat × Nat × Int)

namespace LwpWorld

open Function (update)

def RT_EOK : Int := 0
def RT_EINTR : Int := 9

/-! ## Memory and pids -/

def rtFree (s : LwpWorld) (lwp : Nat) : Option LwpWorld :=
  if s.allocated lwp then some { s with allocated := update s.allocated lwp false, frees := lwp :: s.frees } else none

/-- `lwp_pid_put(pid)`, for the pid of a structure. -/
def lwpPidPut (s : LwpWorld) (lwp pid : Nat) : LwpWorld :=
  { s with pidOwner := update s.pidOwner pid none, puts := lwp :: s.puts }

/-- A thread goes on. -/
def goto (s : LwpWorld) (t : Nat) (thread : LwpThread) (pc : WaitPc) : LwpWorld :=
  { s with thread := update s.thread t (some { thread with pc := pc }) }

/-! ## The list of children -/

/-- `struct rt_lwp **` -/
inductive LwpPlace
  | firstChild (lwp : Nat)
  | sibling (lwp : Nat)

def get (s : LwpWorld) : LwpPlace → Option (Option Nat)
  | .firstChild lwp => if s.allocated lwp then some (s.firstChild lwp) else none
  | .sibling lwp => if s.allocated lwp then some (s.sibling lwp) else none

def put (s : LwpWorld) (place : LwpPlace) (x : Option Nat) : LwpWorld :=
  match place with
  | .firstChild lwp => { s with firstChild := update s.firstChild lwp x }
  | .sibling lwp => { s with sibling := update s.sibling lwp x }

/-- `while (*it != lwp) it = &(*it)->sibling; *it = lwp->sibling;` -/
def unlinkLoop (s : LwpWorld) (lwp : Nat) : Nat → LwpPlace → Option LwpWorld
  | 0, _ => none
  | fuel + 1, it =>
    match s.get it with
    | none => none
    | some none => none
    | some (some x) =>
      if x = lwp then (if s.allocated lwp then some (s.put it (s.sibling lwp)) else none)
      else s.unlinkLoop lwp fuel (.sibling x)

def unlink (s : LwpWorld) (parent lwp : Nat) : Option LwpWorld :=
  s.unlinkLoop lwp (s.nextLwp + 1) (.firstChild parent)

/-! ## `lwp_free` -/

/-- The loop over the children, up to a finished one. -/
def childrenLoop (lwp : Nat) : Nat → LwpWorld → Option LwpWorld
  | 0, _ => none
  | fuel + 1, s =>
    match s.firstChild lwp with
    | none => some { s with freePc := update s.freePc lwp (some .terminal) }
    | some child =>
      if s.allocated child then
        let s := { s with firstChild := update s.firstChild lwp (s.sibling child) }
        if s.finish child then
          some { s.lwpPidPut child (s.pid child) with freePc := update s.freePc lwp (some (.freeChild child)) }
        else
          childrenLoop lwp fuel
            { s with sibling := update s.sibling child none, parent := update s.parent child none }
      else
        none

/-- The pid is given back, and the structure is going to be freed. -/
def putSelf (s : LwpWorld) (lwp : Nat) : LwpWorld :=
  { s.lwpPidPut lwp (s.pid lwp) with freePc := update s.freePc lwp (some .free) }

/-- The section for the parent. -/
def freeParent (s : LwpWorld) (lwp : Nat) : Option LwpWorld :=
  match s.parent lwp with
  | none => some (s.putSelf lwp)
  | some parent =>
    match s.waitList lwp with
    | t :: rest =>
      match s.thread t with
      | some ⟨self, _, .wait pid child⟩ =>
        -- `rt_thread_resume` takes the thread out of the list
        some ({ s with waitList := update s.waitList lwp rest, freePc := update s.freePc lwp none }.goto t
          ⟨self, RT_EOK, .wait pid child⟩ (.resumed pid child))
      | _ => none
    | [] =>
      match s.unlink parent lwp with
      | none => none
      | some s => some (s.putSelf lwp)

/-- The next step of `lwp_free`. -/
def lwpFree (s : LwpWorld) (lwp : Nat) (pc : FreePc) : Option LwpWorld :=
  if s.allocated lwp then
    match pc with
    | .finish => some { s with finish := update s.finish lwp true, freePc := update s.freePc lwp (some .release) }
    | .release => some { s with freePc := update s.freePc lwp (some .children) }
    | .children => childrenLoop lwp (s.nextLwp + 1) s
    | .freeChild child =>
      match s.rtFree child with
      | none => none
      | some s => some { s with freePc := update s.freePc lwp (some .children) }
    | .terminal => some { s with freePc := update s.freePc lwp (some .parent) }
    | .parent => s.freeParent lwp
    | .free =>
      match s.rtFree lwp with
      | none => none
      | some s => some { s with freePc := update s.freePc lwp none }
  else
    none

/-- `lwp_ref_dec`, as a thread of the process ends. -/
def lwpRefDec (s : LwpWorld) (lwp : Nat) : Option LwpWorld :=
  if s.allocated lwp then
    some { s with
      ref := update s.ref lwp (s.ref lwp - 1)
      freePc := if s.ref lwp - 1 = 0 then update s.freePc lwp (some .finish) else s.freePc }
  else
    none

/-! ## `waitpid` -/

/-- The end of `waitpid` with `ret != -1`. -/
def reap (s : LwpWorld) (t : Nat) (thread : LwpThread) (pid lwp : Nat) : Option LwpWorld :=
  if s.allocated lwp then
    match s.unlink thread.lwp lwp with
    | none => none
    | some s' =>
      match (s'.lwpPidPut lwp pid).rtFree lwp with
      | none => none
      | some s' => some ({ s' with returned := (pid, lwp, s.lwpRet lwp) :: s.returned }.goto t thread .user)
  else
    none

/-- Up to `rt_schedule`, or to the end. -/
def waitpid (s : LwpWorld) (t : Nat) (thread : LwpThread) (pid : Nat) : Option LwpWorld :=
  match s.pidOwner pid with
  | none => some s
  | some lwp =>
    if s.allocated lwp then
      if s.parent lwp ≠ some thread.lwp then
        some s
      else if s.finish lwp then
        s.reap t thread pid lwp
      else if s.waitList lwp ≠ [] then
        some s
      else
        some ({ s with waitList := update s.waitList lwp [t] }.goto t thread (.wait pid lwp))
    else
      none

/-- Behind `rt_schedule`. -/
def waitpidResumed (s : LwpWorld) (t : Nat) (thread : LwpThread) (pid lwp : Nat) : Option LwpWorld :=
  if thread.error = RT_EOK then s.reap t thread pid lwp else some (s.goto t thread .user)

/-! ## The steps -/

/-- A new process, with a thread. `lwp_new`, and the link to the parent. -/
def fork (s : LwpWorld) (pid : Nat) (parent : Option Nat) : LwpWorld :=
  let lwp := s.nextLwp
  let s := { s with
    allocated := update s.allocated lwp true
    parent := update s.parent lwp none
    firstChild := update s.firstChild lwp none
    sibling := update s.sibling lwp none
    waitList := update s.waitList lwp []
    finish := update s.finish lwp false
    lwpRet := update s.lwpRet lwp 0
    ref := update s.ref lwp 1
    pid := update s.pid lwp pid
    pidOwner := update s.pidOwner pid (some lwp)
    thread := update s.thread s.nextThread (some ⟨lwp, RT_EOK, .user⟩)
    nextLwp := lwp + 1
    nextThread := s.nextThread + 1 }
  match parent with
  | none => s
  | some self =>
    { s with
      sibling := update s.sibling lwp (s.firstChild self)
      firstChild := update s.firstChild self (some lwp)
      parent := update s.parent lwp (some self) }

inductive LwpEv
  | fork (pid : Nat) (parent : Option Nat)
  | spawn (t : Nat)
  | setRet (t : Nat) (lwp : Nat) (value : Int)
  | exit (t : Nat)
  | interrupt (t : Nat)
  | free (lwp : Nat)
  | waitpid (t pid : Nat)
  | resumed (t : Nat)

/-- A thread that runs user code makes a process or a thread, sets the value that its process returns, ends, or calls
`waitpid` with any pid; a waiting thread is interrupted; and `lwp_free` and resumed threads go on. -/
inductive Step : LwpWorld → LwpEv → LwpWorld → Prop
  | boot {s : LwpWorld} {pid : Nat} (hpid : s.pidOwner pid = none) : Step s (.fork pid none) (s.fork pid none)
  | fork {s : LwpWorld} {t pid self : Nat} {error : Int} (ht : s.thread t = some ⟨self, error, .user⟩)
      (hpid : s.pidOwner pid = none) : Step s (.fork pid (some self)) (s.fork pid (some self))
  | spawn {s : LwpWorld} {t self : Nat} {error : Int} (ht : s.thread t = some ⟨self, error, .user⟩) :
      Step s (.spawn t) { s with
        ref := update s.ref self (s.ref self + 1)
        thread := update s.thread s.nextThread (some ⟨self, RT_EOK, .user⟩)
        nextThread := s.nextThread + 1 }
  | setRet {s : LwpWorld} {t self : Nat} {error value : Int} (ht : s.thread t = some ⟨self, error, .user⟩) :
      Step s (.setRet t self value) { s with lwpRet := update s.lwpRet self value }
  | exit {s s' : LwpWorld} {t self : Nat} {error : Int} (ht : s.thread t = some ⟨self, error, .user⟩)
      (hr : { s with thread := update s.thread t none }.lwpRefDec self = some s') : Step s (.exit t) s'
  | interrupt {s : LwpWorld} {t self pid lwp : Nat} {error : Int} (ht : s.thread t = some ⟨self, error, .wait pid lwp⟩) :
      Step s (.interrupt t) ({ s with waitList := update s.waitList lwp ((s.waitList lwp).erase t) }.goto t
        ⟨self, RT_EINTR, .wait pid lwp⟩ (.resumed pid lwp))
  | free {s s' : LwpWorld} {lwp : Nat} {pc : FreePc} (hpc : s.freePc lwp = some pc) (hr : s.lwpFree lwp pc = some s') :
      Step s (.free lwp) s'
  | waitpid {s s' : LwpWorld} {t pid self : Nat} {error : Int} (ht : s.thread t = some ⟨self, error, .user⟩)
      (hr : s.waitpid t ⟨self, error, .user⟩ pid = some s') : Step s (.waitpid t pid) s'
  | resumed {s s' : LwpWorld} {t self pid lwp : Nat} {error : Int}
      (ht : s.thread t = some ⟨self, error, .resumed pid lwp⟩)
      (hr : s.waitpidResumed t ⟨self, error, .resumed pid lwp⟩ pid lwp = some s') : Step s (.resumed t) s'

/-- No process. -/
def init : LwpWorld :=
  ⟨fun _ => false, fun _ => none, fun _ => none, fun _ => none, fun _ => [], fun _ => false, fun _ => 0, fun _ => 0, fun _ => 0,
    fun _ => none, fun _ => none, fun _ => none, 0, 0, [], [], []⟩

end LwpWorld

end RtThread
