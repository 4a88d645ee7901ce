import RtThread.Kernel.Types

/-!
# Signals

`signal.c`: `rt_thread_kill` queues a `siginfo_node` in the `si_list` of a thread and sets a bit of its `sig_pending`;
`rt_thread_handle_sig` and `rt_signal_wait` take nodes off again. A step of the system is one section with interrupts
disabled, or what a function does between two of them; the rest of a call stands on the frames of its context.
-/

namespace RtThread

/-- `siginfo_t`. -/
structure Siginfo where
  siSigno : Nat
  siCode : Nat
  siValue : Nat
  deriving DecidableEq, Repr

/-- `struct siginfo_node`, a block of `_siginfo_pool`. Its link is its place in `si_list`. -/
structure SiginfoNode where
  block : Nat
  si : Siginfo
  deriving DecidableEq, Repr

/-- What is in `sig_vectors`: null (the signal is ignored), `_signal_default_handler`, or another function. -/
inductive SigHandler
  | null
  | default
  | user (f : Nat)
  deriving DecidableEq, Repr

inductive SigError
  | eok
  | etimeout
  | eintr
  | einval
  deriving DecidableEq, Repr

/-- The fields of `struct rt_thread` that `signal.c` reads: the signals, and the bits of `stat`. -/
structure SigThread where
  sigPending : BitVec 32
  sigMask : BitVec 32
  sigVectors : Option (Nat → SigHandler)
  siList : List SiginfoNode
  suspended : Bool
  statSignal : Bool
  statSignalWait : Bool
  statSignalPending : Bool
  error : SigError

/-- What a call still has to do. -/
inductive SigFrame
  /-- `rt_thread_kill`, before the allocation of the node. -/
  | killAlloc (tid : ThreadId) (sig : Nat)
  /-- `rt_thread_kill`, with the node. -/
  | killAppend (tid : ThreadId) (node : SiginfoNode)
  /-- Before the call of `_signal_deliver`. -/
  | deliver (tid : ThreadId)
  /-- `rt_thread_handle_sig`, in the handler of the signal of the node. -/
  | handler (node : SiginfoNode) (cleanState : Bool)
  /-- `rt_signal_wait`, after it has suspended the thread. -/
  | wait (set : BitVec 32)
  deriving DecidableEq, Repr

structure Signals where
  thread : ThreadId → SigThread
  /-- The free blocks of `_siginfo_pool`. -/
  free : List Nat
  frames : Context → List SigFrame

/-- `sig_mask(sig_no)`. -/
def sigMask (sigNo : Nat) : BitVec 32 := 1#32 <<< sigNo

/-- `RT_SIG_MAX`. -/
def sigMax : Nat := 32

/-- `SI_USER`. -/
def siUser : Nat := 1

/-- `sig_valid(sig_no)`. -/
def sigValid (sigNo : Int) : Bool := 0 ≤ sigNo ∧ sigNo < sigMax

/-! ## The signals of a thread -/

namespace SigThread

/-- An unmasked signal is pending. -/
def interested (th : SigThread) : Bool := th.sigPending &&& th.sigMask ≠ 0

/-- `rt_signal_install` with a valid signal; `rt_thread_alloc_sig` fills new vectors with the default handler. -/
def install (th : SigThread) (signo : Nat) (handler : SigHandler) : SigThread :=
  let vectors := th.sigVectors.getD fun _ => .default
  { th with sigVectors := some (Function.update vectors signo handler) }

/-- The loop over `si_list` that updates the information of a signal that is pending already. -/
def update (sig : Nat) (si : Siginfo) : List SiginfoNode → Option (List SiginfoNode)
  | [] => none
  | entry :: nodes =>
    if entry.si.siSigno = sig then some ({ entry with si := si } :: nodes)
    else (update sig si nodes).map (entry :: ·)

/-- The first section of `rt_thread_kill`, if it returns from there. -/
def killTest (th : SigThread) (sig : Nat) : Option SigThread :=
  if th.sigPending &&& RtThread.sigMask sig ≠ 0 then
    (update sig ⟨sig, siUser, 0⟩ th.siList).map fun nodes => { th with siList := nodes }
  else none

/-- The second section of `rt_thread_kill`. -/
def killAppend (th : SigThread) (node : SiginfoNode) : SigThread :=
  { th with siList := th.siList ++ [node], sigPending := th.sigPending ||| RtThread.sigMask node.si.siSigno }

/-- One turn of the loop of `rt_thread_handle_sig`, up to the handler. -/
def handleTurn (th : SigThread) : Option (SiginfoNode × SigThread) :=
  if th.interested then
    match th.siList with
    | [] => none
    | node :: nodes =>
      some (node, { th with siList := nodes, sigPending := th.sigPending &&& ~~~RtThread.sigMask node.si.siSigno })
  else none

/-- The loop of `rt_signal_wait`: the first node of a signal in `set`, and the others. -/
def takeFirst (set : BitVec 32) : List SiginfoNode → Option (SiginfoNode × List SiginfoNode)
  | [] => none
  | node :: nodes =>
    if RtThread.sigMask node.si.siSigno &&& set ≠ 0 then some (node, nodes)
    else (takeFirst set nodes).map fun x => (x.1, node :: x.2)

/-- What is done at `__done` in `rt_signal_wait`. -/
def waitTake (th : SigThread) (set : BitVec 32) : Option (SiginfoNode × SigThread) :=
  (takeFirst set th.siList).map fun x =>
    (x.1, { th with siList := x.2, sigPending := th.sigPending &&& ~~~RtThread.sigMask x.1.si.siSigno })

end SigThread

/-! ## Sections -/

/-- What a section did that others can see. -/
inductive SigAct
  | quiet
  /-- `rt_thread_kill` found the signal pending. -/
  | updated (tid : ThreadId) (sig : Nat)
  | appended (tid : ThreadId) (sig : Nat)
  /-- The signal is taken to be handled: by its handler, if there is one. -/
  | handled (tid : ThreadId) (sig : Nat) (handler : SigHandler)
  | waited (tid : ThreadId) (si : Siginfo)
  /-- A function returns an error, or `rt_signal_wait` finds no signal. -/
  | returned (err : SigError)
  deriving DecidableEq, Repr

/-- The calls, a context that goes on, and what the rest of the kernel does to a thread. -/
inductive SigEv
  | install (tid : ThreadId) (signo : Int) (handler : SigHandler)
  | mask (tid : ThreadId) (signo : Nat)
  | unmask (tid : ThreadId) (signo : Nat)
  | kill (c : Context) (tid : ThreadId) (sig : Int)
  | wait (tid : ThreadId) (set : BitVec 32) (timeout : Int)
  | handle (tid : ThreadId) (cleanState : Bool)
  | cont (c : Context) (interrupted : ThreadId)
  | suspend (tid : ThreadId)
  | resume (tid : ThreadId) (error : SigError)
  deriving DecidableEq, Repr

/-- The context that takes the step. -/
def SigEv.context : SigEv → Option Context
  | .install t _ _ => some (.thread t)
  | .mask t _ => some (.thread t)
  | .unmask t _ => some (.thread t)
  | .kill c _ _ => some c
  | .wait t _ _ => some (.thread t)
  | .handle t _ => some (.thread t)
  | .cont c _ => some c
  | .suspend _ => none
  | .resume _ _ => none

namespace Signals

def setThread (s : Signals) (tid : ThreadId) (th : SigThread) : Signals :=
  { s with thread := Function.update s.thread tid th }

def setFrames (s : Signals) (c : Context) (fs : List SigFrame) : Signals :=
  { s with frames := Function.update s.frames c fs }

/-- `rt_mp_free`. -/
def freeNode (s : Signals) (node : SiginfoNode) : Signals := { s with free := node.block :: s.free }

/-- The context runs, and is not inside another call, but for the handler of a signal. -/
def mayCall (s : Signals) : Context → Bool
  | .isr i => s.frames (.isr i) = []
  | .thread t => !(s.thread t).suspended &&
    match s.frames (.thread t) with
    | [] => true
    | .handler _ _ :: _ => true
    | _ => false

/-- `stat &= ~RT_THREAD_STAT_SIGNAL`. -/
def clearSignal (s : Signals) (tid : ThreadId) : Signals := s.setThread tid { s.thread tid with statSignal := false }

/-- The loop of `rt_thread_handle_sig` goes round, or ends. At its end the function clears the signal state, or
`_signal_entry` does, which has called it with `RT_FALSE`. -/
def handleLoop (s : Signals) (tid : ThreadId) (cleanState : Bool) : Option (Signals × SigAct) :=
  match (s.thread tid).handleTurn with
  | none => some (s.clearSignal tid, .quiet)
  | some (node, th) =>
    match th.sigVectors with
    -- `sig_vectors` is read through a null pointer
    | none => none
    | some vectors =>
      some ((s.setThread tid th).setFrames (.thread tid) (.handler node cleanState :: s.frames (.thread tid)),
        .handled tid node.si.siSigno (vectors node.si.siSigno))

/-- `rt_thread_handle_sig`, up to the first handler. -/
def rtThreadHandleSig (s : Signals) (tid : ThreadId) (cleanState : Bool) : Option (Signals × SigAct) :=
  let s1 := if cleanState then s else s.clearSignal tid
  if (s.thread tid).interested then
    if !(s.thread tid).statSignalWait then s.handleLoop tid cleanState else some (s1, .quiet)
  else some (s1, .quiet)

/-- `_signal_deliver`, called in the context `c`; `self` is the current thread. -/
def signalDeliver (s : Signals) (c : Context) (self tid : ThreadId) : Option (Signals × SigAct) :=
  let th := s.thread tid
  if !th.interested then some (s, .quiet)
  else if th.suspended then
    some (s.setThread tid { th with suspended := false, statSignal := true, statSignalPending := true }, .quiet)
  else if tid = self then
    let s1 := s.setThread tid { th with statSignal := true }
    match c with
    | .thread _ => s1.rtThreadHandleSig tid true
    | .isr _ => some (s1, .quiet)
  else if !th.statSignal then
    -- the signal entry is put on the stack of the thread, which calls `rt_thread_handle_sig(RT_FALSE)` when it runs
    some (s.setThread tid { th with statSignal := true, statSignalPending := false }, .quiet)
  else some (s, .quiet)

/-- `rt_thread_kill`, up to the end of its first section. -/
def rtThreadKill (s : Signals) (c : Context) (tid : ThreadId) (sig : Int) : Signals × SigAct :=
  if !sigValid sig then (s, .returned .einval)
  else
    match (s.thread tid).killTest sig.toNat with
    | some th => (s.setThread tid th, .updated tid sig.toNat)
    | none => (s.setFrames c (.killAlloc tid sig.toNat :: s.frames c), .quiet)

/-- The end of `rt_signal_wait`. -/
def waitDone (s : Signals) (tid : ThreadId) (set : BitVec 32) : Signals × SigAct :=
  match (s.thread tid).waitTake set with
  | none => (s, .returned .eok)
  | some (node, th) => ((s.setThread tid th).freeNode node, .waited tid node.si)

/-- `rt_signal_wait`, up to the suspension of the thread. -/
def rtSignalWait (s : Signals) (tid : ThreadId) (set : BitVec 32) (timeout : Int) : Signals × SigAct :=
  let th := s.thread tid
  if set = 0 then (s, .returned .einval)
  else if th.sigPending &&& set ≠ 0 then s.waitDone tid set
  else if timeout = 0 then (s, .returned .etimeout)
  else
    ((s.setThread tid { th with suspended := true, statSignalWait := true }).setFrames (.thread tid)
      (.wait set :: s.frames (.thread tid)), .quiet)

/-- The context `c` goes on with its last frame. -/
def cont (s : Signals) (c : Context) (interrupted : ThreadId) : Option (Signals × SigAct) :=
  match s.frames c with
  | [] => none
  | .killAlloc tid sig :: fs =>
    match s.free with
    | [] => some (s.setFrames c (.deliver tid :: fs), .quiet)
    | b :: bs =>
      some ({ s with free := bs }.setFrames c (.killAppend tid ⟨b, sig, siUser, 0⟩ :: fs), .quiet)
  | .killAppend tid node :: fs =>
    some ((s.setThread tid ((s.thread tid).killAppend node)).setFrames c (.deliver tid :: fs),
      .appended tid node.si.siSigno)
  | .deliver tid :: fs =>
    let self := match c with
      | .thread t => t
      | .isr _ => interrupted
    (s.setFrames c fs).signalDeliver c self tid
  | .handler node cleanState :: fs =>
    match c with
    | .isr _ => none
    | .thread tid =>
      let s1 := ((s.setFrames c fs).freeNode node).setThread tid { s.thread tid with error := .eintr }
      s1.handleLoop tid cleanState
  | .wait set :: fs =>
    match c with
    | .isr _ => none
    | .thread tid =>
      let s1 := s.setFrames c fs
      let th : SigThread := { s.thread tid with statSignalWait := false }
      if th.error = .etimeout then some (s1.setThread tid { th with error := .eok }, .returned .etimeout)
      else some ((s1.setThread tid th).waitDone tid set)

/-- The thread of a context runs. -/
def runs (s : Signals) : Context → Bool
  | .thread t => !(s.thread t).suspended
  | .isr _ => true

def step (s : Signals) : SigEv → Option (Signals × SigAct)
  | .install tid signo handler =>
    if s.mayCall (.thread tid) then
      if sigValid signo then some (s.setThread tid ((s.thread tid).install signo.toNat handler), .quiet)
      else some (s, .returned .einval)
    else none
  | .mask tid signo =>
    if s.mayCall (.thread tid) then
      some (s.setThread tid { s.thread tid with sigMask := (s.thread tid).sigMask &&& ~~~RtThread.sigMask signo }, .quiet)
    else none
  | .unmask tid signo =>
    if s.mayCall (.thread tid) then
      let th : SigThread := { s.thread tid with sigMask := (s.thread tid).sigMask ||| RtThread.sigMask signo }
      let s1 := s.setThread tid th
      some (if th.interested then s1.setFrames (.thread tid) (.deliver tid :: s.frames (.thread tid)) else s1, .quiet)
    else none
  | .kill c tid sig => if s.mayCall c then some (s.rtThreadKill c tid sig) else none
  | .wait tid set timeout => if s.mayCall (.thread tid) then some (s.rtSignalWait tid set timeout) else none
  -- called by `rt_schedule`, which has cleared the pending state, or by `_signal_entry`
  | .handle tid cleanState =>
    if s.runs (.thread tid) then
      (s.setThread tid { s.thread tid with statSignalPending := false }).rtThreadHandleSig tid cleanState
    else none
  | .cont c interrupted => if s.runs c then s.cont c interrupted else none
  | .suspend tid => some (s.setThread tid { s.thread tid with suspended := true }, .quiet)
  | .resume tid error => some (s.setThread tid { s.thread tid with suspended := false, error := error }, .quiet)

end Signals

end RtThread
