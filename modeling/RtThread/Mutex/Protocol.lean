import RtThread.Lib.Links
import RtThread.Kernel.Types

/-!
# The mutex protocol

What the mutex functions of `ipc.c` do to threads and mutexes, with the scheduler left out: a thread is active,
suspended or closed, and it is known whether it is inside `_rt_mutex_take`. `Step` has one constructor for each way a
section of the code can end; what the other kernel functions do to a thread is the step `other`. `Base` is what every
step keeps.
-/

namespace RtThread

/-- The state of a thread, as far as mutexes see it. -/
inductive Phase
  | active | suspended | closed
  deriving DecidableEq

/-- The mutex whose take the frame belongs to. -/
def Frame.taking : Frame → Option MutexId
  | .mutexTake m => some m
  | _ => none

/-- A thread, as far as mutexes see it. -/
structure Party where
  phase : Phase
  prio : Nat
  init : Nat
  error : RtErr
  pending : Option MutexId
  cont : List Frame

/-- The mutex whose take the thread has not returned from. -/
def Party.taking (x : Party) : Option MutexId := x.cont.findSome? Frame.taking

/-- The threads, the mutexes, and the lists that link them. -/
structure Protocol where
  party : ThreadId → Party
  waiters : MutexId → List ThreadId
  taken : ThreadId → List MutexId
  mutex : MutexId → Mutex

namespace Protocol

/-! ## Updates -/

def modParty (s : Protocol) (t : ThreadId) (f : Party → Party) : Protocol :=
  { s with party := Function.update s.party t (f (s.party t)) }

def modMutex (s : Protocol) (m : MutexId) (f : Mutex → Mutex) : Protocol :=
  { s with mutex := Function.update s.mutex m (f (s.mutex m)) }

def setPrio (s : Protocol) (t : ThreadId) (p : Nat) : Protocol := s.modParty t fun x => { x with prio := p }

/-- Unlink a thread from the wait list it is in. -/
def unlink (s : Protocol) (t : ThreadId) : Protocol := { s with waiters := Links.remove s.waiters t }

/-- Link a thread in the wait list of `m`, by its priority. -/
def link (s : Protocol) (t : ThreadId) (m : MutexId) : Protocol :=
  { s with waiters := Links.insertSorted (fun u => (s.party u).prio) s.waiters m t }

/-- The priority of the first waiter, `0xff` if there is none. -/
def first (s : Protocol) (m : MutexId) : Nat :=
  match s.waiters m with
  | [] => 0xff
  | t :: _ => (s.party t).prio

/-- The mutex takes the priority of its first waiter. -/
def refresh (s : Protocol) (m : MutexId) : Protocol := s.modMutex m fun x => { x with priority := s.first m }

/-- The priority the mutexes of a thread give it. -/
def inherited (s : Protocol) (t : ThreadId) : Nat :=
  (s.taken t).foldl (fun p m => min p (min (s.mutex m).priority (s.mutex m).ceilingPriority)) (s.party t).init

def addTaken (s : Protocol) (t : ThreadId) (m : MutexId) : Protocol :=
  { s with taken := Links.insertAfter s.taken t m }

def dropTaken (s : Protocol) (m : MutexId) : Protocol := { s with taken := Links.remove s.taken m }

/-- The waiters of `m` are woken, with an error. -/
def wakeAll (s : Protocol) (m : MutexId) : Protocol :=
  { s with
    waiters := Function.update s.waiters m []
    party := fun t => if t ∈ s.waiters m then { s.party t with phase := .active, error := .error } else s.party t }

section Fields

variable (s : Protocol) (t u : ThreadId) (m : MutexId) (f : Party → Party) (g : Mutex → Mutex)

@[simp] theorem modParty_party_self : (s.modParty t f).party t = f (s.party t) := by simp [modParty]
@[simp] theorem modParty_waiters : (s.modParty t f).waiters = s.waiters := rfl
@[simp] theorem modParty_taken : (s.modParty t f).taken = s.taken := rfl
@[simp] theorem modParty_mutex : (s.modParty t f).mutex = s.mutex := rfl

@[simp] theorem modMutex_mutex_self : (s.modMutex m g).mutex m = g (s.mutex m) := by simp [modMutex]
@[simp] theorem modMutex_party : (s.modMutex m g).party = s.party := rfl
@[simp] theorem modMutex_waiters : (s.modMutex m g).waiters = s.waiters := rfl
@[simp] theorem modMutex_taken : (s.modMutex m g).taken = s.taken := rfl

@[simp] theorem unlink_party : (s.unlink t).party = s.party := rfl
@[simp] theorem unlink_waiters : (s.unlink t).waiters = Links.remove s.waiters t := rfl
@[simp] theorem unlink_taken : (s.unlink t).taken = s.taken := rfl
@[simp] theorem unlink_mutex : (s.unlink t).mutex = s.mutex := rfl

@[simp] theorem link_party : (s.link t m).party = s.party := rfl
@[simp] theorem link_taken : (s.link t m).taken = s.taken := rfl
@[simp] theorem link_mutex : (s.link t m).mutex = s.mutex := rfl

@[simp] theorem addTaken_party : (s.addTaken t m).party = s.party := rfl
@[simp] theorem addTaken_waiters : (s.addTaken t m).waiters = s.waiters := rfl
@[simp] theorem addTaken_taken : (s.addTaken t m).taken = Links.insertAfter s.taken t m := rfl
@[simp] theorem addTaken_mutex : (s.addTaken t m).mutex = s.mutex := rfl

@[simp] theorem dropTaken_party : (s.dropTaken m).party = s.party := rfl
@[simp] theorem dropTaken_waiters : (s.dropTaken m).waiters = s.waiters := rfl
@[simp] theorem dropTaken_taken : (s.dropTaken m).taken = Links.remove s.taken m := rfl
@[simp] theorem dropTaken_mutex : (s.dropTaken m).mutex = s.mutex := rfl

theorem wakeAll_waiters : (s.wakeAll m).waiters = Function.update s.waiters m [] := rfl
@[simp] theorem wakeAll_taken : (s.wakeAll m).taken = s.taken := rfl
@[simp] theorem wakeAll_mutex : (s.wakeAll m).mutex = s.mutex := rfl

variable {s t u m f g}

theorem wakeAll_party_of_mem (h : t ∈ s.waiters m) :
    (s.wakeAll m).party t = { s.party t with phase := .active, error := .error } := if_pos h

theorem wakeAll_party_of_notMem (h : t ∉ s.waiters m) : (s.wakeAll m).party t = s.party t := if_neg h

theorem modParty_party_of_ne (h : u ≠ t) : (s.modParty t f).party u = s.party u := by simp [modParty, h]

theorem modMutex_mutex_of_ne {m' : MutexId} (h : m' ≠ m) : (s.modMutex m g).mutex m' = s.mutex m' := by
  simp [modMutex, h]

theorem modParty_part {α : Type} (p : Party → α) (hf : p (f (s.party t)) = p (s.party t)) (u : ThreadId) :
    p ((s.modParty t f).party u) = p (s.party u) := by
  by_cases h : u = t
  · subst h; rw [modParty_party_self, hf]
  · rw [modParty_party_of_ne h]

theorem modMutex_part {α : Type} (p : Mutex → α) (hg : p (g (s.mutex m)) = p (s.mutex m)) (m' : MutexId) :
    p ((s.modMutex m g).mutex m') = p (s.mutex m') := by
  by_cases h : m' = m
  · subst h; rw [modMutex_mutex_self, hg]
  · rw [modMutex_mutex_of_ne h]

end Fields

/-! ## Steps -/

/-- A waiter moves to its place in the wait list of `m`, and the mutex takes the priority of the first one. -/
def move (s : Protocol) (t : ThreadId) (m : MutexId) : Protocol := ((s.unlink t).link t m).refresh m

/-- The thread `t` gets the priority `p`; if it waits for a mutex whose owner then has another priority than its
mutexes give it, so does the owner, and so on. -/
inductive Raise : Protocol → ThreadId → Nat → Protocol → Prop
  | stop {s : Protocol} {t : ThreadId} {p : Nat}
      (hstop : (s.party t).phase = .suspended → ∀ m, (s.party t).pending = some m → (s.mutex m).object = .detached) :
      Raise s t p (s.setPrio t p)
  | last {s s' : Protocol} {t o : ThreadId} {m : MutexId} {p : Nat} (hs : (s.party t).phase = .suspended)
      (hm : (s.party t).pending = some m) (ha : (s.mutex m).object = .attached)
      (hs' : s' = (s.setPrio t p).move t m) (ho : (s'.mutex m).owner = some o)
      (he : s'.inherited o = (s'.party o).prio) : Raise s t p s'
  | next {s s' s'' : Protocol} {t o : ThreadId} {m : MutexId} {p : Nat} (hs : (s.party t).phase = .suspended)
      (hm : (s.party t).pending = some m) (ha : (s.mutex m).object = .attached)
      (hs' : s' = (s.setPrio t p).move t m) (ho : (s'.mutex m).owner = some o)
      (hne : s'.inherited o ≠ (s'.party o).prio) (hnext : Raise s' o (s'.inherited o) s'') : Raise s t p s''

/-- What follows when the waiter `t` has left the list of `m` without getting it. -/
inductive Left : Protocol → MutexId → ThreadId → Protocol → Prop
  | skip {s : Protocol} {m : MutexId} {t o : ThreadId} (ho : (s.mutex m).owner = some o)
      (hne : (s.party o).prio ≠ (s.party t).prio) : Left s m t (s.refresh m)
  | keep {s : Protocol} {m : MutexId} {t o : ThreadId} (ho : (s.mutex m).owner = some o)
      (he : (s.party o).prio = (s.party t).prio) (hi : (s.refresh m).inherited o = (s.party o).prio) :
      Left s m t (s.refresh m)
  | raise {s s' : Protocol} {m : MutexId} {t o : ThreadId} (ho : (s.mutex m).owner = some o)
      (he : (s.party o).prio = (s.party t).prio) (hi : (s.refresh m).inherited o ≠ (s.party o).prio)
      (hr : Raise (s.refresh m) o ((s.refresh m).inherited o) s') : Left s m t s'

/-- The continuations of a thread: the call of `rt_schedule`, and the frame of one blocking call. -/
def Shape (P : Frame → Prop) (c : List Frame) : Prop :=
  c = [] ∨ c = [.schedule] ∨ ∃ f, f ≠ .schedule ∧ P f ∧ (c = [f] ∨ c = [.schedule, f])

/-- The name of a step. -/
inductive Act
  /-- Something that is not about a mutex. -/
  | other
  /-- `rt_schedule` has come back to a thread in `_rt_mutex_take`. -/
  | pop (t : ThreadId)
  /-- A priority set from outside. -/
  | prio (t : ThreadId)
  | acquire (t : ThreadId) (m : MutexId)
  | nest (t : ThreadId) (m : MutexId)
  | block (t : ThreadId) (m : MutexId)
  | unnest (t : ThreadId) (m : MutexId)
  /-- The last release, with nobody waiting. -/
  | free (t : ThreadId) (m : MutexId)
  /-- The last release, with `n` the first waiter. -/
  | grant (t : ThreadId) (m : MutexId) (n : ThreadId)
  /-- The timer of a waiter expires. -/
  | expire (t : ThreadId) (m : MutexId)
  /-- A waiter is resumed from outside. -/
  | wake (t : ThreadId) (m : MutexId)
  /-- `_rt_mutex_take` returns successfully after waiting. -/
  | finish (t : ThreadId) (m : MutexId)
  /-- `_rt_mutex_take` returns with an error after waiting. -/
  | abort (t : ThreadId) (m : MutexId)
  | ceiling (m : MutexId)
  /-- A thread exits, or is deleted without a pending mutex. -/
  | close (t : ThreadId)
  /-- A thread with a pending mutex is deleted. -/
  | drop (t : ThreadId) (m : MutexId)
  | detach (m : MutexId)

/-- What may happen to a thread outside the mutex functions. A thread that suspends itself waits for no mutex. -/
structure Quiet (P : Frame → Prop) (x y : Party) : Prop where
  taking : x.taking = none
  taking' : y.taking = none
  shape : Shape P y.cont
  closed : y.phase = .closed ↔ x.phase = .closed
  suspended : y.phase = .suspended → x.phase = .suspended ∨ x.pending = none
  prio : y.prio = x.prio
  init : y.init = x.init
  pending : y.pending = x.pending

/-- The releasing thread's change of priority. -/
def releasePrio (s : Protocol) (t : ThreadId) (m : MutexId) : Protocol :=
  if (s.mutex m).ceilingPriority ≠ 0xff ∨ (s.party t).prio = (s.mutex m).priority then s.setPrio t (s.inherited t)
  else s

/-- One section of the code. -/
inductive Step (P : Frame → Prop) : Protocol → Act → Protocol → Prop
  | other {s : Protocol} (x : ThreadId → Party) (hx : ∀ t, x t = s.party t ∨ Quiet P (s.party t) (x t)) :
      Step P s .other { s with party := x }
  | pop {s : Protocol} {t : ThreadId} {m : MutexId} (hc : (s.party t).cont = [.schedule, .mutexTake m]) :
      Step P s (.pop t) (s.modParty t fun x => { x with cont := [.mutexTake m] })
  | prio {s : Protocol} {t : ThreadId} (p : Nat) : Step P s (.prio t) (s.setPrio t p)
  | acquire {s s' : Protocol} {t : ThreadId} {m : MutexId} (hs : (s.party t).phase ≠ .suspended)
      (hc : (s.party t).cont = []) (ha : (s.mutex m).object = .attached) (ho : (s.mutex m).owner = none)
      (hs' : s' = (s.modParty t fun x => { x with error := .eok }).modMutex m
        fun x => { x with owner := some t, priority := 0xff, hold := 1 }) :
      Step P s (.acquire t m)
        ((if (s.mutex m).ceilingPriority ≠ 0xff ∧ (s.mutex m).ceilingPriority < (s.party t).prio then
            s'.setPrio t (s.mutex m).ceilingPriority
          else s').addTaken t m)
  | nest {s : Protocol} {t : ThreadId} {m : MutexId} (hs : (s.party t).phase ≠ .suspended)
      (hc : (s.party t).cont = []) (ho : (s.mutex m).owner = some t) (hh : (s.mutex m).hold < 255) :
      Step P s (.nest t m) ((s.modParty t fun x => { x with error := .eok }).modMutex m
        fun x => { x with hold := x.hold + 1 })
  | block {s s1 s2 s3 : Protocol} {t o : ThreadId} {m : MutexId} (hs : (s.party t).phase = .active)
      (hc : (s.party t).cont = []) (ha : (s.mutex m).object = .attached) (ho : (s.mutex m).owner = some o) (hot : o ≠ t)
      (hs1 : s1 = (s.modParty t fun x => { x with error := .eok, phase := .suspended, pending := some m }).link t m)
      (hs2 : s2 = if (s.party t).prio < (s.mutex m).priority then
        s1.modMutex m fun x => { x with priority := (s.party t).prio } else s1)
      (hs3 : if (s.party t).prio < (s.mutex m).priority ∧ (s.party t).prio < (s.party o).prio then
        Raise s2 o (s.party t).prio s3 else s3 = s2)
      (hP : P (.mutexTake m)) :
      Step P s (.block t m) (s3.modParty t fun x => { x with cont := [.schedule, .mutexTake m] })
  | unnest {s : Protocol} {t : ThreadId} {m : MutexId} (ho : (s.mutex m).owner = some t)
      (hh : 2 ≤ (s.mutex m).hold) (hc : (s.party t).taking = none) :
      Step P s (.unnest t m) (s.modMutex m fun x => { x with hold := x.hold - 1 })
  | free {s : Protocol} {t : ThreadId} {m : MutexId} (hs : (s.party t).phase ≠ .suspended)
      (hc : (s.party t).taking = none) (ha : (s.mutex m).object = .attached) (ho : (s.mutex m).owner = some t)
      (hh : (s.mutex m).hold = 1) (hw : s.waiters m = []) :
      Step P s (.free t m) (((s.dropTaken m).releasePrio t m).modMutex m
        fun x => { x with owner := none, priority := 0xff, hold := 0 })
  | grant {s s' : Protocol} {t n : ThreadId} {m : MutexId} {ns : List ThreadId} (hs : (s.party t).phase ≠ .suspended)
      (hc : (s.party t).taking = none) (ha : (s.mutex m).object = .attached) (ho : (s.mutex m).owner = some t)
      (hh : (s.mutex m).hold = 1) (hw : s.waiters m = n :: ns)
      (hs' : s' = ((((s.dropTaken m).releasePrio t m).unlink n).addTaken n m).modMutex m
        fun x => { x with owner := some n, hold := 1 }) :
      Step P s (.grant t m n)
        ((s'.modParty n fun x => { x with pending := none, phase := .active }).refresh m)
  | expire {s : Protocol} {t : ThreadId} {m : MutexId} (e : RtErr) (he : e ≠ .eok) (hw : t ∈ s.waiters m) :
      Step P s (.expire t m) ((s.unlink t).modParty t fun x => { x with phase := .active, error := e })
  | wake {s : Protocol} {t : ThreadId} {m : MutexId} (hw : t ∈ s.waiters m) :
      Step P s (.wake t m) ((s.unlink t).modParty t fun x => { x with phase := .active })
  | finish {s : Protocol} {t : ThreadId} {m : MutexId} (hs : (s.party t).phase = .active)
      (hc : (s.party t).cont = [.mutexTake m]) (he : (s.party t).error = .eok) :
      Step P s (.finish t m) (s.modParty t fun x => { x with cont := [] })
  | abort {s s' : Protocol} {t : ThreadId} {m : MutexId} (hs : (s.party t).phase = .active)
      (hc : (s.party t).cont = [.mutexTake m]) (he : (s.party t).error ≠ .eok)
      (hl : Left (s.modParty t fun x => { x with cont := [] }) m t s') : Step P s (.abort t m) s'
  | ceiling {s s1 s' : Protocol} {m : MutexId} (p : Nat) (hs1 : s1 = s.modMutex m fun x => { x with ceilingPriority := p })
      (hs' : s' = s1 ∧ (∀ o, (s.mutex m).owner = some o → s1.inherited o = (s.party o).prio) ∨
        ∃ o, (s.mutex m).owner = some o ∧ Raise s1 o (s1.inherited o) s') : Step P s (.ceiling m) s'
  | close {s : Protocol} {t : ThreadId} (hlive : (s.party t).phase ≠ .closed)
      (hp : ∀ m, (s.party t).pending = some m → (s.mutex m).object = .attached → (s.party t).phase = .active ∧
        (s.party t).cont = []) :
      Step P s (.close t) ((s.unlink t).modParty t fun x => { x with phase := .closed })
  | drop {s s' : Protocol} {t : ThreadId} {m : MutexId} (hlive : (s.party t).phase ≠ .closed)
      (hp : (s.party t).pending = some m) (ha : (s.mutex m).object = .attached)
      (hl : Left ((s.unlink t).modParty t fun x => { x with phase := .closed }) m t s') :
      Step P s (.drop t m) (s'.modParty t fun x => { x with pending := none })
  | detach {s : Protocol} {m : MutexId} (object : ObjectState) (hobj : object ≠ .attached)
      (ha : (s.mutex m).object = .attached) :
      Step P s (.detach m) (((s.wakeAll m).dropTaken m).modMutex m fun x => { x with object := object })

end Protocol

end RtThread
