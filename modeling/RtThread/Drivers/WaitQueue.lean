import Mathlib.Algebra.Group.Nat.Defs
import RtThread.Kernel.Types
import RtThread.Lib.Runs

/-!
# Wait queues

`waitqueue.c`: threads test a condition of their own and wait in a queue, and a wakeup sets the flag of the queue, for a thread
that is about to wait, and resumes the first one that waits. A step is a section with the interrupts disabled. The flag is
cleared by every thread that comes back, also if the wakeup was for another one: the wakeups are kept in the runs in which no
thread comes back between a test of another one, a wakeup, and the section in which this one waits (`wakeups_kept`).
-/

namespace RtThread

/-- `rt_wqueue_t` -/
structure RtWqueue where
  flag : Bool
  waitingList : List ThreadId
deriving DecidableEq, Repr

/-- After `rt_wqueue_init`. -/
def RtWqueue.init : RtWqueue := ⟨false, []⟩

/-- `RT_WAITING_FOREVER`, as a tick. -/
def rtWaitingForever : Nat := 2 ^ 32 - 1

/-- `rt_tick_from_millisecond`, with `RT_TICK_PER_SECOND`. -/
def rtTickFromMillisecond (tickPerSecond : Nat) (ms : Int) : Nat :=
  if ms < 0 then rtWaitingForever
  else (tickPerSecond * (ms.toNat / 1000) + (tickPerSecond * (ms.toNat % 1000) + 999) / 1000) % 2 ^ 32

/-- Where a thread is: it has tested its condition, and there has been a wakeup since or not (`woken`); it is suspended in
`rt_wqueue_wait`, with its timer or not, and there had been a wakeup (`vain`); it has been resumed, with its `error`; or it
has cleared the flag. -/
inductive WqueueStage
  | idle
  | tested (woken : Bool)
  | suspended (timer vain : Bool)
  | resumed (err : RtErr)
  | leaving (err : RtErr)
deriving DecidableEq, Repr

/-- There is a wakeup. -/
def WqueueStage.wake : WqueueStage → WqueueStage
  | .tested _ => .tested true
  | stage => stage

/-- A queue and its threads. -/
structure WqueueState where
  queue : RtWqueue
  thread : ThreadId → WqueueStage

inductive WqueueEv
  | test (thread : ThreadId)
  | wait (thread : ThreadId) (condition : Bool) (msec : Int)
  | expire (thread : ThreadId)
  | clean (thread : ThreadId)
  | remove (thread : ThreadId)
  | wakeup
deriving DecidableEq, Repr

/-- What a step returns: the result of a wait, that the thread is suspended, or nothing. -/
inductive WqueueRet
  | waited (result : RtErr)
  | suspended
  | done
deriving DecidableEq, Repr

namespace WqueueState

def setThread (s : WqueueState) (t : ThreadId) (stage : WqueueStage) : WqueueState :=
  { s with thread := Function.update s.thread t stage }

/-- `queue->flag = ...;` -/
def setFlag (s : WqueueState) (flag : Bool) : WqueueState := { s with queue := { s.queue with flag := flag } }

/-- `rt_thread_resume`: a thread that is not suspended is left as it is. -/
def rtThreadResume (s : WqueueState) (t : ThreadId) : WqueueState :=
  match s.thread t with
  | .suspended _ _ => s.setThread t (.resumed .eok)
  | _ => s

/-- The section of `rt_wqueue_wakeup`; the function of a node is `__wqueue_default_wake`. -/
def rtWqueueWakeup (s : WqueueState) : WqueueState :=
  let s := { s.setFlag true with thread := fun t => (s.thread t).wake }
  match s.queue.waitingList with
  | [] => s
  | t :: ts => { s.rtThreadResume t with queue := { s.queue with waitingList := ts } }

/-- `rt_wqueue_wait`, up to the call of `rt_schedule`. -/
def rtWqueueWait (tickPerSecond : Nat) (s : WqueueState) (t : ThreadId) (woken condition : Bool) (msec : Int) :
    WqueueState × WqueueRet :=
  let tick := rtTickFromMillisecond tickPerSecond msec
  if condition ∨ tick = 0 then (s.setThread t .idle, .waited .eok)
  else if s.queue.flag then ((s.setFlag false).setThread t (.leaving .eok), .done)
  else
    let s := s.setThread t (.suspended (decide (tick ≠ rtWaitingForever)) woken)
    ({ s with queue := { s.queue with waitingList := s.queue.waitingList ++ [t] } }, .suspended)

def step (tickPerSecond : Nat) (s : WqueueState) : WqueueEv → Option (WqueueState × WqueueRet)
  | .test t =>
    match s.thread t with
    | .idle | .tested _ => some (s.setThread t (.tested false), .done)
    | _ => none
  | .wait t condition msec =>
    match s.thread t with
    | .tested woken => some (s.rtWqueueWait tickPerSecond t woken condition msec)
    | _ => none
  | .expire t =>
    match s.thread t with
    | .suspended true _ => some (s.setThread t (.resumed .etimeout), .done)
    | _ => none
  | .clean t =>
    match s.thread t with
    | .resumed err => some ((s.setFlag false).setThread t (.leaving err), .done)
    | _ => none
  | .remove t =>
    match s.thread t with
    | .leaving err =>
      some ({ s.setThread t .idle with queue := { s.queue with waitingList := s.queue.waitingList.erase t } }, .waited err)
    | _ => none
  | .wakeup => some (s.rtWqueueWakeup, .done)

def initial : WqueueState := ⟨.init, fun _ => .idle⟩

def Step (tickPerSecond : Nat) (s : WqueueState) (x : WqueueEv × WqueueRet) (s' : WqueueState) : Prop :=
  s.step tickPerSecond x.1 = some (s', x.2)

/-! ## Wakeups -/

/-- A thread for which there has been a wakeup since its test is not suspended when it waits, and none has been. -/
structure Kept (tickPerSecond : Nat) (s : WqueueState) : Prop where
  returns : ∀ t, s.thread t = .tested true → ∀ condition msec s' r,
    Step tickPerSecond s (.wait t condition msec, r) s' → r ≠ .suspended
  blocked : ∀ t timer, s.thread t ≠ .suspended timer true

/-- No thread clears the flag when there has been a wakeup since the test of another one. -/
def Unspoiled (tickPerSecond : Nat) (s : WqueueState) : WqueueEv → Prop
  | .clean t => ∀ u, u ≠ t → s.thread u ≠ .tested true
  | .wait t condition msec => condition = false → rtTickFromMillisecond tickPerSecond msec ≠ 0 → s.queue.flag = true →
      ∀ u, u ≠ t → s.thread u ≠ .tested true
  | _ => True

/-- `Kept`, by the flag. -/
structure Flagged (s : WqueueState) : Prop where
  flag : ∀ t, s.thread t = .tested true → s.queue.flag = true
  blocked : ∀ t timer, s.thread t ≠ .suspended timer true

variable {tps : Nat} {s s' : WqueueState} {ls : List (WqueueEv × WqueueRet)} {x : WqueueEv × WqueueRet} {t u : ThreadId}
  {stage : WqueueStage} {timer vain woken : Bool}

@[simp] theorem thread_setThread : (s.setThread t stage).thread = Function.update s.thread t stage := rfl

@[simp] theorem queue_setThread : (s.setThread t stage).queue = s.queue := rfl

/-- A thread waits for ever. -/
theorem wait_forever (tps : Nat) (ht : s.thread t = .tested woken) (hflag : s.queue.flag = false) :
    ∃ s', Step tps s (.wait t false (-1), .suspended) s' := by
  have hstep : s.step tps (.wait t false (-1)) = some (s.rtWqueueWait tps t woken false (-1)) := by simp only [step, ht]
  have hwait : (s.rtWqueueWait tps t woken false (-1)).2 = .suspended := by
    have htick : rtTickFromMillisecond tps (-1) = rtWaitingForever := rfl
    simp only [rtWqueueWait, htick]
    rw [if_neg (by decide), if_neg (by simp [hflag])]
  exact ⟨_, by rw [Step, hstep, ← hwait]⟩

theorem kept_iff_flagged : Kept tps s ↔ Flagged s := by
  constructor
  · rintro ⟨hreturns, hblocked⟩
    refine ⟨?_, hblocked⟩
    intro t ht
    by_contra hflag
    obtain ⟨s', hs⟩ := wait_forever tps ht (Bool.not_eq_true _ ▸ hflag)
    exact hreturns t ht _ _ _ _ hs rfl
  · rintro ⟨hflag, hblocked⟩
    refine ⟨?_, hblocked⟩
    rintro t ht condition msec s' r hs rfl
    have hstep : some (s.rtWqueueWait tps t true condition msec) = some (s', .suspended) := by
      rw [← hs]
      simp only [step, ht]
    have hwait := Option.some.inj hstep
    simp only [rtWqueueWait] at hwait
    split at hwait
    · cases hwait
    · rw [if_pos (hflag t ht)] at hwait
      cases hwait

theorem wake_ne_suspended (h : stage ≠ .suspended timer vain) : stage.wake ≠ .suspended timer vain := by
  cases stage <;> simp_all [WqueueStage.wake]

/-- After a wakeup the flag is set. -/
theorem flagged_wakeup (h : Flagged s) : Flagged s.rtWqueueWakeup := by
  have hblocked : ∀ t timer, (s.thread t).wake ≠ .suspended timer true := fun t timer => wake_ne_suspended (h.blocked t timer)
  simp only [rtWqueueWakeup]
  split
  · exact ⟨fun _ _ => rfl, hblocked⟩
  · rename_i t ts _
    refine ⟨fun _ _ => ?_, fun u timer => ?_⟩
    · rw [rtThreadResume]
      split <;> rfl
    · rw [rtThreadResume]
      split
      · by_cases hu : u = t
        · subst hu
          simp [setThread]
        · simpa [setThread, hu] using hblocked u timer
      · exact hblocked u timer

/-- A thread changes its stage, which is then none that matters, and the flag stays. -/
theorem flagged_setThread (h : Flagged s) (htested : stage ≠ .tested true)
    (hsuspended : ∀ timer, stage ≠ .suspended timer true) {queue : RtWqueue} (hflag : queue.flag = s.queue.flag) :
    Flagged { s.setThread t stage with queue := queue } := by
  constructor
  · intro u hu
    change Function.update s.thread t stage u = _ at hu
    by_cases hut : u = t
    · subst hut
      rw [Function.update_self] at hu
      exact absurd hu htested
    · rw [Function.update_of_ne hut] at hu
      exact hflag.trans (h.flag u hu)
  · intro u timer
    change Function.update s.thread t stage u ≠ _
    by_cases hut : u = t
    · subst hut
      rw [Function.update_self]
      exact hsuspended timer
    · rw [Function.update_of_ne hut]
      exact h.blocked u timer

/-- A thread clears the flag. -/
theorem flagged_clean (h : Flagged s) (htested : stage ≠ .tested true)
    (hsuspended : ∀ timer, stage ≠ .suspended timer true) :
    Flagged ((s.setFlag false).setThread t stage) ↔ ∀ u, u ≠ t → s.thread u ≠ .tested true := by
  constructor
  · intro h' u hut hu
    have hflag := h'.flag u (by simpa [hut, setFlag] using hu)
    cases hflag
  · intro hnone
    constructor
    · intro u hu
      change Function.update s.thread t stage u = _ at hu
      by_cases hut : u = t
      · subst hut
        rw [Function.update_self] at hu
        exact absurd hu htested
      · rw [Function.update_of_ne hut] at hu
        exact absurd hu (hnone u hut)
    · exact (flagged_setThread h htested hsuspended rfl).blocked

/-- A step keeps the wakeups if and only if it spoils none. -/
theorem flagged_step (h : Flagged s) (hs : Step tps s x s') : Flagged s' ↔ Unspoiled tps s x.1 := by
  obtain ⟨e, r⟩ := x
  change s.step tps e = some (s', r) at hs
  cases e with
  | test t =>
    rw [step] at hs
    have htest (heq : some (s.setThread t (.tested false), WqueueRet.done) = some (s', r)) :
        Flagged s' ↔ Unspoiled tps s (.test t) := by
      cases heq
      exact ⟨fun _ => trivial, fun _ => flagged_setThread h (by simp) (by simp) rfl⟩
    split at hs
    · exact htest hs
    · exact htest hs
    · cases hs
  | wait t condition msec =>
    rw [step] at hs
    split at hs
    · rename_i woken ht
      have hwait := Option.some.inj hs
      simp only [rtWqueueWait] at hwait
      split at hwait
      · rename_i hskip
        cases hwait
        refine ⟨fun _ hc htick _ => ?_, fun _ => flagged_setThread h (by simp) (by simp) rfl⟩
        rcases hskip with hskip | hskip
        · rw [hc] at hskip
          cases hskip
        · exact absurd hskip htick
      · rename_i hskip
        obtain ⟨hc, htick⟩ := not_or.1 hskip
        split at hwait
        · rename_i hflag
          cases hwait
          rw [flagged_clean h (by simp) (by simp)]
          exact ⟨fun hnone _ _ _ => hnone, fun hnone => hnone (by simpa using hc) htick hflag⟩
        · rename_i hflag
          cases hwait
          refine ⟨fun _ _ _ hset => absurd hset hflag, fun _ => flagged_setThread h (by simp) ?_ rfl⟩
          rintro timer heq
          obtain ⟨-, rfl⟩ := WqueueStage.suspended.inj heq
          exact hflag (h.flag t ht)
    · cases hs
  | expire t =>
    rw [step] at hs
    split at hs
    · cases hs
      exact ⟨fun _ => trivial, fun _ => flagged_setThread h (by simp) (by simp) rfl⟩
    · cases hs
  | clean t =>
    rw [step] at hs
    split at hs
    · cases hs
      exact flagged_clean h (by simp) (by simp)
    · cases hs
  | remove t =>
    rw [step] at hs
    split at hs
    · cases hs
      exact ⟨fun _ => trivial, fun _ => flagged_setThread h (by simp) (by simp) rfl⟩
    · cases hs
  | wakeup =>
    cases hs
    exact ⟨fun _ => trivial, fun _ => flagged_wakeup h⟩

/-- The runs in which at every point no wakeup is lost are those in which no thread clears the flag between a test of another
one with a wakeup after it and the section in which this one waits. -/
theorem wakeups_kept (tps : Nat) (ls : List (WqueueEv × WqueueRet)) (s : WqueueState) :
    Runs.RunWith (Step tps) (fun _ s => Kept tps s) initial ls s ↔
      Runs.Run (fun s x s' => Step tps s x s' ∧ Unspoiled tps s x.1) initial ls s := by
  have hinitial : Flagged initial := ⟨fun _ h => (nomatch h), fun _ _ h => (nomatch h)⟩
  refine Runs.RunWith.iff_run (I := fun _ s => Flagged s) hinitial (kept_iff_flagged.2 hinitial) ?_ ?_
  · intro _ s x s' h hs
    exact (flagged_step h hs.1).2 hs.2
  · intro _ s x s' h
    constructor
    · rintro ⟨hs, hkept⟩
      exact ⟨hs, (flagged_step h hs).1 (kept_iff_flagged.1 hkept)⟩
    · rintro ⟨hs, hun⟩
      exact ⟨hs, kept_iff_flagged.2 ((flagged_step h hs).2 hun)⟩

/-- Thread 1 waits, thread 2 tests its condition, and a wakeup resumes thread 1, which clears the flag before thread 2 waits. -/
def stolenWakeup : List (WqueueEv × WqueueRet) :=
  [(.test 1, .done), (.wait 1 false (-1), .suspended), (.test 2, .done), (.wakeup, .done), (.clean 1, .done),
    (.remove 1, .waited .eok), (.wait 2 false (-1), .suspended)]

/-- Thread 2 is suspended for ever, and no other thread is in the queue. -/
theorem wakeup_stolen : ∃ s, Runs.Run (Step 1000) initial stolenWakeup s ∧ s.thread 1 = .idle ∧
    s.thread 2 = .suspended false true ∧ s.queue = ⟨false, [2]⟩ := by
  exact Runs.Run.of_computed _ (by decide)

end WqueueState

end RtThread
