import RtThread.Drivers.Workqueue
import RtThread.Lib.Runs

/-!
# What the steps of a work queue do

Each step moves one work item at most (`step_effect`).
-/

namespace RtThread.WorkqueueState

open Function (update update_idem update_of_ne update_self)
open Option (ite_none_right_eq_some ite_none_left_eq_some)

/-- Items as `rt_work_init` leaves them, and queues whose workers have just been started. -/
def initial : WorkqueueState where
  list _ := []
  queue _ := ⟨none, 0, [], .ready, false⟩
  work _ := ⟨false, false, ⟨false, false⟩, none⟩
  starting := []
  timerThread := .idle
  caller _ := .idle

def Step (s : WorkqueueState) (x : WorkEv × WorkRet) (s' : WorkqueueState) : Prop := s.step x.1 = some (s', x.2)

/-- The queues are the same, but that worker threads may have been resumed. -/
def Resumed (s s' : WorkqueueState) : Prop :=
  ∀ q, s'.queue q = s.queue q ∨ s'.queue q = { s.queue q with threadSuspended := false }

/-- `work` is in the list `l` now, before or after what was there. -/
def MovedTo (s s' : WorkqueueState) (work : Nat) (l : WorkList) : Prop :=
  ∃ xs, s'.list = update (Intrusive.remove work s.list) l xs ∧
    xs.Perm (work :: Intrusive.remove work s.list l)

/-- The items, the calls before `rt_timer_start` and the timer thread are the same. -/
structure SameItems (s s' : WorkqueueState) : Prop where
  list : s'.list = s.list
  work : s'.work = s.work
  starting : s'.starting = s.starting
  timerThread : s'.timerThread = s.timerThread

/-- Submitted, to run now. -/
structure Queued (s : WorkqueueState) (q w : Nat) (s' : WorkqueueState) : Prop where
  list : MovedTo s s' w (.workList q)
  work : s'.work = update s.work w { s.work w with pending := true, workqueue := some q }
  starting : s'.starting = s.starting
  timerThread : s'.timerThread = s.timerThread
  caller : s'.caller = s.caller
  queue : Resumed s s'

/-- Submitted, to run later. -/
structure Delayed (s : WorkqueueState) (q w : Nat) (s' : WorkqueueState) : Prop where
  list : MovedTo s s' w (.delayedList q)
  work : s'.work = update s.work w ⟨false, true, ⟨true, false⟩, some q⟩
  starting : s'.starting = w :: s.starting
  timerThread : s'.timerThread = s.timerThread
  caller : s'.caller = s.caller
  queue : s'.queue = s.queue

/-- Before what is in the queue, and nothing else changes. -/
structure Urgent (s : WorkqueueState) (q w : Nat) (s' : WorkqueueState) : Prop where
  list : MovedTo s s' w (.workList q)
  work : s'.work = s.work
  starting : s'.starting = s.starting
  timerThread : s'.timerThread = s.timerThread
  caller : s'.caller = s.caller
  queue : Resumed s s'

/-- Cancelled. -/
structure Cancelled (s : WorkqueueState) (w : Nat) (s' : WorkqueueState) : Prop where
  list : s'.list = Intrusive.remove w s.list
  work : s'.work = update s.work w
    ⟨false, false, if (s.work w).submitting then ⟨false, false⟩ else (s.work w).timer, none⟩
  starting : s'.starting = s.starting
  timerThread : s'.timerThread = s.timerThread
  queue : s'.queue = s.queue

/-- Taken by the worker, which calls its function. -/
structure Taken (s : WorkqueueState) (q w : Nat) (s' : WorkqueueState) : Prop where
  mem : w ∈ s.list (.workList q)
  list : s'.list = Intrusive.remove w s.list
  work : s'.work = update s.work w { s.work w with pending := false, workqueue := none }
  starting : s'.starting = s.starting
  timerThread : s'.timerThread = s.timerThread
  caller : s'.caller = s.caller
  queue : s'.queue = update s.queue q { s.queue q with workCurrent := some w, stage := .running w }

/-- The timer handler is through. -/
structure Handled (s : WorkqueueState) (w q : Nat) (s' : WorkqueueState) : Prop where
  isTimer : (s.work w).timer.isTimer = true
  list : (s.queue q).workCurrent ≠ some w ∧ MovedTo s s' w (.workList q) ∨
    (s.queue q).workCurrent = some w ∧ s'.list = Intrusive.remove w s.list
  work : s'.work = update s.work w
    ⟨if (s.queue q).workCurrent = some w then (s.work w).pending else true, false, ⟨false, false⟩, (s.work w).workqueue⟩
  starting : s'.starting = s.starting
  timerThread : s'.timerThread = .idle
  caller : s'.caller = s.caller
  queue : Resumed s s'

/-- The timer of the work is started. -/
structure Started (s : WorkqueueState) (w : Nat) (s' : WorkqueueState) : Prop where
  mem : w ∈ s.starting
  list : s'.list = s.list
  work : s'.work = update s.work w { s.work w with timer := { (s.work w).timer with activated := true } }
  starting : s'.starting = s.starting.erase w
  timerThread : s'.timerThread = s.timerThread
  caller : s'.caller = s.caller
  queue : s'.queue = s.queue

/-- The timer of the work has expired. -/
structure Expired (s : WorkqueueState) (w : Nat) (s' : WorkqueueState) : Prop where
  activated : (s.work w).timer.activated = true
  idle : s.timerThread = .idle
  list : s'.list = s.list
  work : s'.work = update s.work w { s.work w with timer := { (s.work w).timer with activated := false } }
  starting : s'.starting = s.starting
  timerThread : s'.timerThread = .expired w
  caller : s'.caller = s.caller
  queue : s'.queue = s.queue

/-- The handler has read the queue of the work. -/
structure Read (s : WorkqueueState) (w q : Nat) (s' : WorkqueueState) : Prop where
  expired : s.timerThread = .expired w
  workqueue : (s.work w).workqueue = some q
  list : s'.list = s.list
  work : s'.work = s.work
  starting : s'.starting = s.starting
  timerThread : s'.timerThread = .handling w q
  caller : s'.caller = s.caller
  queue : s'.queue = s.queue

variable {s s' : WorkqueueState} {queue work ticks t q : Nat} {r : WorkRet} {x : WorkEv × WorkRet}

theorem Resumed.refl : Resumed s s := fun _ => .inl rfl

theorem resumed_of_eq (h : s'.queue = s.queue) : Resumed s s' := fun q => .inl (by rw [h])

/-- What resuming the worker thread leaves. -/
theorem resumeWorkThread_spec (s : WorkqueueState) (queue : Nat) :
    SameItems s (s.resumeWorkThread queue) ∧ (s.resumeWorkThread queue).caller = s.caller ∧
      Resumed s (s.resumeWorkThread queue) := by
  rw [resumeWorkThread]
  split
  · refine ⟨⟨rfl, rfl, rfl, rfl⟩, rfl, ?_⟩
    intro q
    by_cases hq : q = queue
    · subst hq
      exact .inr (update_self ..)
    · exact .inl (update_of_ne hq ..)
  · exact ⟨⟨rfl, rfl, rfl, rfl⟩, rfl, Resumed.refl⟩

theorem queued_of_submit (h : s.workqueueSubmitWork queue work 0 = some (s', r)) : Queued s queue work s' ∧ r = .eok := by
  cases h
  refine ⟨?_, rfl⟩
  generalize hs : (setWork (insertLast _ _ _) _ _ : WorkqueueState) = s1
  obtain ⟨hsame, hcaller, hqueue⟩ := resumeWorkThread_spec s1 queue
  subst hs
  constructor
  · exact ⟨_, hsame.list, List.perm_append_comm⟩
  · rw [hsame.work]
    simp only [setWork, insertLast, setList, rtListRemove, update_idem]
  · exact hsame.starting
  · exact hsame.timerThread
  · exact hcaller
  · exact hqueue

theorem delayed_of_submit (hticks : ticks ≠ 0) (hlt : ticks < rtTickMax / 2)
    (h : s.workqueueSubmitWork queue work ticks = some (s', r)) :
    Delayed s queue work s' ∧ r = .done ∧ (s.work work).submitting = (s.work work).timer.isTimer := by
  simp only [workqueueSubmitWork, if_neg hticks, if_pos hlt] at h
  obtain ⟨htimer, h⟩ := ite_none_left_eq_some.1 h
  cases h
  have htimer : (s.work work).submitting = (s.work work).timer.isTimer := by simpa using htimer
  refine ⟨?_, rfl, htimer⟩
  constructor
  · exact ⟨_, rfl, List.perm_append_comm⟩
  · simp only [setWork, insertLast, setList, rtListRemove, update_idem]
    cases hsub : (s.work work).submitting with
    | true =>
      rw [hsub] at htimer
      simp [← htimer]
    | false => simp
  · rfl
  · rfl
  · rfl
  · rfl

theorem cancelled_of_cancel (h : s.workqueueCancelWork queue work = some (s', r)) :
    Cancelled s work s' ∧ s'.caller = s.caller ∧
      r = if (s.queue queue).workCurrent = some work then .ebusy else .eok := by
  simp only [workqueueCancelWork] at h
  obtain ⟨-, h⟩ := ite_none_left_eq_some.1 h
  cases h
  refine ⟨?_, rfl, rfl⟩
  constructor
  · rfl
  · simp only [setWork, rtListRemove]
    congr 1
    cases (s.work work).submitting <;> simp
  · rfl
  · rfl
  · rfl

theorem urgent_of_urgentWork : Urgent s queue work (s.rtWorkqueueUrgentWork queue work) := by
  obtain ⟨hsame, hcaller, hqueue⟩ := resumeWorkThread_spec
    ((s.rtListRemove work).setList (.workList queue) (work :: (s.rtListRemove work).list (.workList queue))) queue
  constructor
  · exact ⟨_, hsame.list, List.Perm.refl _⟩
  · exact hsame.work
  · exact hsame.starting
  · exact hsame.timerThread
  · exact hcaller
  · exact hqueue

theorem handled_of_handler (h : s.delayedWorkTimeoutHandler work queue = some s') : Handled s work queue s' := by
  simp only [delayedWorkTimeoutHandler] at h
  obtain ⟨htimer, h⟩ := ite_none_right_eq_some.1 h
  cases h
  rw [insertWorkQueue]
  generalize hs : (rtListRemove (setWork _ _ _) _ : WorkqueueState) = s1
  have hcur : (s1.queue queue).workCurrent = (s.queue queue).workCurrent := by rw [← hs]; rfl
  rw [hcur]
  by_cases hc : (s.queue queue).workCurrent = some work
  · rw [if_pos hc]
    obtain ⟨hsame, hcaller, hqueue⟩ := resumeWorkThread_spec s1 queue
    subst hs
    constructor
    · exact htimer
    · exact .inr ⟨hc, hsame.list⟩
    · rw [if_pos hc]
      exact hsame.work
    · exact hsame.starting
    · rfl
    · exact hcaller
    · exact hqueue
  · rw [if_neg hc]
    obtain ⟨hsame, hcaller, hqueue⟩ := resumeWorkThread_spec
      ((s1.insertLast (.workList queue) work).setWork work { s1.work work with pending := true }) queue
    subst hs
    constructor
    · exact htimer
    · exact .inl ⟨hc, _, hsame.list, List.perm_append_comm⟩
    · rw [if_neg hc]
      refine hsame.work.trans ?_
      simp only [setWork, insertLast, setList, rtListRemove, update_self, update_idem]
    · exact hsame.starting
    · rfl
    · exact hcaller
    · exact hqueue

theorem taken_of_entry {rest : List Nat} (h : s.list (.workList queue) = work :: rest) :
    Taken s queue work (s.workqueueThreadEntry queue).1 ∧ (s.workqueueThreadEntry queue).2 = .called work := by
  rw [workqueueThreadEntry, h]
  refine ⟨?_, rfl⟩
  constructor
  · rw [h]
    exact List.mem_cons_self
  · rfl
  · rfl
  · rfl
  · rfl
  · rfl
  · rfl

/-- What a step does, by its label. -/
inductive Effect (s s' : WorkqueueState) : WorkEv → WorkRet → Prop
  | dowork {q w : Nat} (h : Queued s q w s') : Effect s s' (.dowork q w) .eok
  | submit {q w : Nat} (h : Queued s q w s') : Effect s s' (.submit q w 0) .eok
  | delayed {q w n : Nat} (hn : n ≠ 0) (htimer : (s.work w).submitting = (s.work w).timer.isTimer)
      (h : Delayed s q w s') : Effect s s' (.submit q w n) .done
  | started {w : Nat} (h : Started s w s') : Effect s s' (.startTimer w) .eok
  | urgent {q w : Nat} (h : Urgent s q w s') : Effect s s' (.urgent q w) .eok
  | cancelled {q w : Nat} {r : WorkRet} (h : Cancelled s w s') (hcaller : s'.caller = s.caller)
      (hr : r = if (s.queue q).workCurrent = some w then .ebusy else .eok) : Effect s s' (.cancel q w) r
  | cancelledFirst {l : WorkList} {w : Nat} {r : WorkRet} (hhead : (s.list l).head? = some w) (h : Cancelled s w s')
      (hcaller : s'.caller = s.caller) (hr : r = .ebusy ∨ r = .eok) : Effect s s' (.cancelFirst l w) r
  | expired {w : Nat} (h : Expired s w s') : Effect s s' (.expire w) .done
  | read {w q : Nat} (h : Read s w q s') : Effect s s' .handlerRead .done
  | handled {w q : Nat} (hstage : s.timerThread = .handling w q) (h : Handled s w q s') : Effect s s' .handlerSection .done
  | suspended {q : Nat} (hempty : s.list (.workList q) = []) (h : SameItems s s') (hcaller : s'.caller = s.caller)
      (hqueue : s'.queue = update s.queue q { s.queue q with threadSuspended := true }) :
      Effect s s' (.take q) .done
  | taken {q w : Nat} (hstage : (s.queue q).stage = .ready) (h : Taken s q w s') : Effect s s' (.take q) (.called w)
  | finished {q w : Nat} (hstage : (s.queue q).stage = .running w) (h : SameItems s s') (hcaller : s'.caller = s.caller)
      (hqueue : s'.queue = update s.queue q { s.queue q with workCurrent := none, stage := .acking }) :
      Effect s s' (.finish q) .done
  | acked {q : Nat} (hstage : (s.queue q).stage = .acking) (h : s' = s.ackCompletion q) : Effect s s' (.ack q) .done
  | tested {t q w : Nat} (hidle : s.caller t = .idle)
      (h : s' = s.setCaller t (if (s.queue q).workCurrent = some w then .taking q w else .cancelling q w)) :
      Effect s s' (.syncTest t q w) .done
  | syncCancelled {t q w : Nat} (hstage : s.caller t = .cancelling q w) (h : Cancelled s w s')
      (hcaller : s'.caller = update s.caller t .idle) : Effect s s' (.syncCancel t w) .eok
  | syncTook {t q w : Nat} (hstage : s.caller t = .taking q w) (h : s' = s.semTake t q w) : Effect s s' (.syncTake t) .done
  | returned {t q w : Nat} (hstage : s.caller t = .woken q w) (h : s' = s.setCaller t .idle) :
      Effect s s' (.syncReturn t) .eok

/-- Every step does what its label says. -/
theorem step_effect (h : Step s x s') : Effect s s' x.1 x.2 := by
  obtain ⟨e, r⟩ := x
  change s.step e = some (s', r) at h
  cases e with
  | dowork q w =>
    obtain ⟨hq, rfl⟩ := queued_of_submit h
    exact .dowork hq
  | submit q w n =>
    simp only [step] at h
    obtain ⟨hlt, h⟩ := ite_none_right_eq_some.1 h
    by_cases hn : n = 0
    · subst hn
      obtain ⟨hq, rfl⟩ := queued_of_submit h
      exact .submit hq
    · obtain ⟨hd, rfl, htimer⟩ := delayed_of_submit hn hlt h
      exact .delayed hn htimer hd
  | startTimer w =>
    simp only [step, startTimer] at h
    obtain ⟨hw, h⟩ := ite_none_right_eq_some.1 h
    cases h
    exact .started ⟨hw, rfl, rfl, rfl, rfl, rfl, rfl⟩
  | urgent q w =>
    cases h
    exact .urgent urgent_of_urgentWork
  | cancel q w =>
    obtain ⟨hc, hcaller, hr⟩ := cancelled_of_cancel h
    exact .cancelled hc hcaller hr
  | cancelFirst l w =>
    simp only [step] at h
    obtain ⟨hhead, h⟩ := ite_none_right_eq_some.1 h
    have hcancel : ∃ q, s.workqueueCancelWork q w = some (s', r) := by
      cases l with
      | workList q => exact ⟨q, h⟩
      | delayedList q => exact ⟨q, h⟩
    obtain ⟨q, hcancel⟩ := hcancel
    obtain ⟨hc, hcaller, hr⟩ := cancelled_of_cancel hcancel
    refine .cancelledFirst hhead hc hcaller ?_
    rw [hr]
    split
    · exact .inl rfl
    · exact .inr rfl
  | expire w =>
    simp only [step] at h
    obtain ⟨hw, h⟩ := ite_none_right_eq_some.1 h
    cases h
    exact .expired ⟨hw.1, hw.2, rfl, rfl, rfl, rfl, rfl, rfl⟩
  | handlerRead =>
    simp only [step] at h
    cases hstage : s.timerThread with
    | idle => simp [hstage] at h
    | handling w q => simp [hstage] at h
    | expired w =>
      simp only [hstage] at h
      cases hq : (s.work w).workqueue with
      | none => simp [hq] at h
      | some q =>
        simp only [hq] at h
        cases h
        exact .read ⟨hstage, hq, rfl, rfl, rfl, rfl, rfl, rfl⟩
  | handlerSection =>
    simp only [step] at h
    cases hstage : s.timerThread with
    | idle => simp [hstage] at h
    | expired w => simp [hstage] at h
    | handling w q =>
      simp only [hstage] at h
      obtain ⟨s1, hs, heq⟩ := Option.map_eq_some_iff.1 h
      cases heq
      exact .handled hstage (handled_of_handler hs)
  | take q =>
    simp only [step] at h
    obtain ⟨hready, h⟩ := ite_none_right_eq_some.1 h
    have h := Option.some.inj h
    cases hl : s.list (.workList q) with
    | nil =>
      rw [workqueueThreadEntry, hl] at h
      cases h
      exact .suspended hl ⟨rfl, rfl, rfl, rfl⟩ rfl rfl
    | cons w ws =>
      obtain ⟨ht, hr⟩ := taken_of_entry hl
      rw [h] at ht hr
      obtain rfl : r = .called w := hr
      exact .taken hready.1 ht
  | finish q =>
    simp only [step] at h
    cases hstage : (s.queue q).stage with
    | ready => simp [hstage] at h
    | acking => simp [hstage] at h
    | running w =>
      simp only [hstage] at h
      cases h
      exact .finished hstage ⟨rfl, rfl, rfl, rfl⟩ rfl rfl
  | ack q =>
    simp only [step] at h
    obtain ⟨hstage, h⟩ := ite_none_right_eq_some.1 h
    cases h
    exact .acked hstage rfl
  | syncTest t q w =>
    simp only [step] at h
    obtain ⟨hidle, h⟩ := ite_none_right_eq_some.1 h
    cases h
    exact .tested hidle rfl
  | syncCancel t v =>
    simp only [step] at h
    cases hstage : s.caller t <;> simp only [hstage] at h
    case cancelling q w =>
      obtain ⟨hw, h⟩ := ite_none_right_eq_some.1 h
      subst hw
      obtain ⟨⟨s1, r1⟩, hcancel, heq⟩ := Option.map_eq_some_iff.1 h
      cases heq
      obtain ⟨hc, hcaller, -⟩ := cancelled_of_cancel hcancel
      exact .syncCancelled hstage ⟨hc.list, hc.work, hc.starting, hc.timerThread, hc.queue⟩ (by rw [← hcaller]; rfl)
    all_goals cases h
  | syncTake t =>
    simp only [step] at h
    cases hstage : s.caller t <;> simp only [hstage] at h
    case taking q w =>
      cases h
      exact .syncTook hstage rfl
    all_goals cases h
  | syncReturn t =>
    simp only [step] at h
    cases hstage : s.caller t <;> simp only [hstage] at h
    case woken q w =>
      cases h
      exact .returned hstage rfl
    all_goals cases h

/-- Steps that only concern callers and worker threads. -/
theorem sameItems_ackCompletion : SameItems s (s.ackCompletion queue) := ⟨rfl, rfl, rfl, rfl⟩

theorem sameItems_setCaller {stage : SyncStage} : SameItems s (s.setCaller t stage) := ⟨rfl, rfl, rfl, rfl⟩

theorem sameItems_semTake : SameItems s (s.semTake t queue work) := by
  simp only [semTake]
  split
  · exact ⟨rfl, rfl, rfl, rfl⟩
  · exact ⟨rfl, rfl, rfl, rfl⟩

end RtThread.WorkqueueState
