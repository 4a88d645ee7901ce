import RtThread.Drivers.WorkqueueOwed

/-!
# The synchronous cancel

A call of `rt_workqueue_cancel_work_sync` tests whether the queue is running the work, and then either waits for a completion
or cancels the work (`Calling`). When it returns the work is gone for good (`cancel_work_sync`), if the work that it waits
for is in no list and has no timer, and if the work that it cancels is not running then. Nothing tests this: a work that is
running may have been submitted again, and the one that waits for it cancels nothing.
-/

namespace RtThread.WorkqueueState

/-- The function of `w` has been called by the worker of some queue, and has not returned. -/
def Executing (s : WorkqueueState) (w : Nat) : Prop := ∃ q, (s.queue q).stage = .running w

/-- `w` is in no list, and has no timer. -/
structure Quiet (s : WorkqueueState) (w : Nat) : Prop where
  unlinked : ∀ l, w ∉ s.list l
  isTimer : (s.work w).timer.isTimer = false

/-- `w` is not there to be called again. -/
structure Gone (s : WorkqueueState) (w : Nat) : Prop where
  quiet : Quiet s w
  executing : ¬ Executing s w

def Submits (w : Nat) : WorkEv → Prop
  | .dowork _ v | .submit _ v _ | .urgent _ v => v = w
  | _ => False

/-- The call of the caller `t` returns. -/
def Returns (t : Nat) : WorkEv → Prop
  | .syncCancel t' _ | .syncReturn t' => t' = t
  | _ => False

/-- The work that is waited for runs in this queue only, is in no list and has no timer. -/
def Alone (s : WorkqueueState) (q w : Nat) : Prop :=
  (s.queue q).workCurrent = some w →
    (∀ l, w ∉ s.list l) ∧ (s.work w).submitting = false ∧ ∀ q', (s.queue q').workCurrent = some w → q' = q

/-- The work that is cancelled is not running. -/
def NotCurrent (s : WorkqueueState) : WorkEv → Prop
  | .syncCancel _ w => ∀ q, (s.queue q).workCurrent ≠ some w
  | _ => True

/-- What holds of the queues. -/
structure Queues (s : WorkqueueState) : Prop where
  current : ∀ q w, (s.queue q).workCurrent = some w ↔ (s.queue q).stage = .running w
  semValue : ∀ q, (s.queue q).semValue = 0
  waiting : ∀ q t, t ∈ (s.queue q).semSuspend → ∃ w, s.caller t = .waiting q w

/-- A call that has not returned. -/
inductive Calling (s : WorkqueueState) (t q w : Nat) : Prop
  | cancelling (hstage : s.caller t = .cancelling q w)
  | waiting (hstage : s.caller t = .taking q w ∨ s.caller t = .waiting q w) (hquiet : Quiet s w)
      (honly : ∀ q', (s.queue q').stage = .running w → q' = q)
  | woken (hstage : s.caller t = .woken q w) (hgone : Gone s w)

variable {s s' : WorkqueueState} {q q' w v t n : Nat} {l : WorkList} {ls : List (WorkEv × WorkRet)} {x : WorkEv × WorkRet}

/-! ## Queues -/

theorem Resumed.fields (h : Resumed s s') (q : Nat) : (s'.queue q).workCurrent = (s.queue q).workCurrent ∧
    (s'.queue q).stage = (s.queue q).stage ∧ (s'.queue q).semValue = (s.queue q).semValue ∧
    (s'.queue q).semSuspend = (s.queue q).semSuspend := by
  rcases h q with h | h
  · rw [h]
    exact ⟨rfl, rfl, rfl, rfl⟩
  · rw [h]
    exact ⟨rfl, rfl, rfl, rfl⟩

theorem Queues.resumed (hq : Queues s) (h : Resumed s s') (hcaller : s'.caller = s.caller) : Queues s' where
  current q w := by
    obtain ⟨h1, h2, -, -⟩ := h.fields q
    rw [h1, h2]
    exact hq.current q w
  semValue q := by
    rw [(h.fields q).2.2.1]
    exact hq.semValue q
  waiting q t ht := by
    rw [(h.fields q).2.2.2] at ht
    rw [hcaller]
    exact hq.waiting q t ht

/-- A queue whose semaphore is left alone. -/
theorem Queues.update {x : RtWorkqueue} (hq : Queues s) (hqueue : s'.queue = Function.update s.queue q x)
    (hcurrent : ∀ w, x.workCurrent = some w ↔ x.stage = .running w) (hsem : x.semValue = (s.queue q).semValue)
    (hsuspend : x.semSuspend = (s.queue q).semSuspend) (hcaller : s'.caller = s.caller) : Queues s' where
  current q' w := by
    rw [hqueue]
    by_cases hq' : q' = q
    · subst hq'
      rw [Function.update_self]
      exact hcurrent w
    · rw [Function.update_of_ne hq']
      exact hq.current q' w
  semValue q' := by
    rw [hqueue]
    by_cases hq' : q' = q
    · subst hq'
      rw [Function.update_self, hsem]
      exact hq.semValue q'
    · rw [Function.update_of_ne hq']
      exact hq.semValue q'
  waiting q' t ht := by
    rw [hqueue] at ht
    rw [hcaller]
    by_cases hq' : q' = q
    · subst hq'
      rw [Function.update_self, hsuspend] at ht
      exact hq.waiting q' t ht
    · rw [Function.update_of_ne hq'] at ht
      exact hq.waiting q' t ht

/-- Another stage of a caller that does not wait. -/
theorem Queues.setCaller {stage : SyncStage} (hq : Queues s) (hqueue : s'.queue = s.queue)
    (hcaller : s'.caller = Function.update s.caller t stage) (ht : ∀ q w, s.caller t ≠ .waiting q w) : Queues s' where
  current q w := by
    rw [hqueue]
    exact hq.current q w
  semValue q := by
    rw [hqueue]
    exact hq.semValue q
  waiting q t' ht' := by
    rw [hqueue] at ht'
    obtain ⟨w, hw⟩ := hq.waiting q t' ht'
    refine ⟨w, ?_⟩
    rw [hcaller, Function.update_of_ne, hw]
    rintro rfl
    exact ht q w hw

/-- All who wait are woken, and the semaphore is taken again. -/
theorem workCompletion_zero : ∀ ts : List Nat, workCompletion 0 ts = (0, ts)
  | [] => rfl
  | t :: ts => by rw [workCompletion, workCompletion_zero ts]

theorem ackCompletion_eq (h : (s.queue q).semValue = 0) : s.ackCompletion q =
    { s.setQueue q { s.queue q with semValue := 0, semSuspend := [], stage := .ready } with
      caller := fun t => if t ∈ (s.queue q).semSuspend then SyncStage.wake (s.caller t) else s.caller t } := by
  simp only [ackCompletion, h, workCompletion_zero, List.drop_length]

theorem Queues.ack (hq : Queues s) (hstage : (s.queue q).stage = .acking) : Queues (s.ackCompletion q) := by
  rw [ackCompletion_eq (hq.semValue q)]
  have hnone : (s.queue q).workCurrent = none := by
    rw [Option.eq_none_iff_forall_ne_some]
    intro w hw
    rw [hq.current, hstage] at hw
    cases hw
  constructor
  · intro q' w
    change (Function.update s.queue q _ q').workCurrent = _ ↔ (Function.update s.queue q _ q').stage = _
    by_cases hq' : q' = q
    · subst hq'
      simp [hnone]
    · rw [Function.update_of_ne hq']
      exact hq.current q' w
  · intro q'
    change (Function.update s.queue q _ q').semValue = 0
    by_cases hq' : q' = q
    · subst hq'
      rw [Function.update_self]
    · rw [Function.update_of_ne hq']
      exact hq.semValue q'
  · intro q' t ht
    change t ∈ (Function.update s.queue q _ q').semSuspend at ht
    by_cases hq' : q' = q
    · subst hq'
      rw [Function.update_self] at ht
      cases ht
    · rw [Function.update_of_ne hq'] at ht
      obtain ⟨w, hw⟩ := hq.waiting q' t ht
      refine ⟨w, ?_⟩
      change (if t ∈ (s.queue q).semSuspend then SyncStage.wake (s.caller t) else s.caller t) = _
      rw [if_neg, hw]
      intro ht'
      obtain ⟨w', hw'⟩ := hq.waiting q t ht'
      exact hq' (SyncStage.waiting.inj (hw.symm.trans hw')).1

theorem semTake_eq (h : (s.queue q).semValue = 0) : s.semTake t q w =
    (s.setQueue q { s.queue q with semSuspend := (s.queue q).semSuspend ++ [t] }).setCaller t (.waiting q w) := by
  simp [semTake, h]

theorem Queues.take (hq : Queues s) (hstage : s.caller t = .taking q w) : Queues (s.semTake t q w) := by
  rw [semTake_eq (hq.semValue q)]
  constructor
  · intro q' w'
    change (Function.update s.queue q _ q').workCurrent = _ ↔ (Function.update s.queue q _ q').stage = _
    by_cases hq' : q' = q
    · subst hq'
      rw [Function.update_self]
      exact hq.current q' w'
    · rw [Function.update_of_ne hq']
      exact hq.current q' w'
  · intro q'
    change (Function.update s.queue q _ q').semValue = 0
    by_cases hq' : q' = q
    · subst hq'
      rw [Function.update_self]
      exact hq.semValue q'
    · rw [Function.update_of_ne hq']
      exact hq.semValue q'
  · intro q' t' ht'
    change t' ∈ (Function.update s.queue q _ q').semSuspend at ht'
    have hold : t' ∈ (s.queue q').semSuspend → ∃ w', Function.update s.caller t (.waiting q w) t' = .waiting q' w' := by
      intro ht'
      obtain ⟨w', hw'⟩ := hq.waiting q' t' ht'
      refine ⟨w', ?_⟩
      rw [Function.update_of_ne, hw']
      rintro rfl
      rw [hstage] at hw'
      cases hw'
    by_cases hq' : q' = q
    · subst hq'
      rw [Function.update_self, List.mem_append, List.mem_singleton] at ht'
      rcases ht' with ht' | rfl
      · exact hold ht'
      · exact ⟨w, Function.update_self ..⟩
    · rw [Function.update_of_ne hq'] at ht'
      exact hold ht'

theorem queues_step (hq : Queues s) (hs : Step s x s') : Queues s' := by
  have heff := step_effect hs
  obtain ⟨e, r⟩ := x
  cases heff with
  | dowork h => exact hq.resumed h.queue h.caller
  | submit h => exact hq.resumed h.queue h.caller
  | delayed _ _ h => exact hq.resumed (resumed_of_eq h.queue) h.caller
  | started h => exact hq.resumed (resumed_of_eq h.queue) h.caller
  | urgent h => exact hq.resumed h.queue h.caller
  | cancelled h hcaller => exact hq.resumed (resumed_of_eq h.queue) hcaller
  | cancelledFirst _ h hcaller => exact hq.resumed (resumed_of_eq h.queue) hcaller
  | expired h => exact hq.resumed (resumed_of_eq h.queue) h.caller
  | read h => exact hq.resumed (resumed_of_eq h.queue) h.caller
  | handled _ h => exact hq.resumed h.queue h.caller
  | suspended _ _ hcaller hqueue => exact hq.update hqueue (fun w => hq.current _ w) rfl rfl hcaller
  | taken _ h => exact hq.update h.queue (fun w => by simp) rfl rfl h.caller
  | finished _ _ hcaller hqueue => exact hq.update hqueue (fun w => by simp) rfl rfl hcaller
  | acked hstage h =>
    rw [h]
    exact hq.ack hstage
  | tested hidle h =>
    rw [h]
    exact hq.setCaller rfl rfl fun q w hw => by rw [hidle] at hw; cases hw
  | syncCancelled hstage h hcaller =>
    exact hq.setCaller h.queue hcaller fun q w hw => by rw [hstage] at hw; cases hw
  | syncTook hstage h =>
    rw [h]
    exact hq.take hstage
  | returned hstage h =>
    rw [h]
    exact hq.setCaller rfl rfl fun q w hw => by rw [hstage] at hw; cases hw

theorem queues_initial : Queues initial where
  current q w := by simp [initial]
  semValue q := rfl
  waiting q t ht := nomatch ht

/-! ## Work that is gone -/

theorem Quiet.unmoved (hw : Quiet s w) (h : Unmoved s s' w) : Quiet s' w where
  unlinked l := by
    rw [h.list]
    exact hw.unlinked l
  isTimer := by
    rw [h.work]
    exact hw.isTimer

theorem quiet_of_cancelled (h : Cancelled s w s') (hi : TimerItems s) : Quiet s' w where
  unlinked _ := not_mem_remove_self h.list hi.lists
  isTimer := by
    rw [h.isTimer (hi.item w), update_work_self h.work]

theorem Quiet.cancelled (hw : Quiet s w) (h : Cancelled s v s') (hi : TimerItems s) : Quiet s' w := by
  by_cases hv : w = v
  · subst hv
    exact quiet_of_cancelled h hi
  · exact hw.unmoved (h.unmoved hi.lists hv)

/-- Only the timer of an item is started, or expires. -/
theorem Quiet.timer {b : Bool} (hw : Quiet s w) (hlist : s'.list = s.list)
    (hwork : s'.work = Function.update s.work v { s.work v with timer := { (s.work v).timer with activated := b } })
    (hothers : w ≠ v → Unmoved s s' w) : Quiet s' w := by
  by_cases hv : w = v
  · subst hv
    constructor
    · intro l
      rw [hlist]
      exact hw.unlinked l
    · rw [update_work_self hwork]
      exact hw.isTimer
  · exact hw.unmoved (hothers hv)

/-- Quiet work is only moved by a submission of it. -/
theorem Quiet.step (hw : Quiet s w) (hi : TimerItems s) (hs : Step s x s') (hsub : ¬ Submits w x.1) : Quiet s' w := by
  have heff := step_effect hs
  obtain ⟨e, r⟩ := x
  cases heff with
  | dowork h => exact hw.unmoved (h.unmoved hi.lists (Ne.symm hsub))
  | submit h => exact hw.unmoved (h.unmoved hi.lists (Ne.symm hsub))
  | delayed _ _ h => exact hw.unmoved (h.unmoved hi.lists (Ne.symm hsub))
  | urgent h => exact hw.unmoved (h.unmoved hi.lists (Ne.symm hsub))
  | cancelled h => exact hw.cancelled h hi
  | cancelledFirst _ h => exact hw.cancelled h hi
  | started h => exact hw.timer h.list h.work fun hv => h.unmoved hv
  | expired h => exact hw.timer h.list h.work fun hv => h.unmoved hv
  | read h =>
    constructor
    · intro l
      rw [h.list]
      exact hw.unlinked l
    · rw [h.work]
      exact hw.isTimer
  | handled hstage h =>
    refine hw.unmoved (h.unmoved hstage hi.lists ?_)
    rintro rfl
    exact absurd (hw.isTimer.symm.trans h.isTimer) (by decide)
  | suspended _ h => exact hw.unmoved h.unmoved
  | taken _ h =>
    refine hw.unmoved (h.unmoved hi.lists ?_)
    rintro rfl
    exact hw.unlinked _ h.mem
  | finished _ h => exact hw.unmoved h.unmoved
  | acked _ h =>
    rw [h]
    exact hw.unmoved sameItems_ackCompletion.unmoved
  | tested _ h =>
    rw [h]
    exact hw.unmoved sameItems_setCaller.unmoved
  | syncCancelled _ h => exact hw.cancelled h hi
  | syncTook _ h =>
    rw [h]
    exact hw.unmoved sameItems_semTake.unmoved
  | returned _ h =>
    rw [h]
    exact hw.unmoved sameItems_setCaller.unmoved

theorem semTake_stage {q' w' : Nat} : ((s.semTake t q' w').queue q).stage = (s.queue q).stage := by
  simp only [semTake]
  by_cases hq : q = q'
  · subst hq
    split
    · simp [setCaller, setQueue]
    · simp [setCaller, setQueue]
  · split
    · simp [setCaller, setQueue, hq]
    · simp [setCaller, setQueue, hq]

/-- A worker that runs quiet work was running it before. -/
theorem running_step (hs : Step s x s') (hw : ∀ l, w ∉ s.list l) (hr : (s'.queue q).stage = .running w) :
    (s.queue q).stage = .running w := by
  have heff := step_effect hs
  obtain ⟨e, r⟩ := x
  have hresumed (h : Resumed s s') : (s.queue q).stage = .running w := by rw [← (h.fields q).2.1, hr]
  have hupdate {q' : Nat} {y : RtWorkqueue} (h : s'.queue = Function.update s.queue q' y)
      (hy : y.stage = .running w → (s.queue q').stage = .running w) : (s.queue q).stage = .running w := by
    rw [h] at hr
    by_cases hq : q = q'
    · subst hq
      rw [Function.update_self] at hr
      exact hy hr
    · rwa [Function.update_of_ne hq] at hr
  cases heff with
  | dowork h => exact hresumed h.queue
  | submit h => exact hresumed h.queue
  | delayed _ _ h => exact hresumed (resumed_of_eq h.queue)
  | started h => exact hresumed (resumed_of_eq h.queue)
  | urgent h => exact hresumed h.queue
  | cancelled h => exact hresumed (resumed_of_eq h.queue)
  | cancelledFirst _ h => exact hresumed (resumed_of_eq h.queue)
  | expired h => exact hresumed (resumed_of_eq h.queue)
  | read h => exact hresumed (resumed_of_eq h.queue)
  | handled _ h => exact hresumed h.queue
  | suspended _ _ _ hqueue => exact hupdate hqueue id
  | taken _ h =>
    refine hupdate h.queue fun hy => ?_
    obtain rfl := WorkerStage.running.inj hy
    exact absurd h.mem (hw _)
  | finished _ _ _ hqueue => exact hupdate hqueue nofun
  | acked _ h =>
    subst h
    exact hupdate rfl nofun
  | tested _ h =>
    subst h
    exact hr
  | syncCancelled _ h => exact hresumed (resumed_of_eq h.queue)
  | syncTook _ h =>
    subst h
    rwa [semTake_stage] at hr
  | returned _ h =>
    subst h
    exact hr

theorem Gone.step (hw : Gone s w) (hi : TimerItems s) (hs : Step s x s') (hsub : ¬ Submits w x.1) : Gone s' w where
  quiet := hw.quiet.step hi hs hsub
  executing := by
    rintro ⟨q, hq⟩
    exact hw.executing ⟨q, running_step hs hw.quiet.unlinked hq⟩

/-- Work in no list is not called. -/
theorem not_called (hw : ∀ l, w ∉ s.list l) (hs : Step s x s') : x.2 ≠ .called w := by
  intro hx
  have heff := step_effect hs
  obtain ⟨e, r⟩ := x
  subst hx
  cases heff with
  | cancelled _ _ hr => split at hr <;> cases hr
  | cancelledFirst _ _ _ hr => rcases hr with hr | hr <;> cases hr
  | taken _ h => exact hw _ h.mem

/-! ## The call -/

/-- What a step does to a caller, unless its call returns. -/
theorem caller_step (hqueues : Queues s) (hs : Step s x s') (hret : ¬ Returns t x.1) :
    s'.caller t = s.caller t ∨ s.caller t = .idle ∨ (∃ q w, s.caller t = .taking q w ∧ s'.caller t = .waiting q w) ∨
      ∃ q w, s.caller t = .waiting q w ∧ s'.caller t = .woken q w ∧ (s.queue q).stage = .acking := by
  have heff := step_effect hs
  obtain ⟨e, r⟩ := x
  cases heff with
  | dowork h => exact .inl (by rw [h.caller])
  | submit h => exact .inl (by rw [h.caller])
  | delayed _ _ h => exact .inl (by rw [h.caller])
  | started h => exact .inl (by rw [h.caller])
  | urgent h => exact .inl (by rw [h.caller])
  | cancelled h hcaller => exact .inl (by rw [hcaller])
  | cancelledFirst _ h hcaller => exact .inl (by rw [hcaller])
  | expired h => exact .inl (by rw [h.caller])
  | read h => exact .inl (by rw [h.caller])
  | handled _ h => exact .inl (by rw [h.caller])
  | suspended _ _ hcaller => exact .inl (by rw [hcaller])
  | taken _ h => exact .inl (by rw [h.caller])
  | finished _ _ hcaller => exact .inl (by rw [hcaller])
  | @acked q hstage h =>
    rw [h, ackCompletion_eq (hqueues.semValue q)]
    dsimp only
    by_cases ht : t ∈ (s.queue q).semSuspend
    · obtain ⟨w, hw⟩ := hqueues.waiting q t ht
      refine .inr (.inr (.inr ⟨q, w, hw, ?_, hstage⟩))
      rw [if_pos ht, hw]
      rfl
    · exact .inl (if_neg ht)
  | @tested t' q w hidle h =>
    subst h
    by_cases ht : t = t'
    · subst ht
      exact .inr (.inl hidle)
    · exact .inl (Function.update_of_ne ht ..)
  | @syncCancelled t' q w _ _ hcaller =>
    refine .inl ?_
    rw [hcaller, Function.update_of_ne]
    rintro rfl
    exact hret rfl
  | @syncTook t' q w hstage h =>
    rw [h, semTake_eq (hqueues.semValue q)]
    by_cases ht : t = t'
    · subst ht
      exact .inr (.inr (.inl ⟨q, w, hstage, Function.update_self ..⟩))
    · exact .inl (Function.update_of_ne ht ..)
  | @returned t' q w _ h =>
    subst h
    refine .inl (Function.update_of_ne ?_ ..)
    rintro rfl
    exact hret rfl

theorem calling_of_test {r : WorkRet} (hi : TimerItems s) (hqueues : Queues s) (hs : Step s (.syncTest t q w, r) s')
    (halone : Alone s q w) : Calling s' t q w := by
  cases step_effect hs with
  | tested hidle h =>
    subst h
    by_cases hcur : (s.queue q).workCurrent = some w
    · obtain ⟨hunlinked, hsub, honly⟩ := halone hcur
      refine .waiting (.inl ?_) ⟨hunlinked, ((hi.item w).isTimer).trans hsub⟩ ?_
      · rw [if_pos hcur]
        exact Function.update_self ..
      · intro q' hq'
        exact honly q' ((hqueues.current q' w).2 hq')
    · refine .cancelling ?_
      rw [if_neg hcur]
      exact Function.update_self ..

theorem Calling.step (hc : Calling s t q w) (hi : TimerItems s) (hqueues : Queues s) (hs : Step s x s')
    (hsub : ¬ Submits w x.1) (hret : ¬ Returns t x.1) : Calling s' t q w := by
  have hcaller := caller_step hqueues hs hret
  cases hc with
  | cancelling hstage =>
    refine .cancelling ?_
    rw [hstage] at hcaller
    simpa using hcaller
  | waiting hstage hquiet honly =>
    have hquiet' := hquiet.step hi hs hsub
    have honly' : ∀ q', (s'.queue q').stage = .running w → q' = q :=
      fun q' hq' => honly q' (running_step hs hquiet.unlinked hq')
    rcases hstage with hstage | hstage
    · refine .waiting ?_ hquiet' honly'
      rw [hstage] at hcaller
      rcases hcaller with h | h | ⟨q1, w1, h, h'⟩ | ⟨q1, w1, h, -⟩
      · exact .inl h
      · cases h
      · obtain ⟨rfl, rfl⟩ := SyncStage.taking.inj h
        exact .inr h'
      · cases h
    · rw [hstage] at hcaller
      rcases hcaller with h | h | ⟨q1, w1, h, -⟩ | ⟨q1, w1, h, h', hack⟩
      · exact .waiting (.inr h) hquiet' honly'
      · cases h
      · cases h
      · obtain ⟨rfl, rfl⟩ := SyncStage.waiting.inj h
        refine .woken h' ⟨hquiet', ?_⟩
        rintro ⟨q', hq'⟩
        have hrunning := running_step hs hquiet.unlinked hq'
        obtain rfl := honly q' hrunning
        exact absurd (hack.symm.trans hrunning) (by simp)
  | woken hstage hgone =>
    refine .woken ?_ (hgone.step hi hs hsub)
    rw [hstage] at hcaller
    simpa using hcaller

/-- The call returns, and the work is gone. -/
theorem Calling.returns (hc : Calling s t q w) (hi : TimerItems s) (hqueues : Queues s) (hs : Step s x s')
    (hret : Returns t x.1) (hcur : NotCurrent s x.1) : Gone s' w := by
  have heff := step_effect hs
  obtain ⟨e, r⟩ := x
  cases heff with
  | @syncCancelled t' q' w' hstage h hcaller =>
    obtain rfl : t' = t := hret
    cases hc with
    | cancelling hstage' =>
      obtain ⟨rfl, rfl⟩ := SyncStage.cancelling.inj (hstage.symm.trans hstage')
      refine ⟨quiet_of_cancelled h hi, ?_⟩
      rintro ⟨q1, hq1⟩
      rw [h.queue] at hq1
      exact hcur q1 ((hqueues.current q1 _).2 hq1)
    | waiting hstage' => rcases hstage' with hstage' | hstage' <;> cases hstage.symm.trans hstage'
    | woken hstage' => cases hstage.symm.trans hstage'
  | @returned t' q' w' hstage h =>
    obtain rfl : t' = t := hret
    cases hc with
    | cancelling hstage' => cases hstage.symm.trans hstage'
    | waiting hstage' => rcases hstage' with hstage' | hstage' <;> cases hstage.symm.trans hstage'
    | woken _ hgone => exact hgone.step hi hs not_false
  | _ => exact absurd hret not_false

/-! ## Runs -/

/-- The invariants of all runs. -/
def Ordered (s : WorkqueueState) : Prop := TimerItems s ∧ Queues s

theorem ordered_run (hr : Runs.Run Step s ls s') (h : Ordered s) : Ordered s' :=
  hr.invariant h fun _ _ _ h hs => ⟨timerItems_step h.1 hs, queues_step h.2 hs⟩

theorem Calling.run (hr : Runs.Run Step s ls s') (ho : Ordered s) (hc : Calling s t q w)
    (h : ∀ x ∈ ls, ¬ Submits w x.1 ∧ ¬ Returns t x.1) : Calling s' t q w := by
  induction hr with
  | nil => exact hc
  | snoc hr hs ih =>
    have ⟨hi, hqueues⟩ := ordered_run hr ho
    obtain ⟨hsub, hret⟩ := h _ (List.mem_append_right _ (List.mem_singleton.2 rfl))
    exact (ih fun x hx => h x (by simp [hx])).step hi hqueues hs hsub hret

theorem Gone.run (hr : Runs.Run Step s ls s') (ho : Ordered s) (hw : Gone s w) (h : ∀ x ∈ ls, ¬ Submits w x.1) :
    Gone s' w ∧ ∀ x ∈ ls, x.2 ≠ .called w := by
  induction hr with
  | nil => exact ⟨hw, fun _ hx => nomatch hx⟩
  | snoc hr hs ih =>
    obtain ⟨hgone, hcalled⟩ := ih fun x hx => h x (by simp [hx])
    refine ⟨hgone.step (ordered_run hr ho).1 hs (h _ (List.mem_append_right _ (List.mem_singleton.2 rfl))), ?_⟩
    intro x hx
    rw [List.mem_append, List.mem_singleton] at hx
    rcases hx with hx | rfl
    · exact hcalled x hx
    · exact not_called hgone.quiet.unlinked hs

/-- A work that is running submits itself again before it is cancelled. -/
def cancelledWhileQueued : List (WorkEv × WorkRet) :=
  [(.dowork 0 1, .eok), (.take 0, .called 1), (.dowork 0 1, .eok), (.syncTest 9 0 1, .done), (.syncTake 9, .done),
    (.finish 0, .done), (.ack 0, .done), (.syncReturn 9, .eok)]

/-- A work is taken from the queue between the test of the call and its section. -/
def cancelledWhileTaken : List (WorkEv × WorkRet) :=
  [(.dowork 0 1, .eok), (.syncTest 9 0 1, .done), (.take 0, .called 1), (.syncCancel 9 1, .eok)]

end RtThread.WorkqueueState
