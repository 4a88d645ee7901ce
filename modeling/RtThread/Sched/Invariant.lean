import RtThread.Sched.Queues
import RtThread.Kernel.Thread

/-!
# The scheduler invariant

`SchedInv k none`: the ready queues, their bitmap and the states of the threads fit together, the current thread is
not in a queue, and no other thread is running. `SchedInv k (some t)` says nothing about `t` but that it is in no
list. Each function of `scheduler_up.c` and `thread.c` keeps it.
-/

namespace RtThread

namespace Kernel

/-- The queues are consistent, and the current thread is the only one that may be running. -/
structure SchedInv (k : Kernel) (ex : Option ThreadId) : Prop where
  queues : k.Queues ex
  current : ∀ c, ex ≠ some c → k.currentThread = some c →
    (k.thread c).stat ≠ .ready ∧ (k.thread c).stat ≠ .init ∧ k.Masked (k.thread c)
  running : ∀ t, ex ≠ some t → (k.thread t).stat = .running → k.currentThread = some t

namespace SchedInv

variable {k k' : Kernel} {t : ThreadId} {ex : Option ThreadId} {f : Thread → Thread}

/-! ## Writes the scheduler does not see -/

section

variable (h : k.SchedInv ex)

include h

theorem congr (hth : ∀ u, queuePart (k'.thread u) = queuePart (k.thread u))
    (hl : k'.tlist = k.tlist) (hk : k'.priorityMax = k.priorityMax)
    (hg : k'.readyPriorityGroup = k.readyPriorityGroup) (ht : k'.readyTable = k.readyTable)
    (hc : k'.currentThread = k.currentThread) : k'.SchedInv ex := by
  have hs u : (k'.thread u).stat = (k.thread u).stat := congrArg (·.1) (hth u)
  refine ⟨h.queues.congr hth hl hk hg ht, fun c hex hcur => ?_, fun u hex hu => ?_⟩
  · obtain ⟨hr, hi, hm⟩ := h.current c hex (hc ▸ hcur)
    rw [hs]; exact ⟨hr, hi, hm.congr (hth c) hk⟩
  · rw [hc]; exact h.running u hex (hs u ▸ hu)

theorem modThread_congr (hf : queuePart (f (k.thread t)) = queuePart (k.thread t)) :
    (k.modThread t f).SchedInv ex :=
  h.congr (modThread_part queuePart hf) rfl rfl rfl rfl rfl

theorem setError (t : ThreadId) (e : RtErr) : (k.setError t e).SchedInv ex :=
  h.modThread_congr rfl

theorem setCont (t : ThreadId) (c : List Frame) : (k.setCont t c).SchedInv ex :=
  h.modThread_congr rfl

theorem threadTimerStart (t : ThreadId) : (k.threadTimerStart t).SchedInv ex :=
  h.modThread_congr rfl

theorem threadTimerStop (t : ThreadId) : (k.threadTimerStop t).SchedInv ex :=
  h.modThread_congr rfl

theorem modMutex (m : MutexId) (g : Mutex → Mutex) : (k.modMutex m g).SchedInv ex :=
  h.congr (fun _ => rfl) rfl rfl rfl rfl rfl

end

/-! ## Taking a thread out and putting it back -/

theorem setStat (h : k.SchedInv (some t)) (hm : k.Masked (k.thread t)) (s : Stat) :
    (k.modThread t fun x => { x with stat := s }).SchedInv (some t) where
  queues := h.queues.setStat hm s
  current c hex hc := by
    have e : c ≠ t := fun e => hex (by rw [e])
    rw [modThread_thread_of_ne e]; exact h.current c hex hc
  running u hex hu := by
    have e : u ≠ t := fun e => hex (by rw [e])
    rw [modThread_thread_of_ne e] at hu; exact h.running u hex hu

theorem open_ (h : k.SchedInv none) (hf : Links.Free k.tlist t) : k.SchedInv (some t) :=
  ⟨h.queues.open_ hf, fun c _ => h.current c (by simp), fun u _ => h.running u (by simp)⟩

theorem unlink (h : k.SchedInv none) (hr : (k.thread t).stat ≠ .ready) :
    SchedInv { k with tlist := Links.remove k.tlist t } (some t) :=
  ⟨h.queues.unlink hr, fun c _ => h.current c (by simp), fun u _ => h.running u (by simp)⟩

theorem out (h : k.SchedInv none) (hm : k.Masked (k.thread t)) : (k.rtScheduleRemoveThread t).SchedInv (some t) where
  queues := h.queues.out hm
  current c _ hc := by
    obtain ⟨hr, hi, hmc⟩ := h.current c (by simp) (by simpa using hc)
    rw [rtScheduleRemoveThread_thread]
    exact ⟨hr, hi, hmc.congr rfl (rtScheduleRemoveThread_priorityMax ..)⟩
  running u _ hu := by
    rw [rtScheduleRemoveThread_thread] at hu; simpa using h.running u (by simp) hu

theorem settle (h : k.SchedInv (some t)) (hr : (k.thread t).stat ≠ .ready)
    (hi : k.currentThread = some t → (k.thread t).stat ≠ .init ∧ k.Masked (k.thread t))
    (hrun : (k.thread t).stat = .running → k.currentThread = some t) : k.SchedInv none where
  queues := h.queues.settle hr
  current c _ hc := by
    by_cases e : c = t
    · subst e; exact ⟨hr, hi hc⟩
    · exact h.current c (by simpa using Ne.symm e) hc
  running u _ hu := by
    by_cases e : u = t
    · subst e; exact hrun hu
    · exact h.running u (by simpa using Ne.symm e) hu

theorem stat_of_suspended (hs : k.suspended t) :
    (k.thread t).stat ≠ .ready ∧ (k.thread t).stat ≠ .init ∧ (k.thread t).stat ≠ .running ∧
      (k.thread t).stat ≠ .close := by
  refine ⟨?_, ?_, ?_, ?_⟩ <;> intro e <;> simp [suspended, e, Stat.isSuspend] at hs

theorem masked_of_suspended (h : k.SchedInv ex) (hs : k.suspended t) : k.Masked (k.thread t) :=
  h.queues.masked t (stat_of_suspended hs).2.1 (stat_of_suspended hs).2.2.2

/-- A suspended thread that is in no list is consistent. -/
theorem of_suspended (h : k.SchedInv (some t)) (hs : k.suspended t) : k.SchedInv none := by
  obtain ⟨hr, hi, hrun, -⟩ := stat_of_suspended hs
  exact h.settle hr (fun _ => ⟨hi, h.masked_of_suspended hs⟩) fun e => absurd e hrun

/-- A closed thread that is in no list is consistent. -/
theorem of_closed (h : k.SchedInv (some t)) (hs : (k.thread t).stat = .close)
    (hm : k.currentThread = some t → k.Masked (k.thread t)) : k.SchedInv none :=
  h.settle (by simp [hs]) (fun hc => ⟨by simp [hs], hm hc⟩) fun e => by simp [hs] at e

variable {d : ListHead} {priority : Nat}

/-- Linking a suspended thread in a wait list. -/
theorem enqueue (h : k.SchedInv (some t)) {xs : List ThreadId} (hxs : xs.Perm (t :: k.tlist d))
    (hw : d.isWait) (hs : k.suspended t) : SchedInv { k with tlist := Function.update k.tlist d xs } none :=
  ⟨h.queues.enqueue hxs (.inl ⟨hw, hs⟩), (h.of_suspended hs).current, (h.of_suspended hs).running⟩

/-- Linking a closed thread in the defunct list. -/
theorem rtThreadDefunctEnqueue (h : k.SchedInv (some t)) (hs : (k.thread t).stat = .close)
    (hm : k.currentThread = some t → k.Masked (k.thread t)) : (k.rtThreadDefunctEnqueue t).SchedInv none :=
  ⟨h.queues.enqueue (.refl _) (.inr ⟨rfl, hs⟩), (h.of_closed hs hm).current, (h.of_closed hs hm).running⟩

/-- `rt_schedule_insert_thread`. -/
theorem insert (h : k.SchedInv (some t)) (hm : k.Masked (k.thread t)) : (k.rtScheduleInsertThread t).SchedInv none where
  queues := h.queues.insert hm
  current c _ hc := by
    rw [rtScheduleInsertThread_currentThread] at hc
    rw [rtScheduleInsertThread_thread]
    by_cases e : c = t
    · subst e
      simp only [Function.update_self, hc, if_true]
      have hm' : (k.rtScheduleInsertThread c).Masked (k.thread c) :=
        hm.congr rfl (rtScheduleInsertThread_priorityMax ..)
      exact ⟨by simp, by simp, hm'⟩
    · rw [Function.update_of_ne e]
      obtain ⟨hr, hi, hmc⟩ := h.current c (by simpa using Ne.symm e) hc
      exact ⟨hr, hi, hmc.congr rfl (rtScheduleInsertThread_priorityMax ..)⟩
  running u _ hu := by
    rw [rtScheduleInsertThread_currentThread]
    rw [rtScheduleInsertThread_thread] at hu
    by_cases e : u = t
    · subst e
      by_contra hne
      simp [hne] at hu
    · rw [Function.update_of_ne e] at hu
      exact h.running u (by simpa using Ne.symm e) hu

/-- The exempt thread is the current one, and runs. -/
theorem run (h : k.SchedInv (some t)) (hm : k.Masked (k.thread t)) (hc : k.currentThread = some t) :
    (k.modThread t fun x => { x with stat := .running }).SchedInv none :=
  (h.setStat hm .running).settle (by simp) (fun _ => by rw [modThread_thread_self]; exact ⟨by simp, hm⟩) fun _ => hc

/-! ## `rt_schedule` -/

section

variable (h : k.SchedInv none)

include h

/-- The thread at the head of a ready queue. -/
theorem ready_of_head {p : Nat} (ht : (k.tlist (.ready p)).head? = some t) :
    (k.thread t).stat = .ready ∧ k.prio t = p :=
  (h.queues.ready t p (by simp)).1 (List.mem_of_mem_head? ht)

/-- A running thread is in no list. -/
theorem free_of_running (hr : (k.thread t).stat = .running) : Links.Free k.tlist t :=
  h.queues.free_of_stat (by simp [hr]) (by simp [suspended, hr, Stat.isSuspend]) (by simp [hr])

/-- The switch to a ready thread. -/
theorem switchTo {c : ThreadId} (hc : k.currentThread = some c)
    (ht : (k.thread t).stat = .ready) (hp : Nat) {need : Bool} (hn : need = decide ((k.thread c).stat = .running)) :
    (k.switchTo hp c t need).SchedInv none := by
  have hct : c ≠ t := fun e => (h.current c (by simp) hc).1 (e ▸ ht)
  set k1 : Kernel := { k with currentPriority := hp % 256, currentThread := some t } with hk1
  have h1 : k1.Queues none := h.queues.congr (fun _ => rfl) rfl rfl rfl rfl
  set k2 : Kernel := if need then k1.rtScheduleInsertThread c else k1 with hk2
  have h2 : k2.Queues none ∧ k2.currentThread = some t ∧ (k2.thread t).stat = .ready ∧
      ∀ u, u ≠ t → (k2.thread u).stat ≠ .running := by
    by_cases hr : (k.thread c).stat = .running
    · have hneed : need = true := by simp [hn, hr]
      rw [hk2, if_pos hneed]
      refine ⟨(h1.open_ (h.free_of_running hr)).insert (h1.masked c (by simp [hk1, hr]) (by simp [hk1, hr])),
        by simp [hk1], ?_, ?_⟩
      · rw [rtScheduleInsertThread_thread, Function.update_of_ne (Ne.symm hct)]; exact ht
      · intro u hu hrun
        rw [rtScheduleInsertThread_thread] at hrun
        by_cases e : u = c
        · subst e
          simp [hk1, Ne.symm hct] at hrun
        · rw [Function.update_of_ne e] at hrun
          exact e (Option.some.inj ((h.running u (by simp) hrun).symm.trans hc))
    · have hneed : need = false := by simp [hn, hr]
      rw [hk2, hneed, if_neg (by simp)]
      refine ⟨h1, rfl, ht, fun u hu hrun => ?_⟩
      have := Option.some.inj ((h.running u (by simp) hrun).symm.trans hc)
      exact hr (this ▸ hrun)
  obtain ⟨hq, hcur, hrdy, hrun⟩ := h2
  have h3 : (k2.rtScheduleRemoveThread t).SchedInv (some t) := by
    refine ⟨hq.out (hq.masked t (by simp [hrdy]) (by simp [hrdy])), fun u hex hu => ?_, fun u hex hu => ?_⟩
    · rw [rtScheduleRemoveThread_currentThread, hcur] at hu
      exact absurd hu hex
    · rw [rtScheduleRemoveThread_thread] at hu
      exact absurd hu (hrun u fun e => hex (by rw [e]))
  have hm : (k2.rtScheduleRemoveThread t).Masked ((k2.rtScheduleRemoveThread t).thread t) :=
    h3.queues.masked t (by simp [hrdy]) (by simp [hrdy])
  exact h3.run hm (by simp [hcur])

/-- What `rt_schedule` does: nothing, or the current thread stays, or the head of the highest queue takes over. -/
theorem rtSchedule_cases :
    ((k.schedulerLockNest ≠ 0#16 ∨ k.readyPriorityGroup = 0#32 ∨ k.currentThread = none ∨
        (schedulerGetHighestPriorityThread k).2 = none) ∧ k.rtSchedule = k) ∨
    (∃ c hp t, k.currentThread = some c ∧ schedulerGetHighestPriorityThread k = (hp, some t) ∧
      (k.thread c).stat = .running ∧ k.prio c ≤ hp ∧
      k.rtSchedule = ((k.modThread c fun x => { x with statYield := false }).rtScheduleRemoveThread c).modThread c
        fun x => { x with stat := .running }) ∨
    (∃ c hp t, k.currentThread = some c ∧ schedulerGetHighestPriorityThread k = (hp, some t) ∧
      (k.tlist (.ready hp)).head? = some t ∧ ((k.thread c).stat = .running → hp ≤ k.prio c) ∧
      k.rtSchedule =
        (if (k.thread c).stat = .running then k.modThread c fun x => { x with statYield := false } else k).switchTo
          hp c t (decide ((k.thread c).stat = .running))) := by
  by_cases hl : k.schedulerLockNest = 0#16
  swap
  · exact .inl ⟨.inl hl, by simp [Kernel.rtSchedule, hl]⟩
  by_cases hg : k.readyPriorityGroup = 0#32
  · exact .inl ⟨.inr (.inl hg), by simp [Kernel.rtSchedule, hg]⟩
  cases hc : k.currentThread with
  | none => exact .inl ⟨.inr (.inr (.inl rfl)), by simp [Kernel.rtSchedule, hc]⟩
  | some c =>
    rcases hhead : schedulerGetHighestPriorityThread k with ⟨hp, head⟩
    cases head with
    | none => exact .inl ⟨.inr (.inr (.inr rfl)), by simp [Kernel.rtSchedule, hc, hhead]⟩
    | some toThread =>
      have hto : (k.tlist (.ready hp)).head? = some toThread := by
        simp only [schedulerGetHighestPriorityThread, Prod.mk.injEq] at hhead
        rw [← hhead.1]; exact hhead.2
      have hne : toThread ≠ c := by
        rintro rfl
        exact (h.current _ (by simp) hc).1 (h.ready_of_head hto).1
      simp only [Kernel.rtSchedule, hl, hg, hc, hhead, if_true, ne_eq, not_false_eq_true]
      by_cases hr : (k.thread c).stat = .running
      · by_cases hstay : k.prio c < hp ∨ (k.prio c = hp ∧ (k.thread c).statYield = false)
        · have hchoice : k.scheduleChoice c hp toThread = (c, false) := by
            unfold scheduleChoice
            rw [if_pos hr]
            rcases hstay with hlt | heq
            · rw [if_pos hlt]
            · rw [if_neg (by omega), if_pos heq]
          refine .inr (.inl ⟨c, hp, toThread, rfl, rfl, hr, by omega, ?_⟩)
          simp [hr, hchoice]
        · have hchoice : k.scheduleChoice c hp toThread = (toThread, true) := by
            unfold scheduleChoice
            rw [if_pos hr, if_neg fun hlt => hstay (.inl hlt), if_neg fun heq => hstay (.inr heq)]
          refine .inr (.inr ⟨c, hp, toThread, rfl, rfl, hto, fun _ => by omega, ?_⟩)
          simp [hchoice, hr, hne]
      · have hchoice : k.scheduleChoice c hp toThread = (toThread, false) := by simp [scheduleChoice, hr]
        refine .inr (.inr ⟨c, hp, toThread, rfl, rfl, hto, fun hr' => absurd hr' hr, ?_⟩)
        simp [hchoice, hr, hne]

theorem rtSchedule : k.rtSchedule.SchedInv none := by
  rcases h.rtSchedule_cases with ⟨-, e⟩ | ⟨c, -, -, hc, -, hr, -, e⟩ | ⟨c, hp, t, hc, -, ht, -, e⟩
  · rw [e]; exact h
  · rw [e]
    have h1 : (k.modThread c fun x => { x with statYield := false }).SchedInv none := h.modThread_congr rfl
    have hm := h1.queues.masked c (by simp [hr]) (by simp [hr])
    exact (h1.out hm).run (by simpa using hm.congr rfl (rtScheduleRemoveThread_priorityMax ..)) (by simp [hc])
  · rw [e]
    have hready := (h.ready_of_head ht).1
    split
    · rename_i hr
      have hct : t ≠ c := by rintro rfl; simp [hr] at hready
      exact (h.modThread_congr rfl).switchTo hc (by rw [modThread_thread_of_ne hct]; exact hready) hp (by simp)
    · exact h.switchTo hc hready hp rfl

/-! ## `thread.c` -/

theorem rtThreadResume (t : ThreadId) : (k.rtThreadResume t).1.SchedInv none := by
  unfold Kernel.rtThreadResume
  split
  · rename_i hs
    obtain ⟨hr, hi, -⟩ := stat_of_suspended hs
    have h1 := (h.unlink hr).threadTimerStop t
    exact h1.insert (h1.masked_of_suspended (by simpa [suspended, Kernel.threadTimerStop] using hs))
  · exact h

/-- A suspension that succeeds leaves the thread suspended and in no list; one that fails changes nothing. -/
theorem rtThreadSuspendWithFlag (t : ThreadId) (flag : SuspendFlag) :
    ((k.rtThreadSuspendWithFlag t flag).2 ≠ .eok ∧ (k.rtThreadSuspendWithFlag t flag).1 = k) ∨
    ((k.rtThreadSuspendWithFlag t flag).2 = .eok ∧ (k.rtThreadSuspendWithFlag t flag).1.SchedInv (some t) ∧
      (k.rtThreadSuspendWithFlag t flag).1.suspended t) := by
  unfold Kernel.rtThreadSuspendWithFlag
  split
  · rename_i hs
    split
    · have hm : k.Masked (k.thread t) :=
        h.queues.masked t (by rcases hs with hs | hs <;> simp [hs]) (by rcases hs with hs | hs <;> simp [hs])
      have h1 := h.out hm
      have h2 := h1.setStat (by simpa using hm.congr rfl (rtScheduleRemoveThread_priorityMax ..)) (.suspend flag)
      exact .inr ⟨rfl, h2.threadTimerStop t, by simp [suspended, Kernel.threadTimerStop, Stat.isSuspend]⟩
    · exact .inl ⟨by simp, rfl⟩
  · exact .inl ⟨by simp, rfl⟩

theorem rtThreadSuspendWithFlag_none (t : ThreadId) (flag : SuspendFlag) :
    (k.rtThreadSuspendWithFlag t flag).1.SchedInv none := by
  rcases h.rtThreadSuspendWithFlag t flag with ⟨-, e⟩ | ⟨-, h1, hs⟩
  · rw [e]; exact h
  · exact h1.of_suspended hs

end

/-- The priority and the masks of the exempt thread change together. -/
theorem setPriority (h : k.SchedInv (some t)) (hp : priority < k.priorityMax) :
    (k.modThread t fun x => k.calcPriorityAttribute { x with currentPriority := priority }).SchedInv (some t) where
  queues := h.queues.modThread (fun _ _ => masked_calcPriorityAttribute _ _)
    (by simp only [calcPriorityAttribute]; split <;> exact hp)
    (by simp only [calcPriorityAttribute]; split <;> exact h.queues.init_lt t)
  current c hex hc := by
    have e : c ≠ t := fun e => hex (by rw [e])
    rw [modThread_thread_of_ne e]; exact h.current c hex hc
  running u hex hu := by
    have e : u ≠ t := fun e => hex (by rw [e])
    rw [modThread_thread_of_ne e] at hu; exact h.running u hex hu

/-- The priority and the masks of a thread that is not in a ready queue change together. -/
theorem setPriority_none (h : k.SchedInv none) (hr : (k.thread t).stat ≠ .ready) (hp : priority < k.priorityMax) :
    (k.modThread t fun x => k.calcPriorityAttribute { x with currentPriority := priority }).SchedInv none := by
  have hstat (u : ThreadId) : ((k.modThread t fun x =>
      k.calcPriorityAttribute { x with currentPriority := priority }).thread u).stat = (k.thread u).stat :=
    modThread_part Thread.stat (by simp only [calcPriorityAttribute]; split <;> rfl) u
  have hq : (k.modThread t fun x => k.calcPriorityAttribute { x with currentPriority := priority }).Queues none := by
    refine ⟨h.queues.wf, by simp, fun u p _ => ?_, fun u d _ hw hu => ?_, fun u _ hu => ?_, fun u hu hc => ?_,
      fun u => ?_, fun u => ?_, h.queues.max_le, h.queues.bits⟩
    · by_cases e : u = t
      · subst e
        rw [hstat]
        exact iff_of_false (fun hmem => hr ((h.queues.ready u p (by simp)).1 hmem).1) fun hs => hr hs.1
      · rw [hstat, prio, modThread_thread_of_ne e]; exact h.queues.ready u p (by simp)
    · rw [suspended, hstat]; exact h.queues.wait u d (by simp) hw hu
    · rw [hstat]; exact h.queues.defunct u (by simp) hu
    · by_cases e : u = t
      · subst e; rw [modThread_thread_self]; exact masked_calcPriorityAttribute _ _
      · rw [modThread_thread_of_ne e] at hu hc ⊢; exact h.queues.masked u hu hc
    · by_cases e : u = t
      · subst e
        rw [prio, modThread_thread_self]
        simp only [calcPriorityAttribute]; split <;> exact hp
      · rw [prio, modThread_thread_of_ne e]; exact h.queues.prio_lt u
    · rw [modThread_part Thread.initPriority (by simp only [calcPriorityAttribute]; split <;> rfl)]
      exact h.queues.init_lt u
  refine ⟨hq, fun c _ hc => ?_, fun u _ hu => h.running u (by simp) (hstat u ▸ hu)⟩
  obtain ⟨hrc, hic, hmc⟩ := h.current c (by simp) hc
  rw [hstat]
  refine ⟨hrc, hic, ?_⟩
  by_cases e : c = t
  · subst e; rw [modThread_thread_self]; exact masked_calcPriorityAttribute _ _
  · rw [modThread_thread_of_ne e]; exact hmc

/-- `RT_THREAD_CTRL_CHANGE_PRIORITY` with a valid priority, on a thread in any state. -/
theorem rtThreadControlChangePriority (h : k.SchedInv none) (t : ThreadId)
    (hp : priority < k.priorityMax) : (k.rtThreadControlChangePriority t priority).SchedInv none := by
  unfold Kernel.rtThreadControlChangePriority
  split
  · rename_i hs
    have h1 := (h.out (h.queues.masked t (by simp [hs]) (by simp [hs]))).setPriority
      (show priority < (k.rtScheduleRemoveThread t).priorityMax by simpa using hp)
    exact h1.insert (by rw [modThread_thread_self]; exact masked_calcPriorityAttribute _ _)
  · rename_i hs
    exact h.setPriority_none hs hp

/-- The change writes the priority and the masks of the thread, and no other part of any thread. -/
theorem rtThreadControlChangePriority_thread (h : k.SchedInv none) (t : ThreadId) (priority : Nat) :
    (k.rtThreadControlChangePriority t priority).thread =
      Function.update k.thread t (k.calcPriorityAttribute { k.thread t with currentPriority := priority }) := by
  unfold Kernel.rtThreadControlChangePriority
  split
  · rename_i hs
    have hc : k.currentThread ≠ some t := fun hc => (h.current t (by simp) hc).1 hs
    rw [rtScheduleInsertThread_thread]
    simp only [modThread_currentThread, rtScheduleRemoveThread_currentThread, hc, if_false, modThread_thread,
      Function.update_self, rtScheduleRemoveThread_thread, Function.update_idem, calcPriorityAttribute, twoLevel,
      rtScheduleRemoveThread_priorityMax]
    congr 1
    split <;> simp [hs]
  · rfl

/-- Only ready queues change with a priority. -/
theorem rtThreadControlChangePriority_tlist (h : k.SchedInv none) (t : ThreadId) (priority : Nat)
    (hhd : ∀ q, d ≠ .ready q) : (k.rtThreadControlChangePriority t priority).tlist d = k.tlist d := by
  unfold Kernel.rtThreadControlChangePriority
  split
  · rename_i hs
    have hmem : t ∉ k.tlist d := fun hmem =>
      hhd _ (h.queues.wf.disjoint hmem ((h.queues.ready t (k.prio t) (by simp)).2 ⟨hs, rfl⟩))
    rw [rtScheduleInsertThread_tlist]
    split_ifs <;>
      simp only [modThread_tlist, rtScheduleRemoveThread_tlist, Links.insertBefore_ne (hhd _),
        Links.insertAfter_ne (hhd _), Links.remove_of_notMem hmem]
  · rfl

theorem rtThreadStartup (h : k.SchedInv none) (hk : k.rtThreadStartup t = some k') : k'.SchedInv none := by
  unfold Kernel.rtThreadStartup at hk
  obtain ⟨hs, hk⟩ := Option.ite_none_right_eq_some.1 hk
  cases hk
  refine SchedInv.rtThreadResume ?_ t
  have hf : Links.Free k.tlist t :=
    h.queues.free_of_stat (by simp [hs]) (by simp [suspended, hs, Stat.isSuspend]) (by simp [hs])
  have h1 : (k.modThread t fun x => k.calcPriorityAttribute x).SchedInv (some t) :=
    (h.open_ hf).setPriority (h.queues.prio_lt t)
  have hm : (k.modThread t fun x => k.calcPriorityAttribute x).Masked
      ((k.modThread t fun x => k.calcPriorityAttribute x).thread t) := by
    rw [modThread_thread_self]; exact masked_calcPriorityAttribute _ _
  have h2 := (h1.setStat hm (.suspend .interruptible)).modThread_congr (t := t)
    (f := fun x => { x with statYield := false }) rfl
  have h3 := h2.of_suspended (by simp [suspended, Stat.isSuspend])
  convert h3 using 1
  simp [Kernel.modThread]

/-- The exempt thread is closed. -/
theorem close (h : k.SchedInv (some t)) :
    (k.modThread t fun x => { x with stat := .close, statYield := false }).SchedInv (some t) where
  queues := h.queues.modThread (by simp) (h.queues.prio_lt t) (h.queues.init_lt t)
  current c hex hc := by
    have e : c ≠ t := fun e => hex (by rw [e])
    rw [modThread_thread_of_ne e]; exact h.current c hex hc
  running u hex hu := by
    have e : u ≠ t := fun e => hex (by rw [e])
    rw [modThread_thread_of_ne e] at hu; exact h.running u hex hu

section

variable (h : k.SchedInv none)

include h

theorem threadExit (hm : k.Masked (k.thread t)) : (k.threadExit t).SchedInv none := by
  have hm' : (k.rtScheduleRemoveThread t).Masked (k.thread t) := hm.congr rfl (rtScheduleRemoveThread_priorityMax ..)
  refine ((h.out hm).threadTimerStop t).close.rtThreadDefunctEnqueue (by simp) fun _ => ?_
  simp only [modThread_thread_self, Kernel.threadTimerStop, rtScheduleRemoveThread_thread]
  exact hm'

theorem threadTimeout (hk : k.threadTimeout t = some k') : k'.SchedInv none := by
  unfold Kernel.threadTimeout at hk
  obtain ⟨hs, hk⟩ := Option.ite_none_right_eq_some.1 hk
  cases hk
  have h1 := (h.setError t .etimeout).unlink (t := t) (by simpa [Kernel.setError] using (stat_of_suspended hs).1)
  exact h1.insert (h1.masked_of_suspended (by simpa [suspended, Kernel.setError] using hs))

theorem rtThreadYield (t : ThreadId) : (k.rtThreadYield t).SchedInv none :=
  SchedInv.rtSchedule (h.modThread_congr rfl)

theorem rtThreadSleep (t : ThreadId) (tick : BitVec 32) :
    (k.rtThreadSleep t tick).1.SchedInv none := by
  unfold Kernel.rtThreadSleep
  split
  · exact h
  · have h1 := (h.setError t .eok).rtThreadSuspendWithFlag_none t .interruptible
    dsimp only
    split
    · exact (((h1.threadTimerStart t).setError t .eintr).setCont t _)
    · exact h1

theorem rtThreadSleepWake (t : ThreadId) : (k.rtThreadSleepWake t).SchedInv none := by
  unfold Kernel.rtThreadSleepWake
  split
  · exact h.setError t .eok
  · exact h

theorem rtTickIncrease : k.rtTickIncrease.SchedInv none := by
  have h0 : SchedInv { k with tick := k.tick + 1#32 } none := h.congr (fun _ => rfl) rfl rfl rfl rfl rfl
  unfold Kernel.rtTickIncrease
  dsimp only
  split
  · exact h0
  · rename_i t _
    have h1 := h0.modThread_congr (t := t) (f := fun x => { x with remainingTick := x.remainingTick - 1#64 }) rfl
    split
    · exact SchedInv.rtSchedule (h1.modThread_congr rfl)
    · exact h1

theorem rtThreadDefunctDequeue : k.rtThreadDefunctDequeue.SchedInv none := by
  unfold Kernel.rtThreadDefunctDequeue
  split
  · exact h
  · rename_i t ts d
    have hs := h.queues.defunct t (by simp) (by simp [d])
    exact (h.unlink (t := t) (by simp [hs])).of_closed hs fun hc => (h.current t (by simp) hc).2.2

/-! ## Locking the scheduler, and starting it -/

theorem rtEnterCritical : k.rtEnterCritical.SchedInv none :=
  h.congr (fun _ => rfl) rfl rfl rfl rfl rfl

theorem rtExitCritical : k.rtExitCritical.SchedInv none := by
  have hlock (n : BitVec 16) : SchedInv { k with schedulerLockNest := n } none :=
    h.congr (fun _ => rfl) rfl rfl rfl rfl rfl
  unfold Kernel.rtExitCritical
  dsimp only
  split
  · split
    · exact (hlock _).rtSchedule
    · exact hlock _
  · exact hlock _

theorem rtSystemSchedulerStart (hk : k.rtSystemSchedulerStart = some k') : k'.SchedInv none := by
  unfold Kernel.rtSystemSchedulerStart at hk
  split at hk
  · rename_i p t hc hhead
    obtain ⟨-, hk⟩ := Option.ite_none_right_eq_some.1 hk
    cases hk
    simp only [schedulerGetHighestPriorityThread, Prod.mk.injEq] at hhead
    have hready := (h.ready_of_head hhead.2).1
    set k1 : Kernel := { k with currentThread := some t } with hk1
    have h1 : k1.Queues none := h.queues.congr (fun _ => rfl) rfl rfl rfl rfl
    have h2 : (k1.rtScheduleRemoveThread t).SchedInv (some t) := by
      refine ⟨h1.out (h1.masked t (by simp [hk1, hready]) (by simp [hk1, hready])), fun c hex hcur => ?_, fun u hex hu => ?_⟩
      · rw [rtScheduleRemoveThread_currentThread] at hcur
        exact absurd hcur hex
      · rw [rtScheduleRemoveThread_thread] at hu
        exact absurd (h.running u (by simp) hu) (by simp [hc])
    have h3 := h2.run (h2.queues.masked t (by simp [hk1, hready]) (by simp [hk1, hready])) (by simp [hk1])
    convert h3.modThread_congr (t := t) (f := fun x => { x with statYield := false }) rfl using 1
    simp [Kernel.modThread]
  · cases hk

end

end SchedInv

end Kernel

end RtThread
