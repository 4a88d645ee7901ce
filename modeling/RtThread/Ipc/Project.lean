import RtThread.Mutex.Project
import RtThread.Ipc.Waits

/-!
# The kernel, as IPC objects see it

`Kernel.waits` forgets the scheduler and the mutexes. For each function of `scheduler_up.c`, `thread.c` and `ipc.c`, a
lemma says what is left of it there: scheduling is nothing at all, resuming a thread is `wake`, and what timers, deleted
threads and the mutex functions do is `Quiet`.
-/

namespace RtThread

open Function (update update_of_ne update_self)

/-- A thread, as far as IPC objects see it. -/
def Thread.waiter (x : Thread) : Waiter :=
  { phase := x.stat.phase
    error := x.error
    calls := x.cont.filter (· ≠ .schedule)
    eventSet := x.eventSet
    eventInfo := x.eventInfo }

theorem ListHead.isWait_of_obj {h : ListHead} (hh : h.obj.isSome) : h.isWait := by
  cases h <;> first | rfl | cases hh

namespace Kernel

variable {k k' : Kernel} {t u : ThreadId} {h d : ListHead}

def objects (k : Kernel) : Objects := { sem := k.sem, event := k.event, mailbox := k.mailbox, mq := k.mq }

/-- The calls, wait lists and objects. -/
def waits (k : Kernel) : Waits :=
  { waiter := fun t => (k.thread t).waiter
    isr := fun i => (k.isrCont i).filter (· ≠ .schedule)
    list := fun h => if h.obj.isSome then k.tlist h else []
    objects := k.objects }

@[simp] theorem waits_waiter (k : Kernel) (t : ThreadId) : k.waits.waiter t = (k.thread t).waiter := rfl
@[simp] theorem waits_objects (k : Kernel) : k.waits.objects = k.objects := rfl

theorem waits_list (hh : h.obj.isSome) : k.waits.list h = k.tlist h := if_pos hh

theorem mem_waits_list : t ∈ k.waits.list h ↔ h.obj.isSome ∧ t ∈ k.tlist h := by
  change t ∈ (if h.obj.isSome then k.tlist h else []) ↔ _
  split <;> simp_all

theorem waits_suspended : (k.waits.waiter t).phase = .suspended ↔ k.suspended t = true := Stat.phase_eq_suspended

theorem waits_ext (hw : ∀ u, (k'.thread u).waiter = (k.thread u).waiter) (hi : k'.isrCont = k.isrCont)
    (hl : ∀ h : ListHead, h.obj.isSome → k'.tlist h = k.tlist h) (ho : k'.objects = k.objects) :
    k'.waits = k.waits := by
  have hw' : (fun u => (k'.thread u).waiter) = fun u => (k.thread u).waiter := funext hw
  have hl' : (fun h : ListHead => if h.obj.isSome then k'.tlist h else []) =
      fun h => if h.obj.isSome then k.tlist h else [] := by
    funext h
    split
    · exact hl h ‹_›
    · rfl
  unfold waits
  rw [hw', hi, hl', ho]

/-! ## Writes to one thread, and lists -/

theorem waits_modThread {f : Thread → Thread} {g : Waiter → Waiter}
    (hf : (f (k.thread t)).waiter = g (k.thread t).waiter) : (k.modThread t f).waits = k.waits.modWaiter t g := by
  have hw : (fun u => ((k.modThread t f).thread u).waiter) =
      update (fun u => (k.thread u).waiter) t (g (k.thread t).waiter) := by
    funext u
    by_cases e : u = t
    · subst e; rw [modThread_thread_self, update_self, hf]
    · rw [modThread_thread_of_ne e, update_of_ne e]
  unfold waits Waits.modWaiter
  rw [hw]
  rfl

theorem waits_modThread_same {f : Thread → Thread} (hf : (f (k.thread t)).waiter = (k.thread t).waiter) :
    (k.modThread t f).waits = k.waits :=
  waits_ext (modThread_part Thread.waiter hf) rfl (fun _ _ => rfl) rfl

@[simp] theorem waits_setError (e : RtErr) :
    (k.setError t e).waits = k.waits.modWaiter t fun x => { x with error := e } := waits_modThread rfl

@[simp] theorem waits_threadTimerStart : (k.threadTimerStart t).waits = k.waits := waits_modThread_same rfl

@[simp] theorem waits_threadTimerStop : (k.threadTimerStop t).waits = k.waits := waits_modThread_same rfl

@[simp] theorem waits_modMutex (m : MutexId) (g : Mutex → Mutex) : (k.modMutex m g).waits = k.waits := rfl

theorem waits_setFrames (c : Context) (fs : List Frame) :
    (k.setFrames c fs).waits = k.waits.setCalls c (fs.filter (· ≠ .schedule)) := by
  cases c with
  | thread t =>
    exact waits_modThread (k := k) (t := t) (f := fun x => { x with cont := fs })
      (g := fun x => { x with calls := fs.filter (· ≠ .schedule) }) rfl
  | isr i =>
    have hi : (fun j => (update k.isrCont i fs j).filter (· ≠ .schedule)) =
        update (fun j => (k.isrCont j).filter (· ≠ .schedule)) i (fs.filter (· ≠ .schedule)) := by
      funext j
      by_cases e : j = i
      · subst e; simp
      · simp [e]
    unfold waits Waits.setCalls setFrames
    rw [hi]
    rfl

theorem waits_setCont (fs : List Frame) :
    (k.setCont t fs).waits = k.waits.setCalls (.thread t) (fs.filter (· ≠ .schedule)) :=
  waits_setFrames (.thread t) fs

/-- Calls of `rt_schedule` do not count. -/
theorem waits_setCont_same {fs : List Frame}
    (hf : (fs.filter (· ≠ .schedule)) = (k.thread t).cont.filter (· ≠ .schedule)) :
    (k.setCont t fs).waits = k.waits := by
  refine waits_modThread_same ?_
  unfold Thread.waiter
  rw [hf]

/-- Unlinking a `tlist` node. -/
@[simp] theorem waits_remove (t : ThreadId) : waits { k with tlist := Links.remove k.tlist t } = k.waits.unlink t := by
  have hl : (fun h : ListHead => if h.obj.isSome then Links.remove k.tlist t h else []) =
      Links.remove (fun h : ListHead => if h.obj.isSome then k.tlist h else []) t := by
    funext h
    unfold Links.remove
    dsimp only
    split <;> rfl
  unfold waits Waits.unlink
  rw [hl]
  rfl

/-- A list that belongs to no IPC object changes. -/
theorem waits_tlist {L : ListHead → List ThreadId} (hd : d.obj = none) (hL : ∀ h, h ≠ d → L h = k.tlist h) :
    waits { k with tlist := L } = k.waits := by
  refine waits_ext (fun _ => rfl) rfl (fun h hh => hL h ?_) rfl
  rintro rfl
  rw [hd] at hh; cases hh

/-- The wait list of an IPC object changes. -/
theorem waits_update_tlist {xs : List ThreadId} (hd : d.obj.isSome) :
    waits { k with tlist := update k.tlist d xs } =
      { k.waits with list := update k.waits.list d xs } := by
  have hl : (fun h : ListHead => if h.obj.isSome then update k.tlist d xs h else []) =
      update (fun h : ListHead => if h.obj.isSome then k.tlist h else []) d xs := by
    funext h
    by_cases e : h = d
    · subst e; simp [hd]
    · simp [e]
  unfold waits
  rw [hl]
  rfl

/-! ## The scheduler -/

@[simp] theorem objects_rtScheduleInsertThread : (k.rtScheduleInsertThread t).objects = k.objects := by
  unfold rtScheduleInsertThread
  dsimp only
  split_ifs <;> rfl

@[simp] theorem isrCont_rtScheduleInsertThread : (k.rtScheduleInsertThread t).isrCont = k.isrCont := by
  unfold rtScheduleInsertThread
  dsimp only
  split_ifs <;> rfl

@[simp] theorem objects_rtScheduleRemoveThread : (k.rtScheduleRemoveThread t).objects = k.objects := by
  unfold rtScheduleRemoveThread
  dsimp only
  split_ifs <;> rfl

@[simp] theorem isrCont_rtScheduleRemoveThread : (k.rtScheduleRemoveThread t).isrCont = k.isrCont := by
  unfold rtScheduleRemoveThread
  dsimp only
  split_ifs <;> rfl

@[simp] theorem waits_rtScheduleInsertThread :
    (k.rtScheduleInsertThread t).waits = k.waits.modWaiter t fun x => { x with phase := .active } := by
  have hwait (u : ThreadId) : ((k.rtScheduleInsertThread t).thread u).waiter =
      ((k.modThread t fun x => { x with stat := .running }).thread u).waiter := by
    rw [rtScheduleInsertThread_thread, modThread_thread]
    by_cases e : u = t
    · subst e
      rw [update_self, update_self]
      split <;> rfl
    · rw [update_of_ne e, update_of_ne e]
  rw [waits_ext (k := k.modThread t fun x => { x with stat := .running }) hwait
    isrCont_rtScheduleInsertThread (fun h hh => ?_) objects_rtScheduleInsertThread]
  · exact waits_modThread rfl
  · have hne : h ≠ .ready (k.prio t) := by rintro rfl; cases hh
    rw [rtScheduleInsertThread_tlist]
    split_ifs
    · rfl
    · exact Links.insertBefore_ne hne
    · exact Links.insertAfter_ne hne

@[simp] theorem waits_rtScheduleRemoveThread : (k.rtScheduleRemoveThread t).waits = k.waits.unlink t := by
  rw [← waits_remove]
  refine waits_ext (fun u => ?_) isrCont_rtScheduleRemoveThread (fun h _ => ?_) objects_rtScheduleRemoveThread
  · rw [rtScheduleRemoveThread_thread]
  · rw [rtScheduleRemoveThread_tlist]

theorem waits_unlink_of_free (hl : ∀ h, t ∉ k.waits.list h) : k.waits.unlink t = k.waits := by
  rw [Waits.unlink, Links.remove_of_free hl]

/-- A thread that is not suspended is in no wait list. -/
theorem SchedInv.notMem_waits (hk : k.SchedInv none) (hs : k.suspended t = false) (h : ListHead) :
    t ∉ k.waits.list h := fun hm => by
  obtain ⟨hh, hm⟩ := mem_waits_list.1 hm
  simpa [hs] using hk.queues.wait t h (by simp) (ListHead.isWait_of_obj hh) hm

theorem SchedInv.waits_unlink (hk : k.SchedInv none) (hs : k.suspended t = false) : k.waits.unlink t = k.waits :=
  waits_unlink_of_free (hk.notMem_waits hs)

theorem waits_modWaiter_same {s : Waits} {f : Waiter → Waiter} (hf : f (s.waiter t) = s.waiter t) :
    s.modWaiter t f = s := by simp [Waits.modWaiter, hf]

/-- A thread that is ready or running already is active. -/
theorem waits_active {s : Stat} (hs : (k.thread t).stat = s) (hp : s.phase = .active) :
    (k.waits.modWaiter t fun x => { x with phase := .active }) = k.waits := by
  refine waits_modWaiter_same ?_
  rw [waits_waiter, ← hp, ← hs]
  rfl

section

variable (hk : k.SchedInv none)

include hk

theorem SchedInv.waits_switchTo {c : ThreadId} (ht : (k.thread t).stat = .ready) (hp : Nat) :
    (k.switchTo hp c t (decide ((k.thread c).stat = .running))).waits = k.waits := by
  have hu := hk.waits_unlink (suspended_of_stat ht rfl)
  unfold Kernel.switchTo
  rw [waits_modThread (g := fun x => { x with phase := .active }) rfl, waits_rtScheduleRemoveThread]
  split
  · rename_i hr
    rw [waits_rtScheduleInsertThread]
    change ((k.waits.modWaiter c _).unlink t).modWaiter t _ = _
    rw [waits_active (k := k) (by simpa using hr) rfl, hu, waits_active ht rfl]
  · change (k.waits.unlink t).modWaiter t _ = _
    rw [hu, waits_active ht rfl]

/-- `rt_schedule` is nothing to IPC objects. -/
@[simp] theorem SchedInv.waits_rtSchedule : k.rtSchedule.waits = k.waits := by
  rcases hk.rtSchedule_cases with ⟨-, e⟩ | ⟨c, -, -, hc, -, hr, -, e⟩ | ⟨c, hp, t, hc, -, ht, -, e⟩
  · rw [e]
  · rw [e, waits_modThread (g := fun x => { x with phase := .active }) rfl, waits_rtScheduleRemoveThread,
      waits_modThread_same rfl, hk.waits_unlink (suspended_of_stat hr rfl), waits_active hr rfl]
  · have hready := (hk.ready_of_head ht).1
    have hct : t ≠ c := by
      rintro rfl
      exact (hk.current _ (by simp) hc).1 hready
    rw [e]
    split
    · have h1 : (k.modThread c fun x => { x with statYield := false }).SchedInv none := hk.modThread_congr rfl
      have := h1.waits_switchTo (t := t) (c := c) (by rw [modThread_thread_of_ne hct]; exact hready) hp
      rw [modThread_thread_self] at this
      rw [this, waits_modThread_same rfl]
    · exact hk.waits_switchTo hready hp

theorem SchedInv.waits_callSchedule (isr : Bool) : (k.callSchedule isr).waits = k.waits := by
  unfold Kernel.callSchedule
  split
  · exact hk.waits_rtSchedule
  · split
    · rfl
    · exact waits_setCont_same rfl

theorem SchedInv.waits_needSchedule (isr need : Bool) : (k.needSchedule isr need).waits = k.waits := by
  unfold Kernel.needSchedule
  split
  · exact hk.waits_callSchedule isr
  · rfl

theorem SchedInv.waits_rtSystemSchedulerStart (hst : k.rtSystemSchedulerStart = some k') :
    k'.waits = k.waits := by
  unfold Kernel.rtSystemSchedulerStart at hst
  split at hst
  · rename_i p t hc hhead
    split at hst
    · cases hst
      simp only [schedulerGetHighestPriorityThread, Prod.mk.injEq] at hhead
      have hready := (hk.ready_of_head hhead.2).1
      rw [waits_modThread (g := fun x => { x with phase := .active }) rfl, waits_rtScheduleRemoveThread]
      change (k.waits.unlink t).modWaiter t _ = _
      rw [hk.waits_unlink (suspended_of_stat hready rfl), waits_active hready rfl]
    · cases hst
  · cases hst

theorem SchedInv.waits_rtExitCritical : k.rtExitCritical.waits = k.waits := by
  have hlock (n : BitVec 16) : SchedInv { k with schedulerLockNest := n } none :=
    hk.congr (fun _ => rfl) rfl rfl rfl rfl rfl
  unfold Kernel.rtExitCritical
  dsimp only
  split
  · split
    · exact (hlock _).waits_rtSchedule
    · rfl
  · rfl

end

/-! ## `thread.c` -/

/-- Resuming a suspended thread. -/
theorem waits_rtThreadResume (hs : k.suspended t) :
    (k.rtThreadResume t).1.waits = (k.waits.unlink t).modWaiter t fun x => { x with phase := .active } := by
  rw [rtThreadResume, if_pos hs]
  simp

theorem waits_resume (hs : k.suspended t) (e : RtErr) : ((k.setError t e).rtThreadResume t).1.waits = k.waits.wake t e := by
  rw [waits_rtThreadResume (by simpa [suspended, setError] using hs), waits_setError]
  simp [Waits.wake, Waits.modWaiter, Waits.unlink]

theorem SchedInv.waits_ipcListResume (hk : k.SchedInv none) (hd : d.obj.isSome) :
    (k.ipcListResume d).waits = k.waits.wakeFirst d := by
  unfold Kernel.ipcListResume Waits.wakeFirst
  rw [waits_list hd]
  cases ht : k.tlist d with
  | nil => rfl
  | cons t ts =>
    exact waits_resume (hk.queues.wait t d (by simp) (ListHead.isWait_of_obj hd) (by simp [ht])) _

theorem waits_wakeAll (ts : List ThreadId) (hts : ts.Nodup) (hs : ∀ t ∈ ts, k.suspended t) (e : RtErr) :
    (ts.foldl (fun k t => ((k.setError t e).rtThreadResume t).1) k).waits =
      ts.foldl (fun s t => s.wake t e) k.waits := by
  induction ts generalizing k with
  | nil => rfl
  | cons t ts ih =>
    obtain ⟨hmem, hts⟩ := List.nodup_cons.1 hts
    have h1 := waits_resume (hs t (by simp)) e
    rw [List.foldl_cons, List.foldl_cons, ← h1]
    refine ih hts fun u hu => ?_
    have hne : u ≠ t := by rintro rfl; exact hmem hu
    have h2 := waits_suspended.2 (hs u (by simp [hu]))
    rw [← waits_suspended, h1, Waits.wake_waiter_of_ne _ _ hne]
    exact h2

theorem SchedInv.waits_ipcListResumeAll (hk : k.SchedInv none) (hd : d.obj.isSome) :
    (k.ipcListResumeAll d).waits = k.waits.wakeAll d := by
  unfold Kernel.ipcListResumeAll Waits.wakeAll
  rw [waits_list hd]
  exact waits_wakeAll _ (hk.queues.wf.nodup d)
    (fun t ht => hk.queues.wait t d (by simp) (ListHead.isWait_of_obj hd) ht) _

/-- Suspending a thread that is in no wait list. -/
theorem SchedInv.waits_rtThreadSuspendWithFlag (hk : k.SchedInv none) {flag : SuspendFlag}
    (hr : (k.rtThreadSuspendWithFlag t flag).2 = .eok) :
    (k.rtThreadSuspendWithFlag t flag).1.waits = k.waits.modWaiter t fun x => { x with phase := .suspended } := by
  unfold Kernel.rtThreadSuspendWithFlag at hr ⊢
  split_ifs at hr with hs hc
  rw [if_pos hs, if_pos hc]
  have hns : k.suspended t = false := by rcases hs with hs | hs <;> simp [suspended, hs, Stat.isSuspend]
  rw [waits_threadTimerStop, waits_modThread (g := fun x => { x with phase := .suspended }) rfl,
    waits_rtScheduleRemoveThread, hk.waits_unlink hns]

/-- Suspending a caller in a list: it fails and changes nothing, or the thread is linked. -/
theorem SchedInv.ipcListSuspend_cases (hk : k.SchedInv none) (hs : k.suspended t = false) (flag : IpcFlag)
    (suspendFlag : SuspendFlag) (hd : d.isWait) :
    ((k.ipcListSuspend d t flag suspendFlag).2 ≠ .eok ∧ (k.ipcListSuspend d t flag suspendFlag).1 = k) ∨
    ((k.ipcListSuspend d t flag suspendFlag).2 = .eok ∧ ∃ k1 : Kernel, ∃ xs : List ThreadId,
      k1.waits = (k.waits.modWaiter t fun x => { x with phase := .suspended }) ∧ xs.Perm (t :: k.tlist d) ∧
      (k.ipcListSuspend d t flag suspendFlag).1 = { k1 with tlist := update k1.tlist d xs }) := by
  unfold Kernel.ipcListSuspend
  simp only [hs, Bool.false_eq_true, if_false]
  rcases hk.rtThreadSuspendWithFlag t suspendFlag with ⟨he, e⟩ | ⟨he, -, -⟩
  · rw [if_pos he]; exact .inl ⟨he, e⟩
  · have hw := hk.waits_rtThreadSuspendWithFlag he
    have hnot : t ∉ k.tlist d := fun hm => by simpa [hs] using hk.queues.wait t d (by simp) hd hm
    have hlist : (k.rtThreadSuspendWithFlag t suspendFlag).1.tlist d = k.tlist d := by
      unfold Kernel.rtThreadSuspendWithFlag at he ⊢
      split_ifs at he with h1 h2
      rw [if_pos h1, if_pos h2]
      change (k.rtScheduleRemoveThread t).tlist d = _
      rw [rtScheduleRemoveThread_tlist, Links.remove_of_notMem hnot]
    rw [if_neg (by simp [he])]
    cases flag with
    | fifo =>
      exact .inr ⟨rfl, _, k.tlist d ++ [t], hw, List.perm_append_singleton _ _, by simp only [Links.insertBefore, hlist]⟩
    | prio =>
      have hperm := List.perm_orderedInsert (fun a b => (k.rtThreadSuspendWithFlag t suspendFlag).1.prio a <
        (k.rtThreadSuspendWithFlag t suspendFlag).1.prio b) t (k.tlist d)
      exact .inr ⟨rfl, _, _, hw, hperm, by simp only [Links.insertSorted, hlist]⟩

end Kernel

end RtThread
