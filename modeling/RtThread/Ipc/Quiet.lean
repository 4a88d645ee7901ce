import RtThread.Ipc.Project

/-!
# What is nothing to IPC objects

Timers, deleted threads, priority changes and the mutex functions grant nobody anything: they are `Quiet`, although a
thread with an old `pending_object` may even leave the wait list it is in for that of a mutex.
-/

namespace RtThread

namespace Waits

variable {s s' s'' : Waits} {ev : Ev} {t : ThreadId} {g : Waiter → Waiter}

namespace Quiet

theorem refl (s : Waits) : Quiet ev s s :=
  ⟨rfl, rfl, fun _ => .inl rfl, fun _ => .refl _, fun _ _ => ⟨rfl, rfl⟩, fun _ _ => .rfl, fun _ _ _ => .inl rfl⟩

theorem of_eq (h : s' = s) : Quiet ev s s' := by
  rw [h]
  exact refl s

theorem trans (h : Quiet ev s s') (h' : Quiet ev s' s'') : Quiet ev s s'' where
  objects := h'.objects.trans h.objects
  isr := h'.isr.trans h.isr
  calls t := by
    rcases h'.calls t with e' | ⟨h1', h2'⟩
    · rcases h.calls t with e | ⟨h1, h2⟩
      · exact .inl (e'.trans e)
      · exact .inr ⟨h1, by rw [e']; exact h2⟩
    · rcases h.calls t with e | ⟨h1, -⟩
      · exact .inr ⟨by rw [← e]; exact h1', h2'⟩
      · exact .inr ⟨h1, h2'⟩
  sub d := (h'.sub d).trans (h.sub d)
  request hc ho := by
    obtain ⟨h1, h2⟩ := h.request hc ho
    obtain ⟨h1', h2'⟩ := h'.request ((h.calls_eq ho).2 hc) ho
    exact ⟨h1'.trans h1, h2'.trans h2⟩
  error hc hh := (h'.error ((h.calls_eq (Frame.isSome_obj hh)).2 hc) hh).trans (h.error hc hh)
  phase hc hh he := by
    rcases h'.phase ((h.calls_eq (Frame.isSome_obj hh)).2 hc) hh ((h.error hc hh).2 he) with h2 | h2
    · rcases h.phase hc hh he with h1 | ⟨hev, h1⟩
      · exact .inl (h2.trans h1)
      · exact .inr ⟨hev, h2.trans h1⟩
    · exact .inr h2

theorem unlink (s : Waits) (t : ThreadId) : Quiet ev s (s.unlink t) :=
  ⟨rfl, rfl, fun _ => .inl rfl, fun _ => List.filter_sublist, fun _ _ => ⟨rfl, rfl⟩, fun _ _ => .rfl,
    fun _ _ _ => .inl rfl⟩

/-- A thread changes within its call. -/
theorem modWaiter (hc : (g (s.waiter t)).calls = (s.waiter t).calls)
    (hr : (g (s.waiter t)).eventSet = (s.waiter t).eventSet ∧ (g (s.waiter t)).eventInfo = (s.waiter t).eventInfo)
    (he : ∀ f h, (s.waiter t).calls = [f] → f.head = some h → ((g (s.waiter t)).error = .eok ↔ (s.waiter t).error = .eok))
    (hp : ∀ f h, (s.waiter t).calls = [f] → f.head = some h → (s.waiter t).error = .eok →
      (g (s.waiter t)).phase = (s.waiter t).phase ∨ ev = .delete t ∧ (g (s.waiter t)).phase = .closed) :
    Quiet ev s (s.modWaiter t g) := by
  refine ⟨rfl, rfl, fun u => ?_, fun _ => .refl _, fun {u f} hcu hf => ?_, fun {u f h} hf hh => ?_,
    fun {u f h} hf hh hu => ?_⟩
  all_goals by_cases e : u = t
  · subst e; rw [modWaiter_waiter_self]; exact .inl hc
  · rw [modWaiter_waiter_of_ne _ _ e]; exact .inl rfl
  · subst e; rw [modWaiter_waiter_self]; exact hr
  · rw [modWaiter_waiter_of_ne _ _ e]; exact ⟨rfl, rfl⟩
  · subst e; rw [modWaiter_waiter_self]; exact he f h hf hh
  · rw [modWaiter_waiter_of_ne _ _ e]
  · subst e; rw [modWaiter_waiter_self]; exact hp f h hf hh hu
  · rw [modWaiter_waiter_of_ne _ _ e]; exact .inl rfl

/-- A thread that is in no call of an IPC function changes. -/
theorem idle (hc : Plain (s.waiter t).calls) (hg : Plain (g (s.waiter t)).calls) : Quiet ev s (s.modWaiter t g) := by
  have absurd' {f : Frame} {α : Prop} (hf : (s.waiter t).calls = [f]) (ho : f.obj.isSome) : α := by
    rw [hc.2 f (by simp [hf])] at ho
    cases ho
  refine ⟨rfl, rfl, fun u => ?_, fun _ => .refl _, fun {u f} hf ho => ?_, fun {u f h} hf hh => ?_,
    fun {u f h} hf hh _ => ?_⟩
  all_goals by_cases e : u = t
  · subst e; rw [modWaiter_waiter_self]; exact .inr ⟨hc, hg⟩
  · rw [modWaiter_waiter_of_ne _ _ e]; exact .inl rfl
  · subst e; exact absurd' hf ho
  · rw [modWaiter_waiter_of_ne _ _ e]; exact ⟨rfl, rfl⟩
  · subst e; exact absurd' hf (Frame.isSome_obj hh)
  · rw [modWaiter_waiter_of_ne _ _ e]
  · subst e; exact absurd' hf (Frame.isSome_obj hh)
  · rw [modWaiter_waiter_of_ne _ _ e]; exact .inl rfl

/-- A thread that was granted nothing runs on with an error code, or keeps the one it has. -/
theorem wake (hn : ∀ f h, (s.waiter t).calls = [f] → f.head = some h → (s.waiter t).error ≠ .eok) {e : RtErr}
    (he : e ≠ .eok ∨ e = (s.waiter t).error) : Quiet ev s (s.wake t e) := by
  refine (unlink s t).trans (modWaiter (g := fun x => { x with phase := .active, error := e }) rfl ⟨rfl, rfl⟩
    (fun f h hf hh => ?_) fun f h hf hh hu => absurd hu (hn f h hf hh))
  have hn' := hn f h hf hh
  rcases he with he | he
  · exact iff_of_false he hn'
  · rw [unlink_waiter, he]

end Quiet

end Waits

namespace Kernel

open Waits (Quiet Plain)

variable {k k' : Kernel} {t u o : ThreadId} {m : MutexId} {ev : Ev}

/-- A suspended thread was granted nothing. -/
theorem error_of_suspended (hw : k.waits.Waiting) (hs : k.suspended t) (f : Frame) (h : ListHead)
    (hf : (k.waits.waiter t).calls = [f]) (hh : f.head = some h) : (k.waits.waiter t).error ≠ .eok :=
  fun he => hw.awake hf hh he (waits_suspended.2 hs)

theorem calls_of_cont_nil (hc : (k.thread t).cont = []) : (k.waits.waiter t).calls = [] := by
  change (k.thread t).cont.filter _ = []
  rw [hc]; rfl

theorem plain_of_cont_nil (hc : (k.thread t).cont = []) : Plain (k.waits.waiter t).calls := by
  rw [calls_of_cont_nil hc]; exact .nil

/-- The frames of a thread that is in no call of an IPC function change. -/
theorem quiet_setCont {fs : List Frame} (hc : Plain (k.waits.waiter t).calls) (hf : Plain (fs.filter (· ≠ .schedule))) :
    Quiet ev k.waits (k.setCont t fs).waits := by
  rw [waits_setCont]
  exact Quiet.idle (g := fun x => { x with calls := fs.filter (· ≠ .schedule) }) hc hf

/-! ## `thread.c` -/

theorem SchedInv.waits_changePriority (hk : k.SchedInv none) (t : ThreadId) (p : Nat) :
    (k.rtThreadControlChangePriority t p).waits = k.waits := by
  refine waits_ext (fun u => ?_) ?_ (fun h hh => ?_) ?_
  · rw [hk.rtThreadControlChangePriority_thread]
    by_cases e : u = t
    · subst e
      rw [Function.update_self, calcPriorityAttribute]
      split <;> rfl
    · rw [Function.update_of_ne e]
  · unfold Kernel.rtThreadControlChangePriority
    split
    · rw [isrCont_rtScheduleInsertThread]; exact isrCont_rtScheduleRemoveThread
    · rfl
  · refine hk.rtThreadControlChangePriority_tlist t p fun q hq => ?_
    subst hq; cases hh
  · unfold Kernel.rtThreadControlChangePriority
    split
    · rw [objects_rtScheduleInsertThread]; exact objects_rtScheduleRemoveThread
    · rfl

theorem quiet_rtThreadResume (hw : k.waits.Waiting) (t : ThreadId) : Quiet ev k.waits (k.rtThreadResume t).1.waits := by
  by_cases hs : k.suspended t
  · rw [waits_rtThreadResume hs]
    exact Quiet.wake (error_of_suspended hw hs) (.inr rfl)
  · rw [rtThreadResume, if_neg hs]
    exact .refl _

theorem quiet_threadTimeout (hw : k.waits.Waiting) (hst : k.threadTimeout t = some k') :
    Quiet ev k.waits k'.waits := by
  unfold Kernel.threadTimeout at hst
  obtain ⟨hs, hst⟩ := Option.ite_none_right_eq_some.1 hst
  cases hst
  have h1 : (rtScheduleInsertThread { k.setError t .etimeout with
      tlist := Links.remove (k.setError t .etimeout).tlist t } t).waits = k.waits.wake t .etimeout := by
    simp [Waits.wake, Waits.modWaiter, Waits.unlink]
  rw [h1]
  exact Quiet.wake (error_of_suspended hw hs) (.inl (by simp))

theorem SchedInv.waits_rtThreadStartup (hk : k.SchedInv none) (hst : k.rtThreadStartup t = some k') :
    k'.waits = k.waits := by
  unfold Kernel.rtThreadStartup at hst
  obtain ⟨hi, hst⟩ := Option.ite_none_right_eq_some.1 hst
  cases hst
  have hcalc : (k.calcPriorityAttribute (k.thread t)).waiter = (k.thread t).waiter := by
    unfold calcPriorityAttribute
    split <;> rfl
  set k1 := (k.modThread t fun x => k.calcPriorityAttribute x).modThread t fun x =>
    { x with stat := .suspend .interruptible, statYield := false } with hk1
  have h1 : k1.waits = k.waits.modWaiter t fun x => { x with phase := .suspended } := by
    rw [hk1, waits_modThread (g := fun x => { x with phase := .suspended }) rfl, waits_modThread_same hcalc]
  have hs1 : k1.suspended t := by rw [suspended, hk1, modThread_thread_self]; rfl
  have hu : (k.waits.modWaiter t fun x => { x with phase := .suspended }).unlink t =
      (k.waits.unlink t).modWaiter t fun x => { x with phase := .suspended } := rfl
  rw [waits_rtThreadResume hs1, h1, hu, hk.waits_unlink (suspended_of_stat hi rfl)]
  unfold Waits.modWaiter
  simp only [Function.update_self, Function.update_idem]
  exact waits_active hi rfl

/-- A caller suspends itself, in the list of a mutex or in none. -/
theorem SchedInv.quiet_suspend (hk : k.SchedInv none) (hc : Plain (k.waits.waiter t).calls) (flag : SuspendFlag) :
    Quiet ev k.waits (k.rtThreadSuspendWithFlag t flag).1.waits := by
  rcases hk.rtThreadSuspendWithFlag t flag with ⟨-, e⟩ | ⟨he, -⟩
  · rw [e]; exact .refl _
  · rw [hk.waits_rtThreadSuspendWithFlag he]
    exact Quiet.idle hc hc

theorem quiet_setError (hc : Plain (k.waits.waiter t).calls) (e : RtErr) : Quiet ev k.waits (k.setError t e).waits := by
  rw [waits_setError]
  exact Quiet.idle hc hc

theorem SchedInv.quiet_rtThreadSleep (hk : k.SchedInv none) (hc : (k.thread t).cont = []) (tick : BitVec 32) :
    Quiet ev k.waits (k.rtThreadSleep t tick).1.waits := by
  unfold Kernel.rtThreadSleep
  have hc0 := plain_of_cont_nil hc
  have h1 : Quiet ev k.waits (k.setError t .eok).waits := quiet_setError hc0 .eok
  have h2 := h1.trans ((hk.setError t .eok).quiet_suspend (h1.plain hc0) .interruptible)
  dsimp only
  split
  · exact .refl _
  · split
    · have h3 : Quiet ev k.waits ((((k.setError t .eok).rtThreadSuspendWithFlag t .interruptible).1.threadTimerStart t).setError t
          .eintr).waits := by
        rw [waits_setError, waits_threadTimerStart]
        exact h2.trans (Quiet.idle (h2.plain hc0) (h2.plain hc0))
      exact h3.trans (quiet_setCont (h3.plain hc0) ⟨by simp, by simp [Frame.obj]⟩)
    · exact h2

theorem quiet_rtThreadSleepWake (hc : Plain (k.waits.waiter t).calls) :
    Quiet ev k.waits (k.rtThreadSleepWake t).waits := by
  unfold rtThreadSleepWake
  split
  · exact quiet_setError hc .eok
  · exact .refl _

theorem waits_rtThreadDefunctEnqueue (t : ThreadId) : (k.rtThreadDefunctEnqueue t).waits = k.waits :=
  waits_tlist (d := .defunct) rfl fun _ hh => Links.insertAfter_ne hh

/-- A thread that is in no call ends. -/
theorem quiet_threadExit (hc : (k.thread t).cont = []) : Quiet ev k.waits (k.threadExit t).waits := by
  unfold threadExit
  rw [waits_rtThreadDefunctEnqueue, waits_modThread (g := fun x => { x with phase := .closed }) rfl,
    waits_threadTimerStop, waits_rtScheduleRemoveThread]
  have hc0 := plain_of_cont_nil hc
  exact (Quiet.unlink _ t).trans (Quiet.idle hc0 hc0)

/-! ## Mutexes -/

theorem waits_moveWaiter : (k.moveWaiter t m).waits = k.waits.unlink t := by
  unfold moveWaiter mutexUpdatePriority
  rw [waits_modMutex, ← waits_remove]
  exact waits_tlist (k := { k with tlist := Links.remove k.tlist t }) (d := .mutex m) rfl
    fun _ hh => Links.insertSorted_ne hh

variable {p fuel : Nat}

/-- A chain of priority changes. -/
theorem Raise.quiet (hr : Raise k t p k') (hk : k.SchedInv none) (hp : p < k.priorityMax) : Quiet ev k.waits k'.waits := by
  induction hr with
  | stop hk1 => exact .of_eq (hk1 ▸ hk.waits_changePriority _ _)
  | last hk1 hs _ _ hk2 =>
    rw [hk2, waits_moveWaiter, hk1, hk.waits_changePriority]
    exact .unlink _ _
  | next hk1 hs _ _ hk2 _ _ _ ih =>
    have h1 := hk1 ▸ hk.rtThreadControlChangePriority _ hp
    have h2 := hk2 ▸ h1.moveWaiter hs _
    refine Quiet.trans ?_ (ih h2 (h2.threadGetMutexPriority_lt _))
    rw [hk2, waits_moveWaiter, hk1, hk.waits_changePriority]
    exact .unlink _ _

theorem SchedInv.quiet_waiterLeft (hk : k.SchedInv none) (hst : Kernel.waiterLeft fuel k m t = some k') :
    Quiet ev k.waits k'.waits := by
  unfold Kernel.waiterLeft at hst
  have h1 := hk.mutexUpdatePriority m
  split at hst
  · cases hst
  · dsimp only at hst
    split_ifs at hst
    · exact (Raise.of_threadUpdatePriority hst).quiet h1 (h1.threadGetMutexPriority_lt _)
    all_goals obtain rfl := Option.some.inj hst; exact .refl _

theorem SchedInv.quiet_rtMutexSetprioceiling {r : Kernel × Nat} (hk : k.SchedInv none)
    (hst : Kernel.rtMutexSetprioceiling fuel k m p = some r) : Quiet ev k.waits r.1.waits := by
  unfold Kernel.rtMutexSetprioceiling at hst
  have h1 := hk.modMutex m fun x => { x with ceilingPriority := p }
  dsimp only at hst
  split at hst
  · split at hst
    · obtain rfl := Option.some.inj hst; exact .refl _
    · split at hst
      · obtain ⟨k2, hk2, rfl⟩ := Option.map_eq_some_iff.1 hst
        exact (Raise.of_threadUpdatePriority hk2).quiet h1 (h1.threadGetMutexPriority_lt _)
      · obtain rfl := Option.some.inj hst; exact .refl _
  · obtain rfl := Option.some.inj hst; exact .refl _

theorem quiet_wakeAll (ts : List ThreadId) (hts : ts.Nodup) (hw : k.waits.Waiting) (hs : ∀ t ∈ ts, k.suspended t) :
    Quiet ev k.waits (ts.foldl (fun k t => ((k.setError t .error).rtThreadResume t).1) k).waits := by
  rw [waits_wakeAll ts hts hs]
  have hs' : ∀ t ∈ ts, (k.waits.waiter t).phase = .suspended := fun t ht => waits_suspended.2 (hs t ht)
  clear hs
  generalize k.waits = s at hw hs'
  induction ts generalizing s with
  | nil => exact .refl s
  | cons t ts ih =>
    obtain ⟨hmem, hts⟩ := List.nodup_cons.1 hts
    have h1 : Quiet ev s (s.wake t .error) := Quiet.wake
      (fun f h hf hh he => hw.awake hf hh he (hs' t (by simp))) (.inl (by simp))
    refine h1.trans (ih hts _ (hw.quiet h1) fun u hu => ?_)
    have hne : u ≠ t := by rintro rfl; exact hmem hu
    rw [Waits.wake_waiter_of_ne _ _ hne]
    exact hs' u (by simp [hu])

theorem SchedInv.quiet_rtMutexDetach (hk : k.SchedInv none) (hw : k.waits.Waiting) (object : ObjectState) :
    Quiet ev k.waits (k.rtMutexDetach m object).waits :=
  quiet_wakeAll (k.tlist (.mutex m)) (hk.queues.wf.nodup _) hw fun t ht =>
    hk.queues.wait t (.mutex m) (by simp) rfl ht

theorem SchedInv.quiet_rtMutexTake {timeout : BitVec 32} {flag : SuspendFlag} {r : Kernel × Option RtErr}
    (hk : k.SchedInv none) (hc : k.caller = some t) (hst : Kernel.rtMutexTake fuel k t m timeout flag = some r) :
    Quiet ev k.waits r.1.waits := by
  obtain ⟨-, hcont, hs⟩ := caller_eq_some.1 hc
  have h0 : Quiet ev k.waits (k.setError t .eok).waits := quiet_setError (plain_of_cont_nil hcont) .eok
  have hk0 := hk.setError t .eok
  have hc0 : Plain ((k.setError t .eok).waits.waiter t).calls := h0.plain (plain_of_cont_nil hcont)
  have hs0 : (k.setError t .eok).suspended t = false := by rw [suspended, Kernel.setError, modThread_thread_self]; exact hs
  unfold Kernel.rtMutexTake at hst
  dsimp only at hst
  refine h0.trans ?_
  generalize k.setError t .eok = k0 at hst hk0 hc0 hs0
  split at hst
  · split at hst
    all_goals obtain rfl := Option.some.inj hst; exact .refl _
  · split at hst
    · obtain ⟨k2, hk2, rfl⟩ := Option.map_eq_some_iff.1 hst
      have h1 := hk0.modMutex m fun x => { x with owner := some t, priority := 0xff, hold := 1 }
      split at hk2
      · rename_i hlt
        exact (Raise.of_threadUpdatePriority hk2).quiet h1 (hlt.2.trans (h1.queues.prio_lt t))
      · rw [← Option.some.inj hk2]; exact .refl _
    · rename_i o ho
      split at hst
      · obtain rfl := Option.some.inj hst; exact quiet_setError hc0 _
      · rcases hk0.ipcListSuspend_cases hs0 .prio flag (d := .mutex m) rfl with ⟨he, e⟩ | ⟨he, k1, xs, hk1, -, e⟩
        · rw [if_pos he] at hst
          cases hst
          rw [e]; exact .refl _
        · rw [if_neg (by simp [he])] at hst
          obtain ⟨k3, hk3, rfl⟩ := Option.map_eq_some_iff.1 hst
          have hsched := hk0.ipcListSuspend (t := t) (d := .mutex m) rfl (fun hs' => by simp [hs0] at hs') .prio flag
          have hw1 : (k0.ipcListSuspend (.mutex m) t .prio flag).1.waits = k1.waits := by
            rw [e]
            exact waits_tlist (d := .mutex m) rfl fun _ hh => Function.update_of_ne hh _ _
          have hq1 : Quiet ev k0.waits (k0.ipcListSuspend (.mutex m) t .prio flag).1.waits := by
            rw [hw1, hk1]; exact Quiet.idle hc0 hc0
          generalize k0.ipcListSuspend (.mutex m) t .prio flag = r at hk3 hsched hq1
          have h2 : (r.1.modThread t fun x => { x with pendingObject := some m }).SchedInv none :=
            hsched.modThread_congr rfl
          have hq2 : Quiet ev k0.waits (r.1.modThread t fun x => { x with pendingObject := some m }).waits := by
            rw [waits_modThread_same rfl]; exact hq1
          have hq3 : Quiet ev k0.waits k3.waits := by
            refine hq2.trans ?_
            split_ifs at hk3 with hlt hlt'
            · exact (Raise.of_threadUpdatePriority hk3).quiet (h2.modMutex m _)
                (hlt'.trans ((h2.modMutex m _).queues.prio_lt o))
            all_goals obtain rfl := Option.some.inj hk3; exact .refl _
          have hq4 : Quiet ev k0.waits (if 0 < timeout.toInt then k3.threadTimerStart t else k3).waits := by
            split
            · rw [waits_threadTimerStart]; exact hq3
            · exact hq3
          exact hq4.trans (quiet_setCont (hq4.plain hc0) ⟨by simp, by simp [Frame.obj]⟩)

theorem SchedInv.quiet_rtMutexTakeWake {r : Kernel × RtErr} (hk : k.SchedInv none)
    (hst : Kernel.rtMutexTakeWake fuel k t m = some r) : Quiet ev k.waits r.1.waits := by
  unfold Kernel.rtMutexTakeWake at hst
  split_ifs at hst
  · obtain rfl := Option.some.inj hst; exact .refl _
  · obtain ⟨k2, hk2, rfl⟩ := Option.map_eq_some_iff.1 hst
    exact hk.quiet_waiterLeft hk2

theorem quiet_mutexHandOver (hw : k.waits.Waiting) (hs : k.suspended t) :
    Quiet ev k.waits (k.mutexHandOver m t).waits := by
  have resume (j : Kernel) (hj : j.waits = k.waits.unlink t) (hjs : j.suspended t) :
      Quiet ev k.waits (j.rtThreadResume t).1.waits := by
    rw [waits_rtThreadResume hjs, hj]
    exact (Quiet.unlink _ t).trans
      (Quiet.wake (s := k.waits.unlink t) (fun f h hf hh => error_of_suspended hw hs f h hf hh) (.inr rfl))
  refine resume _ ?_ (by simpa [suspended] using hs)
  rw [waits_modThread_same rfl, ← waits_remove]
  rfl

theorem SchedInv.quiet_rtMutexRelease (hk : k.SchedInv none) (hw : k.waits.Waiting) (hc : Plain (k.waits.waiter t).calls) :
    Quiet ev k.waits (k.rtMutexRelease t m).1.waits := by
  unfold Kernel.rtMutexRelease
  split
  · exact quiet_setError hc _
  · have h1 := hk.modMutex m fun x => { x with hold := (x.hold + 255) % 256 }
    have hw1 : (k.modMutex m fun x => { x with hold := (x.hold + 255) % 256 }).waits = k.waits := rfl
    dsimp only
    split
    · rw [← hw1]
      generalize (k.modMutex m fun x => { x with hold := (x.hold + 255) % 256 }) = k1 at h1 hw1
      unfold Kernel.mutexReleaseLast
      have h2 := h1.setTaken (Links.remove k1.takenObjectList m)
      have hw2 : waits { k1 with takenObjectList := Links.remove k1.takenObjectList m } = k1.waits := rfl
      rw [← hw2] at hw1 ⊢
      generalize { k1 with takenObjectList := Links.remove k1.takenObjectList m } = k2 at h2 hw1
      dsimp only
      generalize decide ((k2.mutex m).ceilingPriority ≠ 0xff ∨ k2.prio t = (k2.mutex m).priority) = change
      have h3 : (if change then k2.rtThreadControlChangePriority t (k2.threadGetMutexPriority t) else k2).SchedInv none ∧
          (if change then k2.rtThreadControlChangePriority t (k2.threadGetMutexPriority t) else k2).waits = k2.waits := by
        split
        · exact ⟨h2.rtThreadControlChangePriority t (h2.threadGetMutexPriority_lt t), h2.waits_changePriority _ _⟩
        · exact ⟨h2, rfl⟩
      rw [← h3.2]
      have hw3 : (if change then k2.rtThreadControlChangePriority t (k2.threadGetMutexPriority t) else k2).waits =
        k.waits := h3.2.trans hw1
      generalize (if change then k2.rtThreadControlChangePriority t (k2.threadGetMutexPriority t) else k2) = k3 at h3 hw3
      split
      · rename_i n ns hn
        have hs : k3.suspended n := h3.1.queues.wait n (.mutex m) (by simp) rfl (by simp [hn])
        exact quiet_mutexHandOver (hw3 ▸ hw) hs
      · exact .refl _
    · exact .refl _

/-! ## Deleting a thread -/

theorem SchedInv.quiet_rtThreadDelete (hk : k.SchedInv none) (hst : Kernel.rtThreadDelete fuel k t = some k') :
    Quiet (.delete t) k.waits k'.waits := by
  unfold Kernel.rtThreadDelete at hst
  split at hst
  · rw [← Option.some.inj hst]; exact .refl _
  · rename_i hnc
    obtain ⟨k1, hk1, rfl⟩ := Option.map_eq_some_iff.1 hst
    rw [waits_rtThreadDefunctEnqueue]
    have hs1 := SchedInv.threadClose_stat k t
    have h1 := (hk.threadClose hnc).of_closed hs1 hk.threadClose_masked
    have hq1 : Quiet (.delete t) k.waits (k.threadClose t).waits := by
      unfold Kernel.threadClose
      rw [waits_modThread (g := fun x => { x with phase := .closed }) rfl, waits_threadTimerStop]
      have h0 : Quiet (.delete t) k.waits (if (k.thread t).stat ≠ .init then k.rtScheduleRemoveThread t else k).waits := by
        split
        · rw [waits_rtScheduleRemoveThread]; exact .unlink _ _
        · exact .refl _
      exact h0.trans (Quiet.modWaiter rfl ⟨rfl, rfl⟩ (fun _ _ _ _ => .rfl) fun _ _ _ _ _ => .inr ⟨rfl, rfl⟩)
    refine hq1.trans ?_
    unfold Kernel.dropPendingObject at hk1
    split at hk1
    · rw [← Option.some.inj hk1]; exact .refl _
    · split at hk1
      · cases hk1
      · rw [← Option.some.inj hk1]; exact .refl _
      · obtain ⟨k2, hk2, rfl⟩ := Option.map_eq_some_iff.1 hk1
        rw [waits_modThread_same rfl]
        have h2 := (h1.unlink (t := t) (by simp [hs1])).of_closed hs1 fun hc => (h1.current t (by simp) hc).2.2
        refine Quiet.trans ?_ (h2.quiet_waiterLeft hk2)
        rw [waits_remove]
        exact .unlink _ _

end Kernel

end RtThread
