import RtThread.Mutex.Ownership

/-!
# Pending objects

In every run in which no waiter of a mutex times out, `pending_object` is set exactly for the waiters of mutexes, so the
functions that follow it move a thread within the list it waits in (`pending_iff_waiting`). A waiter that times out keeps
its `pending_object` (`not_pending_iff_waiting`).
-/

namespace RtThread

/-- The events of runs in which threads wait for mutexes and for other objects, and are deleted. -/
def Ev.isWaiting (ev : Ev) : Bool :=
  ev.isSched || ev.isMutex || match ev with
    | .semTake _ _ _ | .semRelease _ _ | .eventRecv _ _ _ _ _ | .eventSend _ _ _ | .mbSendWait _ _ _ _ | .mbUrgent _ _ _
    | .mbRecv _ _ _ | .sleep _ | .mutexSetprioceiling _ _ | .exit | .delete _ => true
    | _ => false

namespace Protocol

variable {P : Frame → Prop} {s s' : Protocol} {t u : ThreadId} {m m' : MutexId}

/-- Only waiters have a pending mutex. -/
def Pending (s : Protocol) : Prop := ∀ t m, (s.party t).pending = some m → t ∈ s.waiters m

theorem Pending.congr (h : Pending s) (hs : Same s s') : Pending s' := fun t m hm => by
  rw [hs.pending] at hm
  exact (hs.mem t m).2 (h t m hm)

/-- A thread that is not in `_rt_mutex_take` has none. -/
theorem Pending.of_taking (h : Pending s) (hb : Base P s) (ht : (s.party t).taking = none) :
    (s.party t).pending = none := by
  by_contra hne
  obtain ⟨m, hm⟩ := Option.ne_none_iff_exists'.1 hne
  rw [(hb.taking (h t m hm)).1] at ht
  cases ht

theorem Pending.of_active (h : Pending s) (hb : Base P s) (ht : (s.party t).phase ≠ .suspended) :
    (s.party t).pending = none := by
  by_contra hne
  obtain ⟨m, hm⟩ := Option.ne_none_iff_exists'.1 hne
  exact ht (hb.waiting (h t m hm)).1

/-- Only the thread `t` changes, and has no pending mutex then. -/
theorem Pending.update (h : Pending s) (hparty : ∀ u, u ≠ t → s'.party u = s.party u)
    (hmem : ∀ u m', u ≠ t → u ∈ s.waiters m' → u ∈ s'.waiters m') (hself : (s'.party t).pending = none) : Pending s' := by
  intro u m' hm
  by_cases e : u = t
  · subst e; rw [hself] at hm; cases hm
  · rw [hparty u e] at hm
    exact hmem u m' e (h u m' hm)

/-- Timeouts, wakings from outside and detached mutexes apart, the pending mutexes follow the wait lists. -/
theorem Core.pending {a : Act} (hst : Core P s a s') (hb : Base P s) (h : Pending s)
    (ha : ∀ t m, a ≠ .expire t m ∧ a ≠ .wake t m ∧ a ≠ .detach m) : Pending s' := by
  have hmem {t : ThreadId} : ∀ u m', u ≠ t → u ∈ s.waiters m' → u ∈ Links.remove s.waiters t m' :=
    fun u m' hu hm => Links.mem_remove.2 ⟨hm, hu⟩
  cases hst with
  | other x hx =>
    intro u m hm
    change (x u).pending = some m at hm
    rcases hx u with e | hq
    · rw [e] at hm; exact h u m hm
    · rw [hq.pending, h.of_taking hb hq.taking] at hm; cases hm
  | @pop t m hc =>
    have hp := modParty_part (s := s) (t := t) (f := fun x => { x with cont := [.mutexTake m] }) Party.pending rfl
    exact fun u m' hm => h u m' (by rw [hp] at hm; exact hm)
  | prio => exact h
  | @acquire t m hs hc _ ho =>
    have hp := modParty_part (s := s) (t := t) (f := fun x => { x with error := .eok }) Party.pending rfl
    exact fun u m' hm => h u m' (by rw [← hp]; exact hm)
  | @nest t m hs hc ho hh =>
    have hp := modParty_part (s := s) (t := t) (f := fun x => { x with error := .eok }) Party.pending rfl
    exact fun u m' hm => h u m' (by rw [← hp]; exact hm)
  | @block t o m hs hc _ ho hot hP =>
    intro u m' hm
    by_cases e : u = t
    · subst e
      rw [link_party, modParty_party_self] at hm
      obtain rfl : m = m' := Option.some.inj hm
      exact mem_link.2 (.inr ⟨rfl, rfl⟩)
    · rw [link_party, modParty_party_of_ne e] at hm
      exact mem_link.2 (.inl (h u m' hm))
  | unnest => exact h
  | free => exact h
  | @grant t n m ns =>
    exact h.update (t := n) (fun u hu => modParty_party_of_ne hu) hmem (by rw [modParty_party_self])
  | expire => exact absurd rfl (ha _ _).1
  | wake => exact absurd rfl (ha _ _).2.1
  | @finish t m hs hc he =>
    exact h.update (t := t) (fun u hu => modParty_party_of_ne hu) (fun _ _ _ hu => hu)
      (by rw [modParty_party_self]; exact h.of_active hb (by simp [hs]))
  | @abort t m hs hc he ho =>
    exact h.update (t := t) (fun u hu => modParty_party_of_ne hu) (fun _ _ _ hu => hu)
      (by rw [modParty_party_self]; exact h.of_active hb (by simp [hs]))
  | ceiling => exact h
  | @close t hlive hp =>
    refine h.update (t := t) (fun u hu => modParty_party_of_ne hu) hmem ?_
    rw [modParty_party_self]
    by_contra hne
    obtain ⟨m, hm⟩ := Option.ne_none_iff_exists'.1 hne
    have hw := h t m hm
    have hact := (hp m hm (hb.attached hw)).1
    rw [(hb.waiting hw).1] at hact
    cases hact
  | @drop t m hlive hp ha' ho =>
    exact h.update (t := t) (fun u hu => modParty_party_of_ne hu) hmem (by rw [modParty_party_self])
  | detach => exact absurd rfl (ha 0 _).2.2

end Protocol

namespace Kernel

variable {k k0 k' : Kernel} {ls : List (Ev × Option Ret)} {t u : ThreadId} {m : MutexId}

/-! ## Following `pending_object` -/

variable {hd : ListHead} {fuel : Nat} {flag : SuspendFlag} {all : Prop} {ev : Ev}

/-- A call of `_thread_update_priority` leaves every thread in the wait list it is in, and puts none in another. -/
theorem Raise.mem_wait {p : Nat} (hr : Raise k t p k') (h : k.SchedInv none) (hl : k.protocol.Linked)
    (hp : p < k.priorityMax) (hw : hd.isWait) (u : ThreadId) : u ∈ k'.tlist hd ↔ u ∈ k.tlist hd := by
  have hhd : ∀ q, hd ≠ .ready q := by rintro q rfl; cases hw
  have change {k k1 : Kernel} {t : ThreadId} {p : Nat} (hk1 : k1 = k.rtThreadControlChangePriority t p)
      (h : k.SchedInv none) : k1.tlist hd = k.tlist hd ∧ k1.protocol = k.protocol.setPrio t p := by
    rw [hk1]
    exact ⟨h.rtThreadControlChangePriority_tlist t p hhd, h.protocol_changePriority t p⟩
  have move {k : Kernel} {t : ThreadId} {m : MutexId} (h : k.SchedInv none) (hl : k.protocol.Linked)
      (hs : k.suspended t) (hm : (k.thread t).pendingObject = some m) :
      u ∈ (k.moveWaiter t m).tlist hd ↔ u ∈ k.tlist hd := by
    have ht : t ∈ k.tlist (.mutex m) := hl.linked (protocol_suspended.2 hs) hm
    change u ∈ Links.insertSorted k.prio (Links.remove k.tlist t) (.mutex m) t hd ↔ _
    rw [Links.mem_insertSorted, Links.mem_remove]
    constructor
    · rintro (⟨hu, -⟩ | ⟨rfl, rfl⟩)
      · exact hu
      · exact ht
    · intro hu
      by_cases e : u = t
      · subst e
        exact .inr ⟨h.queues.wf.disjoint hu ht, rfl⟩
      · exact .inl ⟨hu, e⟩
  induction hr with
  | stop hk1 => rw [(change hk1 h).1]
  | last hk1 hs hm _ hk2 =>
    obtain ⟨e1, e2⟩ := change hk1 h
    have h1 := hk1 ▸ h.rtThreadControlChangePriority _ hp
    rw [hk2, move h1 (e2 ▸ hl.congr (Protocol.Same.setPrio _ _ _)) hs hm, e1]
  | @next k k1 k2 _ t _ m _ hk1 hs hm _ hk2 _ _ _ ih =>
    obtain ⟨e1, e2⟩ := change hk1 h
    have h1 := hk1 ▸ h.rtThreadControlChangePriority _ hp
    have hl1 : k1.protocol.Linked := e2 ▸ hl.congr (Protocol.Same.setPrio _ _ _)
    have h2 := hk2 ▸ h1.moveWaiter hs _
    have hl2 : k2.protocol.Linked := by
      rw [hk2, protocol_moveWaiter]
      exact hl1.congr (Protocol.Same.move hl1 (hl1.linked (protocol_suspended.2 hs) hm))
    refine (ih h2 hl2 (h2.threadGetMutexPriority_lt _)).trans ?_
    rw [hk2, move h1 hl1 hs hm, e1]

/-- The functions that end in such a call leave every thread in its wait list, too. -/
theorem waiterLeft_mem_wait (h : k.SchedInv none) (hl : k.protocol.Linked)
    (hk : waiterLeft fuel k m t = some k') (hw : hd.isWait) (u : ThreadId) : u ∈ k'.tlist hd ↔ u ∈ k.tlist hd := by
  unfold waiterLeft at hk
  have h1 := h.mutexUpdatePriority m
  have hl1 : (k.mutexUpdatePriority m).protocol.Linked := by
    rw [protocol_mutexUpdatePriority]; exact hl.congr (Protocol.Same.refresh _ _)
  split at hk
  · cases hk
  · dsimp only at hk
    split_ifs at hk
    · exact (Raise.of_threadUpdatePriority hk).mem_wait h1 hl1 (h1.threadGetMutexPriority_lt _) hw u
    all_goals obtain rfl := Option.some.inj hk; rfl

/-- Suspending a caller in the list of a mutex. -/
theorem SchedInv.ipcListSuspend_mem_wait (h : k.SchedInv none) (hs : k.suspended t = false)
    (hr : (k.ipcListSuspend (.mutex m) t .prio flag).2 = .eok) (hw : hd.isWait) (u : ThreadId) :
    u ∈ (k.ipcListSuspend (.mutex m) t .prio flag).1.tlist hd ↔ u ∈ k.tlist hd ∨ (hd = .mutex m ∧ u = t) := by
  have hnot : t ∉ k.tlist hd := fun hm => by simpa [hs] using h.queues.wait t hd (by simp) hw hm
  unfold Kernel.ipcListSuspend Kernel.rtThreadSuspendWithFlag at hr ⊢
  simp only [hs, Bool.false_eq_true, if_false] at hr ⊢
  by_cases hstat : (k.thread t).stat = .ready ∨ (k.thread t).stat = .running
  · by_cases hsig : (k.thread t).suspendSigcheck
    · simp only [hstat, hsig, if_true, ne_eq, not_true_eq_false, if_false, Links.mem_insertSorted,
        Kernel.threadTimerStop, modThread_tlist, rtScheduleRemoveThread_tlist, Links.mem_remove]
      have : u ∈ k.tlist hd → u ≠ t := by rintro hu rfl; exact hnot hu
      tauto
    · simp [hstat, hsig] at hr
  · simp [hstat] at hr

/-- `rt_mutex_take` puts a caller that blocks in the list of the mutex, and moves no other thread. -/
theorem MutexInv.rtMutexTake_mem_wait (I : k.MutexInv all) (hc : k.caller = some t)
    {timeout : BitVec 32} {r : Kernel × Option RtErr}
    (hk : Kernel.rtMutexTake fuel k t m timeout flag = some r) (hw : hd.isWait) (u : ThreadId) :
    u ∈ r.1.tlist hd ↔ u ∈ k.tlist hd ∨ (r.2 = none ∧ hd = .mutex m ∧ u = t) := by
  obtain ⟨-, hcont, hs⟩ := caller_eq_some.1 hc
  have h0 := I.sched.setError t .eok
  have I0 := (I.calm_setError (Protocol.taking_of_cont_nil hcont) .eok).inv I h0
  have hs0 : (k.setError t .eok).suspended t = false := by rw [suspended, setError, modThread_thread_self]; exact hs
  have htlist : (k.setError t .eok).tlist hd = k.tlist hd := rfl
  unfold Kernel.rtMutexTake at hk
  dsimp only at hk
  rw [← htlist]
  generalize k.setError t .eok = k0 at hk h0 I0 hs0
  split at hk
  · split at hk
    all_goals obtain rfl := Option.some.inj hk; simp
  · split at hk
    · obtain ⟨k2, hk2, rfl⟩ := Option.map_eq_some_iff.1 hk
      simp only [reduceCtorEq, false_and, or_false]
      have h1 := h0.modMutex m fun x => { x with owner := some t, priority := 0xff, hold := 1 }
      split at hk2
      · rename_i hlt
        exact (Raise.of_threadUpdatePriority hk2).mem_wait h1 (I0.base.toLinked.congr_mutex rfl rfl)
          (hlt.2.trans (h1.queues.prio_lt t)) hw u
      · rw [← Option.some.inj hk2]; rfl
    · rename_i o ho
      split at hk
      · obtain rfl := Option.some.inj hk; simp [setError]
      · split at hk
        · rename_i hne
          cases hk
          simp only [reduceCtorEq, false_and, or_false]
          unfold Kernel.ipcListSuspend at hne ⊢
          simp only [hs0, Bool.false_eq_true, if_false] at hne ⊢
          rcases h0.rtThreadSuspendWithFlag t flag with ⟨he, e⟩ | ⟨he, -⟩
          · rw [if_pos he, e]
          · simp [he] at hne
        · rename_i hok
          obtain ⟨k3, hk3, rfl⟩ := Option.map_eq_some_iff.1 hk
          have hmem := h0.ipcListSuspend_mem_wait hs0 (not_not.1 hok) hw u
          obtain ⟨hact, hp1⟩ := protocol_blocked h0 hs0 (not_not.1 hok)
          have hsched := h0.ipcListSuspend (t := t) (d := .mutex m) rfl (fun hs' => by simp [hs0] at hs') .prio flag
          generalize k0.ipcListSuspend (.mutex m) t .prio flag = r at hk3 hmem hp1 hsched
          have h1 : (r.1.modThread t fun x => { x with pendingObject := some m }).SchedInv none :=
            hsched.modThread_congr rfl
          have hl1 : (r.1.modThread t fun x => { x with pendingObject := some m }).protocol.Linked := by
            rw [hp1]; exact I0.base.toLinked.block hact ⟨rfl, rfl⟩
          have hfin : u ∈ k3.tlist hd ↔ u ∈ r.1.tlist hd := by
            split_ifs at hk3 with hlt hlt'
            · exact (Raise.of_threadUpdatePriority hk3).mem_wait (h1.modMutex m _) (hl1.congr_mutex rfl rfl)
                (hlt'.trans ((h1.modMutex m _).queues.prio_lt o)) hw u
            all_goals obtain rfl := Option.some.inj hk3; rfl
          have htimer : ((if 0 < timeout.toInt then k3.threadTimerStart t else k3).setCont t
              [.schedule, .mutexTake m]).tlist hd = k3.tlist hd := by split <;> rfl
          rw [htimer, hfin, hmem]
          simp

/-! ## Runs -/

/-- No thread with a pending mutex times out. -/
def NotExpired (k : Kernel) (ev : Ev) : Prop := ∀ t, ev = .timeout t → (k.thread t).pendingObject = none

theorem fresh_of_pending (I : k.MutexInv True) (h : k.protocol.Pending) : Fresh True k ev := by
  have hself : ∀ t, k.self = some t → (k.thread t).pendingObject = none := fun t ht =>
    h.of_taking I.base (Protocol.taking_of_cont_nil (self_eq_some.1 ht).2)
  cases ev with
  | suspend => exact hself
  | sleep | semTake | eventRecv | mbSendWait | mbRecv | mqSendWait | mqRecv => exact ⟨trivial, hself⟩
  | cont =>
    intro t f _ _ _ _ hrun
    exact h.of_active I.base (phase_ne_suspended (suspended_of_stat hrun rfl))
  | _ => trivial

theorem no_wake_of_isWaiting {r : Option Ret} {a : Protocol.Act} {s' : Protocol}
    (I : k.MutexInv all) (hok : ev.isWaiting = true ∧ NotExpired k ev) (hfrom : k.From ev r a)
    (hst : Protocol.Core (Frames all) k.protocol a s') (t : ThreadId) (m : MutexId) :
    a ≠ .expire t m ∧ a ≠ .wake t m ∧ a ≠ .detach m := by
  refine ⟨?_, ?_, ?_⟩
  · rintro rfl
    cases hst with
    | expire e he hw =>
      have hp : (k.thread t).pendingObject = some m := (I.base.waiting hw).2
      rw [hok.2 t hfrom.2] at hp; cases hp
  · rintro rfl
    obtain ⟨-, rfl⟩ := hfrom
    cases hok.1
  · rintro rfl
    obtain ⟨-, freed, rfl⟩ := hfrom
    cases hok.1

/-- Deleting a thread takes it out of its wait list, and moves no other thread. -/
theorem MutexInv.rtThreadDelete_mem_wait (I : k.MutexInv all)
    (hk : Kernel.rtThreadDelete fuel k t = some k') (hw : hd.isWait) (u : ThreadId) :
    u ∈ k'.tlist hd ↔ u ∈ k.tlist hd ∧ u ≠ t := by
  have hdef : hd ≠ .defunct := by rintro rfl; cases hw
  unfold Kernel.rtThreadDelete at hk
  split at hk
  · rename_i hc
    cases hk
    have hnot : t ∉ k.tlist hd := fun hm => by
      simpa [suspended_of_stat hc rfl] using I.sched.queues.wait t hd (by simp) hw hm
    exact ⟨fun hu => ⟨hu, by rintro rfl; exact hnot hu⟩, And.left⟩
  · rename_i hnc
    obtain ⟨k1, hk1, rfl⟩ := Option.map_eq_some_iff.1 hk
    have hclose : u ∈ (k.threadClose t).tlist hd ↔ u ∈ k.tlist hd ∧ u ≠ t := by
      unfold Kernel.threadClose
      split
      · simp [Kernel.threadTimerStop]
      · rename_i hi
        have hnot : t ∉ k.tlist hd := fun hm => by
          simpa [suspended_of_stat (not_not.1 hi) rfl] using I.sched.queues.wait t hd (by simp) hw hm
        exact ⟨fun hu => ⟨hu, by rintro rfl; exact hnot hu⟩, And.left⟩
    have hs1 := SchedInv.threadClose_stat k t
    have h1 := (I.sched.threadClose hnc).of_closed hs1 I.sched.threadClose_masked
    have hl1 : (k.threadClose t).protocol.Linked := by
      rw [I.sched.protocol_threadClose]
      exact I.base.toLinked.unlink_modParty (by simp)
    have henq : (k1.rtThreadDefunctEnqueue t).tlist hd = k1.tlist hd := Links.insertAfter_ne hdef
    rw [henq, ← hclose]
    unfold Kernel.dropPendingObject at hk1
    split at hk1
    · rw [← Option.some.inj hk1]
    · split at hk1
      · cases hk1
      · rw [← Option.some.inj hk1]
      · obtain ⟨k2, hk2, rfl⟩ := Option.map_eq_some_iff.1 hk1
        have hfree : Links.remove (k.threadClose t).tlist t hd = (k.threadClose t).tlist hd :=
          Links.remove_of_notMem fun hm => by
            simpa [suspended_of_stat hs1 rfl] using h1.queues.wait t hd (by simp) hw hm
        have h2 := (h1.unlink (t := t) (by simp [hs1])).of_closed hs1 fun hc => (h1.current t (by simp) hc).2.2
        have hl2 : (protocol { k.threadClose t with tlist := Links.remove (k.threadClose t).tlist t }).Linked := by
          rw [protocol_remove, h1.protocol_unlink (suspended_of_stat hs1 rfl)]
          exact hl1
        rw [modThread_tlist, waiterLeft_mem_wait h2 hl2 hk2 hw u]
        change u ∈ Links.remove (k.threadClose t).tlist t hd ↔ _
        rw [hfree]

/-- In every state reached, if no waiter of a mutex times out: a mutex is pending for exactly the threads suspended in
its wait list; `_thread_update_priority`, from there or from `rt_mutex_take`, leaves every thread in its wait list; and a
deleted thread leaves its own. -/
theorem pending_iff_waiting (hb : Boot k0) (hr : KRun (fun k ev => ev.isWaiting = true ∧ NotExpired k ev) k0 ls k) :
    (∀ t m, (k.thread t).pendingObject = some m ↔ k.suspended t = true ∧ t ∈ k.tlist (.mutex m)) ∧
    (∀ fuel t p flag k', p < k.priorityMax → threadUpdatePriority fuel k t p flag = some k' →
      ∀ hd : ListHead, hd.isWait → ∀ u, u ∈ k'.tlist hd ↔ u ∈ k.tlist hd) ∧
    (∀ fuel t m timeout flag r, k.caller = some t → rtMutexTake fuel k t m timeout flag = some r →
      ∀ hd : ListHead, hd.isWait → ∀ u, u ∈ r.1.tlist hd ↔ u ∈ k.tlist hd ∨ (r.2 = none ∧ hd = .mutex m ∧ u = t)) ∧
    (∀ fuel t k', rtThreadDelete fuel k t = some k' →
      ∀ hd : ListHead, hd.isWait → ∀ u, u ∈ k'.tlist hd ↔ u ∈ k.tlist hd ∧ u ≠ t) := by
  obtain ⟨I, h⟩ := hr.core_history (J := fun _ s => s.Pending) hb
    (fun t m hm => by
      change (k0.thread t).pendingObject = some m at hm
      rw [hb.pendingObject] at hm; cases hm)
    (fun _ k ev I h _ => fresh_of_pending I h)
    (fun _ _ _ h hs => h.congr hs) (fun _ _ _ hs h hst => hst.pending hs h (by simp))
    fun _ k ev r a s' I h hok hfrom hst => hst.pending I.base h (no_wake_of_isWaiting I hok hfrom hst)
  refine ⟨fun t m => ⟨fun hm => ?_, fun ⟨_, hm⟩ => (I.base.waiting hm).2⟩, fun fuel t p flag k' hp hk hd hw u => ?_,
    fun fuel t m timeout flag r hc hk hd hw u => I.rtMutexTake_mem_wait hc hk hw u, fun fuel t k' hk hd hw u => ?_⟩
  · have hw := h t m hm
    exact ⟨protocol_suspended.1 (I.base.waiting hw).1, hw⟩
  · exact (Raise.of_threadUpdatePriority hk).mem_wait I.sched I.base.toLinked hp hw u
  · exact I.rtThreadDelete_mem_wait hk hw u

theorem pending_iff_waiting_contended :
    (∀ t m, (contended.thread t).pendingObject = some m ↔ contended.suspended t = true ∧ t ∈ contended.tlist (.mutex m)) ∧
    (∀ fuel t p flag k', p < contended.priorityMax → threadUpdatePriority fuel contended t p flag = some k' →
      ∀ hd : ListHead, hd.isWait → ∀ u, u ∈ k'.tlist hd ↔ u ∈ contended.tlist hd) ∧
    (∀ fuel t m timeout flag r, contended.caller = some t → rtMutexTake fuel contended t m timeout flag = some r →
      ∀ hd : ListHead, hd.isWait →
        ∀ u, u ∈ r.1.tlist hd ↔ u ∈ contended.tlist hd ∨ (r.2 = none ∧ hd = .mutex m ∧ u = t)) ∧
    (∀ fuel t k', rtThreadDelete fuel contended t = some k' →
      ∀ hd : ListHead, hd.isWait → ∀ u, u ∈ k'.tlist hd ↔ u ∈ contended.tlist hd ∧ u ≠ t) :=
  pending_iff_waiting boot_bootTwo (KRun.of_exec _ _ _ (by decide) fun e he k =>
    ⟨List.all_eq_true.1 (by decide : contendedEvents.all Ev.isWaiting = true) e he, fun t ht => by
      subst ht; simp [contendedEvents] at he⟩)

/-- The waiter of `contended` times out. -/
def expiredEvents : List Ev := contendedEvents ++ [.cont, .timeout 1]

/-- A waiter that timed out still has the mutex as its pending object. -/
theorem not_pending_iff_waiting :
    ¬∀ (k0 k : Kernel) (ls : List (Ev × Option Ret)), Boot k0 → KRun (fun _ ev => ev.isWaiting = true) k0 ls k →
      ∀ t m, (k.thread t).pendingObject = some m ↔ k.suspended t = true ∧ t ∈ k.tlist (.mutex m) := by
  intro h
  have := (h bootTwo (after 2 bootTwo expiredEvents) _ boot_bootTwo
    (KRun.of_exec _ _ _ (by decide +kernel) fun e he _ => List.all_eq_true.1 (by decide) e he) 1 0).1
    (by decide +kernel)
  revert this
  decide +kernel

end Kernel

end RtThread
