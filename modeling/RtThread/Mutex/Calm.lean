import RtThread.Mutex.Project

/-!
# What is not about mutexes

The functions that suspend, resume and schedule threads, with no mutex involved, are the step `other` of the mutex
protocol (`Calm`), as long as no waiter of a mutex is resumed and no thread with a `pending_object` suspends itself.
-/

namespace RtThread

/-- The frames threads may have in a run: all of them, or only those of `_rt_mutex_take`. -/
def Frames (all : Prop) (f : Frame) : Prop := all ∨ ∃ m, f = .mutexTake m

namespace Kernel

/-- The scheduler invariant, and that of the mutex protocol. -/
structure MutexInv (all : Prop) (k : Kernel) : Prop where
  sched : k.SchedInv none
  base : Protocol.Base (Frames all) k.protocol

/-- A change that is not about mutexes, and that returns from no call. -/
structure Calm (all : Prop) (k k' : Kernel) : Prop where
  step : Protocol.Step (Frames all) k.protocol .other k'.protocol
  cont : ∀ u, (k'.thread u).cont = (k.thread u).cont
  current : k'.currentThread = k.currentThread

variable {all : Prop} {k k' k'' : Kernel} {t u : ThreadId} {m : MutexId}

/-! ## The step `other` -/

theorem other_of_eq (h : k'.protocol = k.protocol) : Protocol.Step (Frames all) k.protocol .other k'.protocol := by
  rw [h]; exact .other _ fun t => .inl rfl

theorem other_trans {s s' s'' : Protocol} {P : Frame → Prop} (h : Protocol.Step P s .other s')
    (h' : Protocol.Step P s' .other s'') : Protocol.Step P s .other s'' := by
  cases h with
  | other x hx =>
    cases h' with
    | other y hy =>
      refine .other y fun t => ?_
      rcases hy t with e | hq'
      · rw [e]; exact hx t
      · rcases hx t with e | hq
        · change Protocol.Quiet P (x t) (y t) at hq'
          rw [e] at hq'; exact .inr hq'
        · refine .inr ⟨hq.taking, hq'.taking', hq'.shape, hq'.closed.trans hq.closed, fun hs => ?_,
            hq'.prio.trans hq.prio, hq'.init.trans hq.init, hq'.pending.trans hq.pending⟩
          rcases hq'.suspended hs with hs | hp
          · exact hq.suspended hs
          · exact .inr (hq.pending ▸ hp)

theorem other_modParty {P : Frame → Prop} {s : Protocol} {f : Party → Party}
    (h : Protocol.Quiet P (s.party t) (f (s.party t))) : Protocol.Step P s .other (s.modParty t f) := by
  refine .other _ fun u => ?_
  by_cases e : u = t
  · subst e; rw [Function.update_self]; exact .inr h
  · rw [Function.update_of_ne e]; exact .inl rfl

/-- A thread outside the mutex functions changes its error code. -/
theorem MutexInv.other_error (I : k.MutexInv all) (ht : (k.thread t).party.taking = none) (e : RtErr) :
    Protocol.Step (Frames all) k.protocol .other (k.protocol.modParty t fun x => { x with error := e }) :=
  other_modParty ⟨ht, ht, I.base.shape t, .rfl, .inl, rfl, rfl, rfl⟩

/-- A thread outside the mutex functions changes its continuation. -/
theorem other_cont {c : List Frame} (ht : (k.thread t).party.taking = none) (hc : Protocol.Shape (Frames all) c)
    (hn : c.findSome? Frame.taking = none) :
    Protocol.Step (Frames all) k.protocol .other (k.protocol.modParty t fun x => { x with cont := c }) :=
  other_modParty ⟨ht, hn, hc, .rfl, .inl, rfl, rfl, rfl⟩

namespace Calm

theorem refl (k : Kernel) : Calm all k k := ⟨other_of_eq rfl, fun _ => rfl, rfl⟩

theorem trans (h : Calm all k k') (h' : Calm all k' k'') : Calm all k k'' :=
  ⟨other_trans h.step h'.step, fun u => (h'.cont u).trans (h.cont u), h'.current.trans h.current⟩

/-- A change that mutexes do not see. -/
theorem of_eq (h : k'.protocol = k.protocol) (hc : k'.currentThread = k.currentThread) : Calm all k k' :=
  ⟨other_of_eq h, fun u => congrArg (fun s : Protocol => (s.party u).cont) h, hc⟩

theorem tlist (h : Calm all k k') (m : MutexId) : k'.tlist (.mutex m) = k.tlist (.mutex m) := by
  have hs := h.step
  change k'.protocol.waiters m = k.protocol.waiters m
  generalize k'.protocol = s' at hs
  cases hs
  rfl

theorem pending (h : Calm all k k') (u : ThreadId) : (k'.thread u).pendingObject = (k.thread u).pendingObject := by
  have hs := h.step
  change (k'.protocol.party u).pending = (k.protocol.party u).pending
  generalize k'.protocol = s' at hs
  cases hs with
  | other x hx =>
    rcases hx u with e | hq
    · exact congrArg Party.pending e
    · exact hq.pending

theorem taking (h : Calm all k k') (u : ThreadId) : (k'.thread u).party.taking = (k.thread u).party.taking := by
  change (k'.thread u).cont.findSome? Frame.taking = (k.thread u).cont.findSome? Frame.taking
  rw [h.cont]

theorem inv (h : Calm all k k') (I : k.MutexInv all) (hs : k'.SchedInv none) : k'.MutexInv all :=
  ⟨hs, h.step.base I.base⟩

end Calm

/-! ## Suspending and resuming -/

/-- Waking a thread returns from no call, and leaves the current thread. -/
theorem rtThreadResume_calls (k : Kernel) (t : ThreadId) :
    (∀ u, ((k.rtThreadResume t).1.thread u).cont = (k.thread u).cont) ∧
      (k.rtThreadResume t).1.currentThread = k.currentThread := by
  unfold rtThreadResume
  split
  · refine ⟨fun u => ?_, by rw [rtScheduleInsertThread_currentThread]; rfl⟩
    rw [rtScheduleInsertThread_part (g := Thread.cont) fun _ _ => rfl]
    exact modThread_part Thread.cont rfl u
  · exact ⟨fun _ => rfl, rfl⟩

variable (I : k.MutexInv all)
include I

theorem MutexInv.calm_setError (ht : (k.thread t).party.taking = none) (e : RtErr) : Calm all k (k.setError t e) :=
  ⟨by rw [protocol_setError]; exact I.other_error ht e, modThread_part Thread.cont rfl, rfl⟩

/-- A suspended thread that waits for no mutex is not in `_rt_mutex_take`. -/
theorem MutexInv.taking_none (hs : k.suspended t) (hn : ∀ m, t ∉ k.tlist (.mutex m)) :
    (k.thread t).party.taking = none := by
  by_contra hne
  obtain ⟨m, hm⟩ := Option.ne_none_iff_exists'.1 hne
  exact hn m (I.base.blocked (t := t) (protocol_suspended.2 hs) hm)

/-- Waking a thread that waits for no mutex. -/
theorem MutexInv.other_active (hs : k.suspended t) (hn : ∀ m, t ∉ k.tlist (.mutex m)) :
    Protocol.Step (Frames all) k.protocol .other (k.protocol.modParty t fun x => { x with phase := .active }) := by
  have ht := I.taking_none hs hn
  refine other_modParty ⟨ht, ht, I.base.shape t, ?_, by simp, rfl, rfl, rfl⟩
  rw [protocol_suspended.2 hs]; simp

theorem MutexInv.calm_rtThreadResume (hn : ∀ m, t ∉ k.tlist (.mutex m)) : Calm all k (k.rtThreadResume t).1 := by
  by_cases hs : k.suspended t
  · refine ⟨?_, (rtThreadResume_calls k t).1, (rtThreadResume_calls k t).2⟩
    rw [protocol_rtThreadResume hs, Protocol.unlink_of_notMem hn]
    exact I.other_active hs hn
  · rw [rtThreadResume, if_neg hs]
    exact Calm.refl k

theorem MutexInv.calm_suspend (ht : (k.thread t).party.taking = none) (hp : (k.thread t).pendingObject = none)
    (flag : SuspendFlag) : Calm all k (k.rtThreadSuspendWithFlag t flag).1 := by
  by_cases hr : (k.rtThreadSuspendWithFlag t flag).2 = .eok
  · obtain ⟨ha, he⟩ := I.sched.protocol_rtThreadSuspendWithFlag hr
    refine ⟨?_, fun u => ?_, ?_⟩
    · rw [he]
      refine other_modParty ⟨ht, ht, I.base.shape t, ?_, fun _ => .inr hp, rfl, rfl, rfl⟩
      rw [ha]; simp
    all_goals
      unfold rtThreadSuspendWithFlag at hr ⊢
      split_ifs at hr with hs hc
      rw [if_pos hs, if_pos hc]
      dsimp only [threadTimerStop]
    · rw [modThread_part Thread.cont rfl, modThread_part Thread.cont rfl, rtScheduleRemoveThread_thread]
    · rw [modThread_currentThread, modThread_currentThread, rtScheduleRemoveThread_currentThread]
  · rcases I.sched.rtThreadSuspendWithFlag t flag with ⟨-, e⟩ | ⟨e, -⟩
    · rw [e]; exact Calm.refl k
    · exact absurd e hr

variable {d : ListHead} {f : Frame} {timeout : BitVec 32} {flag : SuspendFlag} {q : MqId} {c : Context}
  {isr need : Bool}

/-- Suspending the caller in a list that is not the wait list of a mutex. -/
theorem MutexInv.calm_ipcListSuspend (hhd : ∀ m, d ≠ .mutex m) (hs : k.suspended t = false)
    (ht : (k.thread t).party.taking = none) (hp : (k.thread t).pendingObject = none) (flag : IpcFlag)
    (suspendFlag : SuspendFlag) : Calm all k (k.ipcListSuspend d t flag suspendFlag).1 := by
  unfold ipcListSuspend
  have h1 := I.calm_suspend ht hp suspendFlag
  simp only [hs, Bool.false_eq_true, if_false]
  generalize k.rtThreadSuspendWithFlag t suspendFlag = r at h1
  split
  · exact h1
  · cases flag with
    | fifo => exact h1.trans (.of_eq (protocol_insertBefore hhd) rfl)
    | prio => exact h1.trans (.of_eq (protocol_insertSorted hhd) rfl)

/-- The threads in another list wait for no mutex. -/
theorem MutexInv.notMem_mutex (hhd : ∀ m, d ≠ .mutex m) (hm : t ∈ k.tlist d) (m : MutexId) : t ∉ k.tlist (.mutex m) := fun hm' => hhd m (I.sched.queues.wf.disjoint hm hm')

/-- Setting the error code of a thread that waits for no mutex, and waking it. -/
theorem MutexInv.calm_wake (hs : k.suspended t) (hn : ∀ m, t ∉ k.tlist (.mutex m)) (e : RtErr) :
    Calm all k ((k.setError t e).rtThreadResume t).1 := by
  have h1 := I.calm_setError (I.taking_none hs hn) e
  exact h1.trans ((h1.inv I (I.sched.setError t e)).calm_rtThreadResume hn)

theorem MutexInv.calm_ipcListResume (hhd : ∀ m, d ≠ .mutex m) (hw : d.isWait) : Calm all k (k.ipcListResume d) := by
  unfold ipcListResume
  split
  · exact Calm.refl k
  · rename_i t ts hts
    have hm : t ∈ k.tlist d := by simp [hts]
    exact I.calm_wake (I.sched.queues.wait t d (by simp) hw hm) (I.notMem_mutex hhd hm) _

/-! ## Semaphores, events and mailboxes -/

theorem MutexInv.calm_rtSemRelease (s : SemId) : Calm all k (k.rtSemRelease s).1 := by
  unfold rtSemRelease
  dsimp only
  split_ifs
  · exact I.calm_ipcListResume (by simp) rfl
  · exact .of_eq rfl rfl
  · exact Calm.refl k

theorem MutexInv.calm_eventResume (e : EventId) (hs : k.suspended t) (hn : ∀ m, t ∉ k.tlist (.mutex m)) :
    Calm all k (k.eventResume e t) := by
  unfold eventResume
  have h0 : Calm all k (if (k.thread t).eventInfo &&& eventFlagClear ≠ 0#8 then
      { k with event := Function.update k.event e { k.event e with set := (k.event e).set &&& ~~~(k.thread t).eventSet } }
      else k) := by
    split
    · exact .of_eq rfl rfl
    · exact Calm.refl k
  have hs0 : SchedInv (if (k.thread t).eventInfo &&& eventFlagClear ≠ 0#8 then
      { k with event := Function.update k.event e { k.event e with set := (k.event e).set &&& ~~~(k.thread t).eventSet } }
      else k) none := by
    split
    · exact I.sched.setEvent _
    · exact I.sched
  dsimp only
  generalize (if (k.thread t).eventInfo &&& eventFlagClear ≠ 0#8 then
    { k with event := Function.update k.event e { k.event e with set := (k.event e).set &&& ~~~(k.thread t).eventSet } }
    else k) = k0 at h0 hs0
  have I0 := h0.inv I hs0
  have hn0 (m : MutexId) : t ∉ k0.tlist (.mutex m) := by rw [h0.tlist]; exact hn m
  have h1 := I0.calm_rtThreadResume hn0
  have I1 := h1.inv I0 (hs0.rtThreadResume t)
  have ht : ((k0.rtThreadResume t).1.thread t).party.taking = none := by
    rw [h1.taking, h0.taking]; exact I.taking_none hs hn
  exact (h0.trans h1).trans (I1.calm_setError ht .eok)

/-- The loop of `rt_event_send`, over threads that wait for no mutex and are still suspended. -/
theorem MutexInv.calm_eventSendLoop (e : EventId) (ts : List ThreadId) (hts : ts.Nodup)
    (hs : ∀ t ∈ ts, k.suspended t) (hn : ∀ t ∈ ts, ∀ m, t ∉ k.tlist (.mutex m)) (need : Bool) :
    Calm all k (eventSendLoop e ts k need).1 := by
  induction ts generalizing k need with
  | nil => exact Calm.refl k
  | cons t ts ih =>
    obtain ⟨hmem, hts⟩ := List.nodup_cons.1 hts
    have hs' : ∀ u ∈ ts, k.suspended u := fun u hu => hs u (List.mem_cons_of_mem _ hu)
    have hn' : ∀ u ∈ ts, ∀ m, u ∉ k.tlist (.mutex m) := fun u hu => hn u (List.mem_cons_of_mem _ hu)
    have resume {k1 : Kernel} (h1 : Calm all k k1) (hs1 : k1.SchedInv none)
        (hth : ∀ u, (k1.thread u).stat = (k.thread u).stat) :
        Calm all k (eventSendLoop e ts (k1.eventResume e t) true).1 := by
      have I1 := h1.inv I hs1
      have h2 := I1.calm_eventResume e (t := t) (by simpa [suspended, hth] using hs t (by simp))
        fun m => by rw [h1.tlist]; exact hn t (by simp) m
      have h12 := h1.trans h2
      refine h12.trans (ih (h2.inv I1 (hs1.eventResume e t)) hts (fun u hu => ?_) (fun u hu m => ?_) true)
      · have hne : u ≠ t := fun e => hmem (e ▸ hu)
        have hstat : ((k1.eventResume e t).thread u).stat = (k1.thread u).stat := by
          unfold eventResume
          rw [setError, modThread_thread_of_ne hne]
          split_ifs
          all_goals
            unfold rtThreadResume
            split
            · rw [rtScheduleInsertThread_thread, Function.update_of_ne hne, threadTimerStop, modThread_thread_of_ne hne]
            · rfl
        rw [suspended, hstat, hth]
        exact hs' u hu
      · rw [h12.tlist]; exact hn' u hu m
    unfold eventSendLoop
    dsimp only
    split_ifs
    · exact resume (Calm.refl k) I.sched fun _ => rfl
    · exact ih I hts hs' hn' need
    · exact resume (.of_eq (protocol_modThread_same rfl) rfl) (I.sched.modThread_congr rfl)
        (modThread_part Thread.stat rfl)
    · exact ih I hts hs' hn' need
    · exact Calm.refl k

theorem MutexInv.calm_rtEventSend (e : EventId) (set : BitVec 32) : Calm all k (k.rtEventSend e set).1 := by
  unfold rtEventSend
  split
  · exact Calm.refl k
  · set k1 : Kernel := { k with
      event := Function.update k.event e { k.event e with set := (k.event e).set ||| set } }
    have h1 : Calm all k k1 := .of_eq rfl rfl
    have h2 := (h1.inv I (I.sched.setEvent _)).calm_eventSendLoop e (k.tlist (.event e)) (I.sched.queues.wf.nodup _)
      (fun t ht => I.sched.queues.wait t (.event e) (by simp) rfl ht) (fun t ht => I.notMem_mutex (by simp) ht) false
    dsimp only
    split
    all_goals
      rename_i heq
      rw [heq] at h2
      exact h1.trans h2

/-- A mailbox changes, and a thread waiting for it is woken. -/
theorem MutexInv.calm_mailbox (x : MailboxId → Mailbox) (hhd : ∀ m, d ≠ .mutex m) (hw : d.isWait) :
    Calm all k (ipcListResume { k with mailbox := x } d) := by
  have h1 : Calm all k { k with mailbox := x } := .of_eq rfl rfl
  exact h1.trans ((h1.inv I (I.sched.setMailbox x)).calm_ipcListResume hhd hw)

theorem MutexInv.calm_rtMbUrgent (b : MailboxId) (value : BitVec 64) : Calm all k (k.rtMbUrgent b value).1 := by
  unfold rtMbUrgent
  dsimp only
  split_ifs
  all_goals first | exact Calm.refl k | exact I.calm_mailbox _ (by simp) rfl | exact .of_eq rfl rfl

omit I in
/-- The caller leaves the rest of a call that blocks on something else than a mutex. -/
theorem Calm.block (h : Calm all k k') (ht : (k.thread t).party.taking = none) (hf : f ≠ .schedule)
    (hn : f.taking = none) (hP : Frames all f) (p : Prop) [Decidable p] : Protocol.Step (Frames all) k.protocol .other
      ((if p then k'.threadTimerStart t else k').setCont t [.schedule, f]).protocol := by
  have hc : Protocol.Shape (Frames all) [.schedule, f] := .inr (.inr ⟨f, hf, hP, .inr rfl⟩)
  have htak : [Frame.schedule, f].findSome? Frame.taking = none := by
    simp only [List.findSome?_cons, hn]; rfl
  have h2 := other_trans h.step (other_cont ((h.taking t).trans ht) hc htak)
  rw [protocol_setCont]
  split
  · rwa [protocol_threadTimerStart]
  · exact h2

/-- The caller sets its error code and suspends itself in a list. -/
theorem MutexInv.calm_wait (hhd : ∀ m, d ≠ .mutex m) (hs : k.suspended t = false)
    (ht : (k.thread t).party.taking = none) (hp : (k.thread t).pendingObject = none) (e : RtErr) (flag : IpcFlag)
    (suspendFlag : SuspendFlag) : Calm all k ((k.setError t e).ipcListSuspend d t flag suspendFlag).1 := by
  have h1 := I.calm_setError ht e
  have hs1 : (k.setError t e).suspended t = false := by
    rw [suspended, setError, modThread_thread_self]; exact hs
  exact h1.trans ((h1.inv I (I.sched.setError t e)).calm_ipcListSuspend hhd hs1 ((h1.taking t).trans ht)
    ((h1.pending t).trans hp) flag suspendFlag)

section

variable (hs : k.suspended t = false) (ht : (k.thread t).party.taking = none)
  (hp : (k.thread t).pendingObject = none) (hall : all)

include hs ht hp hall

theorem MutexInv.other_rtSemTake (s : SemId) (timeout : BitVec 32) (flag : SuspendFlag) :
    Protocol.Step (Frames all) k.protocol .other (k.rtSemTake t s timeout flag).1.protocol := by
  unfold rtSemTake
  have h2 := I.calm_wait (d := .sem s) (by simp) hs ht hp .eintr (k.sem s).flag flag
  dsimp only
  split
  · exact other_of_eq rfl
  · split
    · exact other_of_eq rfl
    · split
      · exact h2.step
      · exact h2.block ht (by simp) rfl (.inl hall) _

theorem MutexInv.other_rtEventRecv {e : EventId} {set : BitVec 32} {option : BitVec 8}
    {r : Kernel × Option RtErr} (hk : k.rtEventRecv t e set option timeout flag = some r) :
    Protocol.Step (Frames all) k.protocol .other r.1.protocol := by
  unfold rtEventRecv at hk
  have h1 := I.calm_setError ht .eintr
  have I1 := h1.inv I (I.sched.setError t .eintr)
  have ht1 := (h1.taking t).trans ht
  have hs1 : (k.setError t .eintr).suspended t = false := by
    rw [suspended, setError, modThread_thread_self]; exact hs
  have hrecv : Calm all k (((k.setError t .eintr).setError t .eok).modThread t fun y =>
      { y with eventSet := (k.event e).set &&& set, eventInfo := option }) :=
    (h1.trans (I1.calm_setError ht1 .eok)).trans (.of_eq (protocol_modThread_same rfl) rfl)
  set k2 := (k.setError t .eintr).modThread t fun y => { y with eventSet := set, eventInfo := option } with hk2
  have h2 : Calm all (k.setError t .eintr) k2 := .of_eq (protocol_modThread_same rfl) rfl
  have hs2 : k2.suspended t = false := by
    rw [suspended, hk2, modThread_thread_self]; exact hs1
  have h3 := (h1.trans h2).trans ((h2.inv I1 (I1.sched.modThread_congr rfl)).calm_ipcListSuspend (d := .event e)
    (by simp) hs2 ((h2.taking t).trans ht1) ((h2.pending t).trans ((h1.pending t).trans hp)) (k.event e).flag flag)
  dsimp only at hk
  generalize hrec : (if option &&& eventFlagAnd ≠ 0#8 then decide (_ &&& set = set) else _) = received at hk
  split_ifs at hk
  all_goals obtain rfl := Option.some.inj hk
  · exact other_of_eq rfl
  · exact other_trans hrecv.step (other_of_eq rfl)
  · exact hrecv.step
  · exact (h1.trans (I1.calm_setError ht1 .etimeout)).step
  · exact h3.step
  · have := h3.block ht (f := .eventRecv e) (by simp) rfl (.inl hall) True
    rwa [if_pos trivial] at this
  · have := h3.block ht (f := .eventRecv e) (by simp) rfl (.inl hall) False
    rwa [if_neg not_false] at this

/-- The sending of a mail: it blocks, or it returns and may ask for `rt_schedule`. -/
theorem MutexInv.mbSendWaitLoop (b : MailboxId) (value : BitVec 64)
    (timeout tickDelta : BitVec 32) (flag : SuspendFlag) :
    Calm all k (k.mbSendWaitLoop t b value timeout tickDelta flag).1 ∨
      ((k.mbSendWaitLoop t b value timeout tickDelta flag).2.2 = false ∧
        Protocol.Step (Frames all) k.protocol .other (k.mbSendWaitLoop t b value timeout tickDelta flag).1.protocol) := by
  unfold Kernel.mbSendWaitLoop
  have h1 := I.calm_setError ht .eintr
  have h2 := I.calm_wait (d := .mbSend b) (by simp) hs ht hp .eintr (k.mailbox b).flag flag
  dsimp only
  split
  · split
    · exact .inl h1
    · split
      · exact .inl h2
      · exact .inr ⟨rfl, h2.block ht (by simp) rfl (.inl hall) _⟩
  · split
    · split
      · exact .inl (I.calm_mailbox _ (by simp) rfl)
      · exact .inl (.of_eq rfl rfl)
    · exact .inl (.of_eq rfl rfl)

theorem MutexInv.mbRecvLoop (b : MailboxId) (timeout tickDelta : BitVec 32) (flag : SuspendFlag) :
    Calm all k (k.mbRecvLoop t b timeout tickDelta flag).1 ∨
      ((k.mbRecvLoop t b timeout tickDelta flag).2.2 = false ∧
        Protocol.Step (Frames all) k.protocol .other (k.mbRecvLoop t b timeout tickDelta flag).1.protocol) := by
  unfold Kernel.mbRecvLoop
  have h1 := I.calm_setError ht .eintr
  have I1 := h1.inv I (I.sched.setError t .eintr)
  have h2 := I.calm_wait (d := .mbRecv b) (by simp) hs ht hp .eintr (k.mailbox b).flag flag
  dsimp only
  split
  · split
    · exact .inl (h1.trans (I1.calm_setError ((h1.taking t).trans ht) .etimeout))
    · split
      · exact .inl h2
      · exact .inr ⟨rfl, h2.block ht (by simp) rfl (.inl hall) _⟩
  · split
    · exact .inl (I.calm_mailbox _ (by simp) rfl)
    · exact .inl (.of_eq rfl rfl)

end

/-! ## Message queues -/

omit I in
/-- Waking a thread changes the state of no other one. -/
theorem wake_stat {u : ThreadId} (hu : u ≠ t) (e : RtErr) :
    (((k.setError t e).rtThreadResume t).1.thread u).stat = (k.thread u).stat := by
  have h1 : ((k.setError t e).thread u).stat = (k.thread u).stat := by
    rw [setError, modThread_thread_of_ne hu]
  unfold rtThreadResume
  split
  · rw [rtScheduleInsertThread_thread, Function.update_of_ne hu, threadTimerStop, modThread_thread_of_ne hu]
    exact h1
  · exact h1

theorem MutexInv.calm_wakeAll (ts : List ThreadId) (hts : ts.Nodup) (hs : ∀ t ∈ ts, k.suspended t)
    (hn : ∀ t ∈ ts, ∀ m, t ∉ k.tlist (.mutex m)) (e : RtErr) :
    Calm all k (ts.foldl (fun k t => ((k.setError t e).rtThreadResume t).1) k) := by
  induction ts generalizing k with
  | nil => exact Calm.refl k
  | cons t ts ih =>
    obtain ⟨hmem, hts⟩ := List.nodup_cons.1 hts
    have h1 := I.calm_wake (hs t (by simp)) (hn t (by simp)) e
    have I1 := h1.inv I ((I.sched.setError t e).rtThreadResume t)
    refine h1.trans (ih I1 hts (fun u hu => ?_) fun u hu m => ?_)
    · have hne : u ≠ t := by rintro rfl; exact hmem hu
      rw [suspended, wake_stat hne]
      exact hs u (by simp [hu])
    · rw [h1.tlist]
      exact hn u (by simp [hu]) m

theorem MutexInv.calm_ipcListResumeAll (hhd : ∀ m, d ≠ .mutex m) (hw : d.isWait) : Calm all k (k.ipcListResumeAll d) :=
  I.calm_wakeAll _ (I.sched.queues.wf.nodup d) (fun t ht => I.sched.queues.wait t d (by simp) hw ht)
    (fun _ ht => I.notMem_mutex hhd ht) _

theorem MutexInv.calm_rtMqControlReset {fuel : Nat} (hk : rtMqControlReset fuel k q = some k') : Calm all k k' := by
  obtain ⟨x, -, rfl⟩ := Option.map_eq_some_iff.1 hk
  have h1 := I.calm_ipcListResumeAll (d := .mqRecv q) (by simp) rfl
  have I1 := h1.inv I (I.sched.ipcListResumeAll _)
  have h2 := I1.calm_ipcListResumeAll (d := .mqSend q) (by simp) rfl
  exact (h1.trans h2).trans (.of_eq rfl rfl)

theorem MutexInv.calm_mqLink (q : MqId) (msg : Nat) (urgent : Bool) : Calm all k (k.mqLink q msg urgent).1 := by
  unfold mqLink
  set k1 := k.modMq q fun x => mqLinkMsg x msg urgent
  have h1 : Calm all k k1 := .of_eq rfl rfl
  have h2 : Calm all k1 (k1.modMq q fun x => { x with entry := x.entry + 1 }) := .of_eq rfl rfl
  have I2 := (h1.trans h2).inv I ((I.sched.modMq q _).modMq q _)
  dsimp only
  split_ifs
  · exact (h1.trans h2).trans (I2.calm_ipcListResume (by simp) rfl)
  · exact h1.trans h2
  · exact h1

theorem MutexInv.calm_mqFree (q : MqId) (msg : Nat) : Calm all k (k.mqFree q msg).1 := by
  unfold mqFree
  set k1 := k.modMq q fun x => { x with next := Function.update x.next msg x.msgQueueFree, msgQueueFree := some msg }
  have h1 : Calm all k k1 := .of_eq rfl rfl
  dsimp only
  split_ifs
  · exact h1.trans ((h1.inv I (I.sched.modMq q _)).calm_ipcListResume (by simp) rfl)
  · exact h1

omit I in
/-- A caller goes on with the next part of a call. -/
theorem other_setFrames (hall : all) (k' : Kernel) (hk : k'.protocol = k.protocol) (hf : f ≠ .schedule)
    (hn : f.taking = none) (hc : ∀ t, c = .thread t → (k.thread t).party.taking = none) :
    Protocol.Step (Frames all) k.protocol .other (k'.setFrames c [f]).protocol := by
  cases c with
  | thread t =>
    change Protocol.Step _ _ _ (k'.setCont t [f]).protocol
    rw [protocol_setCont, hk]
    refine other_cont (hc t rfl) (.inr (.inr ⟨f, hf, .inl hall, .inl rfl⟩)) ?_
    simp only [List.findSome?_cons, hn]; rfl
  | isr i => exact other_of_eq hk

section

variable (hs : k.suspended t = false) (ht : (k.thread t).party.taking = none)
  (hp : (k.thread t).pendingObject = none) (hall : all)

include hs ht hp hall

/-- The sending of a message up to the copy. -/
theorem MutexInv.other_mqSendWaitLoop (q : MqId) (buffer : List (BitVec 8))
    (timeout tickDelta : BitVec 32) (flag : SuspendFlag) :
    Protocol.Step (Frames all) k.protocol .other (k.mqSendWaitLoop t q buffer timeout tickDelta flag).1.protocol := by
  unfold mqSendWaitLoop
  have h1 := I.calm_setError ht .eintr
  have h2 := I.calm_wait (d := .mqSend q) (by simp) hs ht hp .eintr (k.mq q).flag flag
  split
  · dsimp only
    split
    · exact h1.step
    · split
      · exact h2.step
      · exact h2.block ht (by simp) rfl (.inl hall) _
  · exact other_setFrames (f := .mqCopyIn ..) hall (k.modMq q _) rfl (by simp) rfl fun _ h => by rw [← Context.thread.inj h]; exact ht

/-- The receiving of a message up to the copy. -/
theorem MutexInv.other_mqRecvLoop {size : Nat} {tickDelta : BitVec 32}
    {r : Kernel × MqRecvEnd} (hk : k.mqRecvLoop t q size timeout tickDelta flag = some r) :
    Protocol.Step (Frames all) k.protocol .other r.1.protocol := by
  unfold mqRecvLoop at hk
  have h1 := I.calm_setError ht .eintr
  have I1 := h1.inv I (I.sched.setError t .eintr)
  have h2 := I.calm_wait (d := .mqRecv q) (by simp) hs ht hp .eintr (k.mq q).flag flag
  split at hk
  · dsimp only at hk
    split at hk
    · cases hk
      exact (h1.trans (I1.calm_setError ((h1.taking t).trans ht) .etimeout)).step
    · split at hk
      · cases hk
        exact h2.step
      · cases hk
        exact h2.block ht (by simp) rfl (.inl hall) _
  · obtain ⟨msg, -, rfl⟩ := Option.map_eq_some_iff.1 hk
    exact other_setFrames (f := .mqCopyOut ..) hall (k.modMq q _) rfl (by simp) rfl fun _ h => by rw [← Context.thread.inj h]; exact ht

end

omit I in
theorem other_rtMqUrgent (hall : all) (hc : ∀ t, c = .thread t → (k.thread t).party.taking = none)
    (q : MqId) (buffer : List (BitVec 8)) (urgent : Bool) :
    Protocol.Step (Frames all) k.protocol .other (k.rtMqUrgent c q buffer urgent).1.protocol := by
  unfold rtMqUrgent
  split
  · exact other_of_eq rfl
  · split
    · exact other_of_eq rfl
    · exact other_setFrames (f := .mqCopyIn ..) hall (k.modMq q _) rfl (by simp) rfl hc

theorem MutexInv.other_rtThreadSleep (ht : (k.thread t).party.taking = none)
    (hp : (k.thread t).pendingObject = none) (hall : all) (tick : BitVec 32) :
    Protocol.Step (Frames all) k.protocol .other (k.rtThreadSleep t tick).1.protocol := by
  unfold rtThreadSleep
  have h1 := I.calm_setError ht .eok
  have I1 := h1.inv I (I.sched.setError t .eok)
  have h2 := h1.trans (I1.calm_suspend ((h1.taking t).trans ht) ((h1.pending t).trans hp) .interruptible)
  have hs2 := I1.sched.rtThreadSuspendWithFlag_none t .interruptible
  dsimp only
  split
  · exact other_of_eq rfl
  · generalize (k.setError t .eok).rtThreadSuspendWithFlag t .interruptible = r at h2 hs2
    split
    · have I2 := h2.inv I hs2
      have h3 : Calm all r.1 (r.1.threadTimerStart t) := .of_eq protocol_threadTimerStart rfl
      have I3 := h3.inv I2 (hs2.threadTimerStart t)
      have h4 := (h2.trans h3).trans (I3.calm_setError (((h2.trans h3).taking t).trans ht) .eintr)
      have := h4.block ht (f := .sleep) (by simp) rfl (.inl hall) False
      rwa [if_neg not_false] at this
    · exact h2.step

theorem MutexInv.calm_rtThreadSleepWake (ht : (k.thread t).party.taking = none) : Calm all k (k.rtThreadSleepWake t) := by
  unfold rtThreadSleepWake
  split
  · exact I.calm_setError ht .eok
  · exact Calm.refl k

/-! ## Starting threads, and calling `rt_schedule` -/

/-- A thread that is started only becomes ready. -/
theorem MutexInv.protocol_rtThreadStartup (hk : k.rtThreadStartup t = some k') :
    k'.protocol = k.protocol ∧ k'.currentThread = k.currentThread := by
  unfold rtThreadStartup at hk
  obtain ⟨hi, hk⟩ := Option.ite_none_right_eq_some.1 hk
  cases hk
  have hcalc : (k.calcPriorityAttribute (k.thread t)).party = (k.thread t).party := by
    unfold calcPriorityAttribute
    split <;> rfl
  set k1 := (k.modThread t fun x => k.calcPriorityAttribute x).modThread t fun x =>
    { x with stat := .suspend .interruptible, statYield := false } with hk1
  have hp1 : k1.protocol = k.protocol.modParty t fun x => { x with phase := .suspended } := by
    rw [hk1, protocol_modThread (g := fun x => { x with phase := .suspended }) rfl, protocol_modThread_same hcalc]
  have hs1 : k1.suspended t := by rw [suspended, hk1, modThread_thread_self]; rfl
  refine ⟨?_, ?_⟩
  · have hns : k.suspended t = false := suspended_of_stat hi rfl
    have hphase : (k.thread t).party.phase = .active := by
      change (k.thread t).stat.phase = _
      rw [hi]; rfl
    have hun : (k.protocol.modParty t fun x => { x with phase := .suspended }).unlink t =
        (k.protocol.unlink t).modParty t fun x => { x with phase := .suspended } := rfl
    rw [protocol_rtThreadResume hs1, hp1, hun, I.sched.protocol_unlink hns]
    unfold Protocol.modParty
    simp only [Function.update_self, Function.update_idem]
    have : ({ k.protocol.party t with phase := .active } : Party) = k.protocol.party t := by
      rw [protocol_party, ← hphase]
    rw [this, Function.update_eq_self]
  · exact (rtThreadResume_calls k1 t).2

/-- `rt_schedule` at the end of a call by a thread that is in no other call. -/
theorem MutexInv.other_callSchedule (hc : isr = false → ∀ t, k.currentThread = some t → (k.thread t).cont = []) :
    Protocol.Step (Frames all) k.protocol .other (k.callSchedule isr).protocol := by
  unfold callSchedule
  split
  · exact other_of_eq I.sched.protocol_rtSchedule
  · rename_i hisr
    split
    · exact other_of_eq rfl
    · rename_i t ht
      have hnil := hc (by simpa using hisr) t ht
      rw [hnil, protocol_setCont]
      exact other_cont (Protocol.taking_of_cont_nil hnil) (.inr (.inl rfl)) rfl

theorem MutexInv.other_needSchedule (hc : isr = false → ∀ t, k.currentThread = some t → (k.thread t).cont = []) :
    Protocol.Step (Frames all) k.protocol .other (k.needSchedule isr need).protocol := by
  unfold needSchedule
  split
  · exact I.other_callSchedule hc
  · exact other_of_eq rfl

/-- A function that ends in `rt_schedule`. -/
theorem MutexInv.other_calmSchedule (h : Calm all k k') (hs : k'.SchedInv none)
    (hc : isr = false → ∀ t, k.currentThread = some t → (k.thread t).cont = []) :
    Protocol.Step (Frames all) k.protocol .other (k'.needSchedule isr need).protocol := by
  refine other_trans h.step ((h.inv I hs).other_needSchedule fun hisr t ht => ?_)
  rw [h.cont]
  exact hc hisr t (h.current ▸ ht)

end Kernel

end RtThread
