import RtThread.Sched.Invariant
import RtThread.Kernel.Chain
import RtThread.Kernel.Step

/-!
# The scheduler invariant over steps

The functions of `ipc.c` keep the scheduler invariant: they move threads only through the functions of `thread.c` and
by linking suspended threads in wait lists. So does every step of the kernel (`step_schedInv`).
-/

namespace RtThread

namespace Kernel

namespace SchedInv

variable {k k' : Kernel} {t : ThreadId} {ex : Option ThreadId}

theorem setTaken (h : k.SchedInv ex) (T : ThreadId → List MutexId) :
    SchedInv { k with takenObjectList := T } ex := h.congr (fun _ => rfl) rfl rfl rfl rfl rfl

theorem setSem (h : k.SchedInv ex) (s : SemId → Semaphore) : SchedInv { k with sem := s } ex :=
  h.congr (fun _ => rfl) rfl rfl rfl rfl rfl

theorem setEvent (h : k.SchedInv ex) (e : EventId → Event) : SchedInv { k with event := e } ex :=
  h.congr (fun _ => rfl) rfl rfl rfl rfl rfl

theorem setMailbox (h : k.SchedInv ex) (b : MailboxId → Mailbox) : SchedInv { k with mailbox := b } ex :=
  h.congr (fun _ => rfl) rfl rfl rfl rfl rfl

/-! ## Wait lists -/

/-- Unlinking a suspended thread from its wait list. -/
theorem unlink_suspended (h : k.SchedInv none) (hs : k.suspended t) :
    SchedInv { k with tlist := Links.remove k.tlist t } (some t) :=
  h.unlink (stat_of_suspended hs).1

theorem ipcListSuspend (h : k.SchedInv none) {d : ListHead} (hw : d.isWait)
    (hf : k.suspended t → Links.Free k.tlist t) (flag : IpcFlag) (suspendFlag : SuspendFlag) :
    (k.ipcListSuspend d t flag suspendFlag).1.SchedInv none := by
  unfold Kernel.ipcListSuspend
  set r := if k.suspended t then (k, RtErr.eok) else k.rtThreadSuspendWithFlag t suspendFlag with hr
  have hcases : (r.2 ≠ .eok ∧ r.1 = k) ∨ (r.2 = .eok ∧ r.1.SchedInv (some t) ∧ r.1.suspended t) := by
    rw [hr]
    split
    · rename_i hs
      exact .inr ⟨rfl, h.open_ (hf hs), hs⟩
    · exact h.rtThreadSuspendWithFlag t suspendFlag
  rcases hcases with ⟨he, e⟩ | ⟨he, h1, hs⟩
  · rw [if_pos he, e]; exact h
  · simp only [he, ne_eq, not_true_eq_false, if_false]
    cases flag with
    | fifo => exact h1.enqueue (List.perm_append_singleton _ _) hw hs
    | prio => exact h1.enqueue (List.perm_orderedInsert _ _ _) hw hs

theorem ipcListResume (h : k.SchedInv none) (d : ListHead) : (k.ipcListResume d).SchedInv none := by
  unfold Kernel.ipcListResume
  split
  · exact h
  · exact (h.setError _ _).rtThreadResume _

theorem ipcListResumeAll (h : k.SchedInv none) (d : ListHead) : (k.ipcListResumeAll d).SchedInv none := by
  unfold Kernel.ipcListResumeAll
  generalize k.tlist d = xs
  induction xs generalizing k with
  | nil => exact h
  | cons t ts ih => exact ih ((h.setError t .error).rtThreadResume t)

/-! ## Semaphores, events, mailboxes and message queues -/

theorem startTimer (h : k.SchedInv ex) (t : ThreadId) (p : Prop) [Decidable p] :
    (if p then k.threadTimerStart t else k).SchedInv ex := by
  split
  · exact h.threadTimerStart t
  · exact h

theorem rtSemTake (h : k.SchedInv none) (hs : k.suspended t = false) (s : SemId) (timeout : BitVec 32)
    (flag : SuspendFlag) : (k.rtSemTake t s timeout flag).1.SchedInv none := by
  unfold Kernel.rtSemTake
  have h1 := (h.setError t .eintr).ipcListSuspend (t := t) (d := .sem s) rfl
    (fun hs' => by simp [suspended, Kernel.setError] at hs hs'; simp [hs] at hs') (k.sem s).flag flag
  dsimp only
  split_ifs
  · exact h.setSem _
  · exact h
  · exact h1
  · exact (h1.threadTimerStart t).setCont t _
  · exact h1.setCont t _

theorem rtSemRelease (h : k.SchedInv none) (s : SemId) : (k.rtSemRelease s).1.SchedInv none := by
  unfold Kernel.rtSemRelease
  dsimp only
  split_ifs
  · exact h.ipcListResume _
  · exact h.setSem _
  · exact h

theorem eventResume (h : k.SchedInv none) (e : EventId) (t : ThreadId) : (k.eventResume e t).SchedInv none := by
  unfold Kernel.eventResume
  split_ifs
  · exact ((h.setEvent _).rtThreadResume t).setError t _
  · exact (h.rtThreadResume t).setError t _

theorem eventSendLoop (e : EventId) (ts : List ThreadId) (h : k.SchedInv none) (need : Bool) :
    (Kernel.eventSendLoop e ts k need).1.SchedInv none := by
  induction ts generalizing k need with
  | nil => exact h
  | cons t ts ih =>
    unfold Kernel.eventSendLoop
    dsimp only
    split_ifs
    · exact ih (h.eventResume e t) true
    · exact ih h need
    · exact ih (SchedInv.eventResume (h.modThread_congr rfl) e t) true
    · exact ih h need
    · exact h

theorem rtEventSend (h : k.SchedInv none) (e : EventId) (set : BitVec 32) : (k.rtEventSend e set).1.SchedInv none := by
  unfold Kernel.rtEventSend
  split
  · exact h
  · have h1 : SchedInv { k with
        event := Function.update k.event e { k.event e with set := (k.event e).set ||| set } } none := h.setEvent _
    have h2 := eventSendLoop e (k.tlist (.event e)) h1 false
    dsimp only
    split
    all_goals
      rename_i heq
      rw [heq] at h2
      exact h2

variable {timeout : BitVec 32} {flag : SuspendFlag} {r : Kernel × Option RtErr} {q : MqId} {priority : Nat}
  {m : MutexId} {f : Frame}

section

variable (h : k.SchedInv none) (hs : k.suspended t = false)

include h hs

theorem rtEventRecv {e : EventId} {set : BitVec 32}
    {option : BitVec 8} (hk : k.rtEventRecv t e set option timeout flag = some r) : r.1.SchedInv none := by
  unfold Kernel.rtEventRecv at hk
  have h0 := (h.setError t .eintr)
  have h1 := (h0.modThread_congr (t := t) (f := fun y => { y with eventSet := set, eventInfo := option }) rfl).ipcListSuspend
    (t := t) (d := .event e) rfl
    (fun hs' => by simp [suspended, Kernel.setError] at hs hs'; simp [hs] at hs') (k.event e).flag flag
  have h2 := (h0.setError t .eok).modThread_congr (t := t)
    (f := fun y => { y with eventSet := (k.event e).set &&& set, eventInfo := option }) rfl
  dsimp only at hk
  generalize hrec : (if option &&& eventFlagAnd ≠ 0#8 then decide (_ &&& set = set) else _) = received at hk
  split_ifs at hk
  all_goals obtain rfl := Option.some.inj hk
  · exact h
  · exact h2.setEvent _
  · exact h2
  · exact h0.setError t .etimeout
  · exact h1
  · exact (h1.threadTimerStart t).setCont t _
  · exact h1.setCont t _

theorem mbSendWaitLoop (b : MailboxId) (value : BitVec 64)
    (timeout tickDelta : BitVec 32) (flag : SuspendFlag) :
    (k.mbSendWaitLoop t b value timeout tickDelta flag).1.SchedInv none := by
  unfold Kernel.mbSendWaitLoop
  have h1 := (h.setError t .eintr).ipcListSuspend (t := t) (d := .mbSend b) rfl
    (fun hs' => by simp [suspended, Kernel.setError] at hs hs'; simp [hs] at hs') (k.mailbox b).flag flag
  dsimp only
  split_ifs
  · exact h.setError t .eintr
  · exact h1
  · exact (h1.threadTimerStart t).setCont t _
  · exact h1.setCont t _
  all_goals first | exact h.setMailbox _ | exact (h.setMailbox _).ipcListResume _

theorem mbRecvLoop (b : MailboxId) (timeout tickDelta : BitVec 32) (flag : SuspendFlag) :
    (k.mbRecvLoop t b timeout tickDelta flag).1.SchedInv none := by
  unfold Kernel.mbRecvLoop
  have h1 := (h.setError t .eintr).ipcListSuspend (t := t) (d := .mbRecv b) rfl
    (fun hs' => by simp [suspended, Kernel.setError] at hs hs'; simp [hs] at hs') (k.mailbox b).flag flag
  dsimp only
  split_ifs
  · exact (h.setError t .eintr).setError t .etimeout
  · exact h1
  · exact (h1.threadTimerStart t).setCont t _
  · exact h1.setCont t _
  all_goals first | exact h.setMailbox _ | exact (h.setMailbox _).ipcListResume _

end

theorem rtMbUrgent (h : k.SchedInv none) (b : MailboxId) (value : BitVec 64) :
    (k.rtMbUrgent b value).1.SchedInv none := by
  unfold Kernel.rtMbUrgent
  dsimp only
  split_ifs
  all_goals first | exact h | exact h.setMailbox _ | exact (h.setMailbox _).ipcListResume _

theorem modMq (h : k.SchedInv ex) (q : MqId) (f : MessageQueue → MessageQueue) : (k.modMq q f).SchedInv ex :=
  h.congr (fun _ => rfl) rfl rfl rfl rfl rfl

theorem setFrames (h : k.SchedInv ex) (c : Context) (fs : List Frame) : (k.setFrames c fs).SchedInv ex := by
  cases c with
  | thread t => exact h.setCont t fs
  | isr i => exact h.congr (fun _ => rfl) rfl rfl rfl rfl rfl

theorem mqTake (h : k.SchedInv ex) (c : Context) (q : MqId) (msg : Nat) (buffer : List (BitVec 8)) (urgent : Bool) :
    (k.mqTake c q msg buffer urgent).SchedInv ex :=
  (h.modMq q fun x => { x with msgQueueFree := x.next msg }).setFrames c _

theorem mqSendWaitLoop (h : k.SchedInv none) (hs : k.suspended t = false) (q : MqId) (buffer : List (BitVec 8))
    (timeout tickDelta : BitVec 32) (flag : SuspendFlag) :
    (k.mqSendWaitLoop t q buffer timeout tickDelta flag).1.SchedInv none := by
  unfold Kernel.mqSendWaitLoop
  have h1 := (h.setError t .eintr).ipcListSuspend (t := t) (d := .mqSend q) rfl
    (fun hs' => by simp [suspended, Kernel.setError] at hs hs'; simp [hs] at hs') (k.mq q).flag flag
  split
  · dsimp only
    split_ifs
    · exact h.setError t .eintr
    · exact h1
    · exact (h1.threadTimerStart t).setCont t _
    · exact h1.setCont t _
  · dsimp only
    exact h.mqTake _ _ _ _ _

theorem rtMqUrgent (h : k.SchedInv none) (c : Context) (q : MqId) (buffer : List (BitVec 8)) (urgent : Bool) :
    (k.rtMqUrgent c q buffer urgent).1.SchedInv none := by
  unfold Kernel.rtMqUrgent
  split
  · exact h
  · split
    · exact h
    · dsimp only
      exact h.mqTake _ _ _ _ _

theorem mqLink (h : k.SchedInv none) (q : MqId) (msg : Nat) (urgent : Bool) :
    (k.mqLink q msg urgent).1.SchedInv none := by
  unfold Kernel.mqLink
  have h1 := h.modMq q fun x => mqLinkMsg x msg urgent
  dsimp only
  split_ifs
  · exact (h1.modMq q fun x => { x with entry := x.entry + 1 }).ipcListResume _
  · exact h1.modMq q fun x => { x with entry := x.entry + 1 }
  · exact h1

theorem mqDetach (h : k.SchedInv ex) (c : Context) (q : MqId) (msg size : Nat) :
    (k.mqDetach c q msg size).SchedInv ex := (h.modMq q _).setFrames c _

theorem mqRecvLoop (h : k.SchedInv none) (hs : k.suspended t = false) {size : Nat}
    {tickDelta : BitVec 32} {r : Kernel × MqRecvEnd}
    (hk : k.mqRecvLoop t q size timeout tickDelta flag = some r) : r.1.SchedInv none := by
  unfold Kernel.mqRecvLoop at hk
  have h1 := (h.setError t .eintr).ipcListSuspend (t := t) (d := .mqRecv q) rfl
    (fun hs' => by simp [suspended, Kernel.setError] at hs hs'; simp [hs] at hs') (k.mq q).flag flag
  dsimp only at hk
  split_ifs at hk
  · obtain rfl := Option.some.inj hk; exact (h.setError t .eintr).setError t .etimeout
  · obtain rfl := Option.some.inj hk; exact h1
  · obtain rfl := Option.some.inj hk; exact (h1.threadTimerStart t).setCont t _
  · obtain rfl := Option.some.inj hk; exact h1.setCont t _
  · obtain ⟨msg, -, rfl⟩ := Option.map_eq_some_iff.1 hk
    dsimp only
    exact h.mqDetach _ _ _ _

theorem mqFree (h : k.SchedInv none) (q : MqId) (msg : Nat) : (k.mqFree q msg).1.SchedInv none := by
  unfold Kernel.mqFree
  have h1 := h.modMq q fun x => { x with next := Function.update x.next msg x.msgQueueFree, msgQueueFree := some msg }
  dsimp only
  split_ifs
  · exact h1.ipcListResume _
  · exact h1

theorem rtMqControlReset (fuel : Nat) (h : k.SchedInv none) (hk : Kernel.rtMqControlReset fuel k q = some k') :
    k'.SchedInv none := by
  obtain ⟨x, -, rfl⟩ := Option.map_eq_some_iff.1 hk
  exact ((h.ipcListResumeAll _).ipcListResumeAll _).modMq q _

/-! ## Mutexes -/

theorem mutexUpdatePriority (h : k.SchedInv ex) (m : MutexId) : (k.mutexUpdatePriority m).SchedInv ex := h.modMutex m _

theorem threadGetMutexPriority_le (k : Kernel) (t : ThreadId) :
    k.threadGetMutexPriority t ≤ (k.thread t).initPriority := by
  unfold threadGetMutexPriority
  generalize (k.thread t).initPriority = p
  induction k.takenObjectList t generalizing p with
  | nil => exact Nat.le_refl p
  | cons m ms ih => exact (ih _).trans (Nat.min_le_left _ _)

theorem threadGetMutexPriority_lt (h : k.SchedInv ex) (t : ThreadId) : k.threadGetMutexPriority t < k.priorityMax :=
  (threadGetMutexPriority_le k t).trans_lt (h.queues.init_lt t)

theorem moveWaiter (h : k.SchedInv none) (hs : k.suspended t) (m : MutexId) : (k.moveWaiter t m).SchedInv none :=
  ((h.unlink_suspended hs).enqueue (d := .mutex m) (List.perm_orderedInsert _ _ _) rfl hs).mutexUpdatePriority m

theorem raise (hr : Raise k t priority k') (h : k.SchedInv none) (hp : priority < k.priorityMax) : k'.SchedInv none := by
  induction hr with
  | stop hk1 => rw [hk1]; exact h.rtThreadControlChangePriority _ hp
  | last hk1 hs _ _ hk2 => rw [hk2]; exact (hk1 ▸ h.rtThreadControlChangePriority _ hp).moveWaiter hs _
  | next hk1 hs _ _ hk2 _ _ _ ih =>
    have h1 := hk1 ▸ h.rtThreadControlChangePriority _ hp
    have h2 := hk2 ▸ h1.moveWaiter hs _
    exact ih h2 (h2.threadGetMutexPriority_lt _)

theorem threadUpdatePriority (fuel : Nat) (h : k.SchedInv none) (hp : priority < k.priorityMax)
    (hk : Kernel.threadUpdatePriority fuel k t priority flag = some k') : k'.SchedInv none :=
  raise (.of_threadUpdatePriority hk) h hp

theorem waiterLeft (fuel : Nat) (h : k.SchedInv none) (hk : Kernel.waiterLeft fuel k m t = some k') :
    k'.SchedInv none := by
  unfold Kernel.waiterLeft at hk
  have h1 := h.mutexUpdatePriority m
  split at hk
  · cases hk
  · dsimp only at hk
    split_ifs at hk
    · exact threadUpdatePriority fuel h1 (h1.threadGetMutexPriority_lt _) hk
    · obtain rfl := Option.some.inj hk; exact h1
    · obtain rfl := Option.some.inj hk; exact h1

theorem rtMutexSetprioceiling (fuel : Nat) (h : k.SchedInv none) {r : Kernel × Nat}
    (hk : Kernel.rtMutexSetprioceiling fuel k m priority = some r) : r.1.SchedInv none := by
  unfold Kernel.rtMutexSetprioceiling at hk
  have h1 := h.modMutex m fun x => { x with ceilingPriority := priority }
  dsimp only at hk
  split at hk
  · split at hk
    · obtain rfl := Option.some.inj hk; exact h1
    · split at hk
      · obtain ⟨k2, hk2, rfl⟩ := Option.map_eq_some_iff.1 hk
        exact threadUpdatePriority fuel h1 (h1.threadGetMutexPriority_lt _) hk2
      · obtain rfl := Option.some.inj hk; exact h1
  · obtain rfl := Option.some.inj hk; exact h

theorem rtMutexDetach (h : k.SchedInv none) (m : MutexId) (object : ObjectState) :
    (k.rtMutexDetach m object).SchedInv none :=
  SchedInv.modMutex ((h.ipcListResumeAll (.mutex m)).setTaken (Links.remove (k.ipcListResumeAll (.mutex m)).takenObjectList m))
    m fun x => { x with object := object }

theorem rtMutexTake (fuel : Nat) (h : k.SchedInv none) (hs : k.suspended t = false)
    (hk : Kernel.rtMutexTake fuel k t m timeout flag = some r) : r.1.SchedInv none := by
  unfold Kernel.rtMutexTake at hk
  have h0 := h.setError t .eok
  have hs0 : (k.setError t .eok).suspended t = false := by
    simpa [suspended, Kernel.setError] using hs
  generalize k.setError t .eok = k0 at h0 hs0 hk
  dsimp only at hk
  split at hk
  · split at hk
    · obtain rfl := Option.some.inj hk; exact h0.modMutex m fun x => { x with hold := x.hold + 1 }
    · obtain rfl := Option.some.inj hk; exact h0
  · split at hk
    · obtain ⟨k2, hk2, rfl⟩ := Option.map_eq_some_iff.1 hk
      have h1 := h0.modMutex m fun x => { x with owner := some t, priority := 0xff, hold := 1 }
      split at hk2
      · rename_i hc
        exact SchedInv.setTaken (threadUpdatePriority fuel h1 (hc.2.trans (h1.queues.prio_lt t)) hk2) _
      · obtain rfl := Option.some.inj hk2; exact h1.setTaken _
    · rename_i o _
      split at hk
      · obtain rfl := Option.some.inj hk; exact h0.setError t _
      · have hsusp := h0.ipcListSuspend (t := t) (d := .mutex m) rfl (fun hs' => by simp [hs0] at hs') .prio flag
        split at hk
        · obtain rfl := Option.some.inj hk; exact hsusp
        · obtain ⟨k2, hk2, rfl⟩ := Option.map_eq_some_iff.1 hk
          have h1 := hsusp.modThread_congr (t := t) (f := fun x => { x with pendingObject := some m }) rfl
          have hfinal : k2.SchedInv none := by
            have h2 := h1.modMutex m fun x => { x with priority := k0.prio t }
            split_ifs at hk2 with hlt hlt'
            · exact threadUpdatePriority fuel h2 (hlt'.trans (h2.queues.prio_lt o)) hk2
            · obtain rfl := Option.some.inj hk2; exact h2
            · obtain rfl := Option.some.inj hk2; exact h1
          exact (hfinal.startTimer t _).setCont t _

theorem rtMutexTakeWake (fuel : Nat) (h : k.SchedInv none) {r : Kernel × RtErr}
    (hk : Kernel.rtMutexTakeWake fuel k t m = some r) : r.1.SchedInv none := by
  unfold Kernel.rtMutexTakeWake at hk
  split_ifs at hk
  · obtain rfl := Option.some.inj hk; exact h
  · obtain ⟨k2, hk2, rfl⟩ := Option.map_eq_some_iff.1 hk
    exact waiterLeft fuel h hk2

theorem mutexHandOver (h : k.SchedInv none) {n : ThreadId} (hs : k.suspended n) : (k.mutexHandOver m n).SchedInv none := by
  have h1 := (((h.unlink_suspended hs).modMutex m fun x => { x with owner := some n, hold := 1 }).setTaken
    (Links.insertAfter k.takenObjectList n m)).modThread_congr (t := n)
      (f := fun x => { x with pendingObject := none }) rfl
  have h2 := h1.of_suspended (by simpa [suspended] using hs)
  exact (h2.rtThreadResume n).mutexUpdatePriority m

theorem mutexReleaseLast (h : k.SchedInv none) (t : ThreadId) (m : MutexId) :
    (k.mutexReleaseLast t m).1.SchedInv none := by
  unfold Kernel.mutexReleaseLast
  have h1 := h.setTaken (Links.remove k.takenObjectList m)
  generalize { k with takenObjectList := Links.remove k.takenObjectList m } = k1 at h1
  dsimp only
  generalize decide ((k1.mutex m).ceilingPriority ≠ 0xff ∨ k1.prio t = (k1.mutex m).priority) = change
  have h2 : (if change then k1.rtThreadControlChangePriority t (k1.threadGetMutexPriority t) else k1).SchedInv none := by
    split
    · exact h1.rtThreadControlChangePriority t (h1.threadGetMutexPriority_lt t)
    · exact h1
  generalize (if change then k1.rtThreadControlChangePriority t (k1.threadGetMutexPriority t) else k1) = k2 at h2
  split
  · rename_i n ns hn
    exact h2.mutexHandOver (h2.queues.wait n (.mutex m) (by simp) rfl (by simp [hn]))
  · exact h2.modMutex m fun x => { x with owner := none, priority := 0xff }

theorem rtMutexRelease (h : k.SchedInv none) (t : ThreadId) (m : MutexId) :
    (k.rtMutexRelease t m).1.SchedInv none := by
  unfold Kernel.rtMutexRelease
  split
  · exact h.setError t .error
  · have h1 := h.modMutex m fun x => { x with hold := (x.hold + 255) % 256 }
    dsimp only
    split
    · exact h1.mutexReleaseLast t m
    · exact h1

/-! ## Deleting a thread -/

/-- A chain of priority changes leaves the state of every thread, and the defunct list. -/
theorem raise_closed (hr : Raise k t priority k') (h : k.SchedInv none) (hp : priority < k.priorityMax) :
    (∀ u, (k'.thread u).stat = (k.thread u).stat) ∧ k'.tlist .defunct = k.tlist .defunct := by
  have change {k k1 : Kernel} {t : ThreadId} {p : Nat} (hk1 : k1 = k.rtThreadControlChangePriority t p)
      (h : k.SchedInv none) :
      (∀ u, (k1.thread u).stat = (k.thread u).stat) ∧ k1.tlist .defunct = k.tlist .defunct := by
    rw [hk1]
    refine ⟨fun u => ?_, h.rtThreadControlChangePriority_tlist t p (by simp)⟩
    rw [h.rtThreadControlChangePriority_thread]
    by_cases e : u = t
    · subst e; rw [Function.update_self, calcPriorityAttribute]; split <;> rfl
    · rw [Function.update_of_ne e]
  have move {k : Kernel} {t : ThreadId} {m : MutexId} (hs : k.suspended t) (h : k.SchedInv none) :
      (k.moveWaiter t m).tlist .defunct = k.tlist .defunct := by
    have : t ∉ k.tlist .defunct := fun hmem => (stat_of_suspended hs).2.2.2 (h.queues.defunct t (by simp) hmem)
    simp [Kernel.moveWaiter, Kernel.mutexUpdatePriority, Links.insertSorted, Links.remove_of_notMem this]
  induction hr with
  | stop hk1 => exact change hk1 h
  | last hk1 hs _ _ hk2 =>
    obtain ⟨hstat, hdef⟩ := change hk1 h
    have h1 := hk1 ▸ h.rtThreadControlChangePriority _ hp
    rw [hk2]
    exact ⟨hstat, (move hs h1).trans hdef⟩
  | next hk1 hs _ _ hk2 _ _ _ ih =>
    obtain ⟨hstat, hdef⟩ := change hk1 h
    have h1 := hk1 ▸ h.rtThreadControlChangePriority _ hp
    have h2 := hk2 ▸ h1.moveWaiter hs _
    obtain ⟨hstat', hdef'⟩ := ih h2 (h2.threadGetMutexPriority_lt _)
    rw [hk2] at hstat' hdef'
    exact ⟨fun u => (hstat' u).trans (hstat u), hdef'.trans ((move hs h1).trans hdef)⟩

theorem waiterLeft_closed (fuel : Nat) (h : k.SchedInv none) (hk : Kernel.waiterLeft fuel k m t = some k') :
    (∀ u, (k'.thread u).stat = (k.thread u).stat) ∧ k'.tlist .defunct = k.tlist .defunct := by
  unfold Kernel.waiterLeft at hk
  have h1 := h.mutexUpdatePriority m
  split at hk
  · cases hk
  · dsimp only at hk
    split_ifs at hk
    · exact raise_closed (k := k.mutexUpdatePriority m) (.of_threadUpdatePriority hk) h1 (h1.threadGetMutexPriority_lt _)
    all_goals obtain rfl := Option.some.inj hk; exact ⟨fun _ => rfl, rfl⟩

theorem threadClose (h : k.SchedInv none) (hnc : (k.thread t).stat ≠ .close) :
    (k.threadClose t).SchedInv (some t) := by
  have h1 : (if (k.thread t).stat ≠ .init then k.rtScheduleRemoveThread t else k).SchedInv (some t) := by
    split
    · rename_i hi; exact h.out (h.queues.masked t hi hnc)
    · rename_i hi
      simp only [ne_eq, not_not] at hi
      exact h.open_ (h.queues.free_of_stat (by simp [hi]) (by simp [suspended, hi, Stat.isSuspend]) (by simp [hi]))
  exact (h1.threadTimerStop t).close

theorem threadClose_stat (k : Kernel) (t : ThreadId) : ((k.threadClose t).thread t).stat = .close := by
  simp [Kernel.threadClose]

theorem threadClose_masked (h : k.SchedInv none) (hc : (k.threadClose t).currentThread = some t) :
    (k.threadClose t).Masked ((k.threadClose t).thread t) := by
  unfold Kernel.threadClose at hc ⊢
  have hc' : k.currentThread = some t := by
    split at hc <;> simpa [Kernel.threadTimerStop] using hc
  have hm := (h.current t (by simp) hc').2.2
  split <;> simpa [Kernel.threadTimerStop, Masked] using hm

theorem dropPendingObject (fuel : Nat) (h : k.SchedInv (some t)) (hs : (k.thread t).stat = .close)
    (hm : k.currentThread = some t → k.Masked (k.thread t)) (hk : Kernel.dropPendingObject fuel k t = some k') :
    (k'.rtThreadDefunctEnqueue t).SchedInv none := by
  unfold Kernel.dropPendingObject at hk
  split at hk
  · obtain rfl := Option.some.inj hk; exact h.rtThreadDefunctEnqueue hs hm
  · split at hk
    · cases hk
    · obtain rfl := Option.some.inj hk; exact h.rtThreadDefunctEnqueue hs hm
    · obtain ⟨k1, hk1, rfl⟩ := Option.map_eq_some_iff.1 hk
      have h0 := ((h.of_closed hs hm).unlink (t := t) (by simp [hs])).of_closed hs hm
      obtain ⟨hstat, hdef⟩ := waiterLeft_closed fuel h0 hk1
      have h1 := waiterLeft fuel h0 hk1
      have hs1 : (k1.thread t).stat = .close := (hstat t).trans hs
      have hf : Links.Free k1.tlist t := by
        intro d hmem
        cases d with
        | ready p => simpa [hs1] using (h1.queues.ready t p (by simp)).1 hmem
        | defunct => rw [hdef] at hmem; exact Links.free_remove _ _ _ hmem
        | _ => simpa [suspended, hs1, Stat.isSuspend] using h1.queues.wait t _ (by simp) rfl hmem
      have h2 := (h1.open_ hf).modThread_congr (t := t) (f := fun x => { x with pendingObject := none }) rfl
      refine h2.rtThreadDefunctEnqueue (by simpa using hs1) fun hc => ?_
      simpa [Masked] using (h1.current t (by simp) hc).2.2

theorem rtThreadDelete (fuel : Nat) (h : k.SchedInv none) (hk : Kernel.rtThreadDelete fuel k t = some k') :
    k'.SchedInv none := by
  unfold Kernel.rtThreadDelete at hk
  split at hk
  · obtain rfl := Option.some.inj hk; exact h
  · rename_i hnc
    obtain ⟨k1, hk1, rfl⟩ := Option.map_eq_some_iff.1 hk
    exact dropPendingObject fuel (h.threadClose hnc) (threadClose_stat k t) h.threadClose_masked hk1

/-! ## Steps -/

theorem callSchedule (h : k.SchedInv none) (isr : Bool) : (k.callSchedule isr).SchedInv none := by
  unfold Kernel.callSchedule
  split
  · exact h.rtSchedule
  · split
    · exact h
    · exact h.setCont _ _

theorem needSchedule (h : k.SchedInv none) (isr need : Bool) : (k.needSchedule isr need).SchedInv none := by
  unfold Kernel.needSchedule
  split
  · exact h.callSchedule isr
  · exact h

theorem mqFrame (h : k.SchedInv none) {c : Context} {fs : List Frame} {r : Kernel × Option Ret × Bool}
    (hk : k.mqFrame c fs f = some r) : r.1.SchedInv none := by
  have h0 := h.setFrames c fs
  cases f with
  | mqCopyIn q msg buffer urgent => obtain rfl := Option.some.inj hk; exact (h.modMq q _).setFrames c _
  | mqLink q msg buffer urgent => obtain rfl := Option.some.inj hk; exact h0.mqLink q msg urgent
  | mqCopyOut q msg size => obtain rfl := Option.some.inj hk; exact h.setFrames c _
  | mqFree q msg buffer => obtain rfl := Option.some.inj hk; exact h0.mqFree q msg
  | _ => cases hk

theorem runFrame (fuel : Nat) (h : k.SchedInv none) (fs : List Frame) {r : Kernel × Option Ret}
    (hs : f = .schedule ∨ (k.thread t).stat = .running) (hk : Kernel.runFrame fuel k t fs f = some r) :
    r.1.SchedInv none := by
  have h0 := h.setCont t fs
  have hs0 : f ≠ .schedule → (k.setCont t fs).suspended t = false := by
    intro hne
    simp [suspended, Kernel.setCont, hs.resolve_left hne, Stat.isSuspend]
  cases f with
  | schedule => obtain rfl := Option.some.inj hk; exact h0.rtSchedule
  | mutexTake m =>
    obtain ⟨r1, hk1, rfl⟩ := Option.map_eq_some_iff.1 hk
    exact rtMutexTakeWake fuel h0 hk1
  | semTake s => obtain rfl := Option.some.inj hk; exact h0
  | eventRecv e => obtain rfl := Option.some.inj hk; exact h0
  | mbSendWait b value timeout tickDelta flag =>
    cases hk
    refine SchedInv.needSchedule ?_ _ _
    unfold Kernel.rtMbSendWaitWake
    split
    · exact h0
    · exact h0.mbSendWaitLoop (hs0 (by simp)) _ _ _ _ _
  | mbRecv b timeout tickDelta flag =>
    cases hk
    refine SchedInv.needSchedule ?_ _ _
    unfold Kernel.rtMbRecvWake
    split
    · exact h0
    · exact h0.mbRecvLoop (hs0 (by simp)) _ _ _ _
  | mqSendWait q buffer timeout tickDelta flag =>
    cases hk
    unfold Kernel.rtMqSendWaitWake
    split
    · exact h0
    · exact h0.mqSendWaitLoop (hs0 (by simp)) _ _ _ _ _
  | mqRecv q size timeout tickDelta flag =>
    obtain ⟨r1, hk1, rfl⟩ := Option.map_eq_some_iff.1 hk
    unfold Kernel.rtMqRecvWake at hk1
    split at hk1
    · obtain rfl := Option.some.inj hk1; exact h0
    · exact mqRecvLoop h0 (hs0 (by simp)) hk1
  | sleep => obtain rfl := Option.some.inj hk; exact h0.rtThreadSleepWake t
  | mqCopyIn | mqLink | mqCopyOut | mqFree =>
    simp only [Kernel.runFrame] at hk
    obtain ⟨r1, hk1, rfl⟩ := Option.map_eq_some_iff.1 hk
    exact (h.mqFrame hk1).needSchedule _ _

end SchedInv

/-- Every step of the kernel keeps the scheduler invariant. -/
theorem step_schedInv {fuel : Nat} {k k' : Kernel} {ev : Ev} {r : Option Ret} (h : k.SchedInv none)
    (hk : step fuel k ev = some (k', r)) : k'.SchedInv none := by
  cases ev with
  | schedulerStart =>
    obtain ⟨k1, hk1, he⟩ := Option.map_eq_some_iff.1 hk
    cases he
    exact h.rtSystemSchedulerStart hk1
  | schedule => obtain ⟨rfl, -⟩ := Prod.mk.inj (Option.some.inj hk); exact h.rtSchedule
  | dispatch t =>
    simp only [step] at hk
    split at hk
    · cases hk
    · rename_i c hc
      split at hk
      · rename_i hs
        cases hk
        exact h.switchTo hc hs _ rfl
      · cases hk
  | cont =>
    simp only [step] at hk
    split at hk
    · cases hk
    · split at hk
      · cases hk
      · split at hk
        · rename_i hf
          exact SchedInv.runFrame fuel h _ hf hk
        · cases hk
  | tick => obtain ⟨rfl, -⟩ := Prod.mk.inj (Option.some.inj hk); exact h.rtTickIncrease
  | timeout t =>
    simp only [step] at hk
    split at hk
    · obtain ⟨k1, hk1, he⟩ := Option.map_eq_some_iff.1 hk
      cases he
      exact (SchedInv.threadTimeout (h.threadTimerStop t) hk1).rtSchedule
    · cases hk
  | sigcheck t answer =>
    obtain ⟨rfl, -⟩ := Prod.mk.inj (Option.some.inj hk); exact h.modThread_congr rfl
  | startup isr t =>
    simp only [step] at hk
    split at hk
    · obtain ⟨k1, hk1, he⟩ := Option.map_eq_some_iff.1 hk
      cases he
      exact (h.rtThreadStartup hk1).callSchedule isr
    · cases hk
  | resume t => obtain ⟨rfl, -⟩ := Prod.mk.inj (Option.some.inj hk); exact h.rtThreadResume t
  | changePriority t priority =>
    simp only [step] at hk
    split at hk
    · rename_i hp
      cases hk
      exact h.rtThreadControlChangePriority t hp
    · cases hk
  | delete t =>
    obtain ⟨k1, hk1, he⟩ := Option.map_eq_some_iff.1 hk
    cases he
    exact SchedInv.rtThreadDelete fuel h hk1
  | defunctDequeue => obtain ⟨rfl, -⟩ := Prod.mk.inj (Option.some.inj hk); exact h.rtThreadDefunctDequeue
  | exit =>
    obtain ⟨t, ht, he⟩ := Option.map_eq_some_iff.1 hk
    cases he
    exact (h.threadExit (h.current t (by simp) (self_eq_some.1 ht).1).2.2).callSchedule false
  | suspend flag =>
    obtain ⟨t, -, he⟩ := Option.map_eq_some_iff.1 hk
    cases he
    exact h.rtThreadSuspendWithFlag_none t flag
  | sleep tick =>
    obtain ⟨t, -, he⟩ := Option.map_eq_some_iff.1 hk
    cases he
    exact h.rtThreadSleep t tick
  | yield =>
    obtain ⟨t, -, he⟩ := Option.map_eq_some_iff.1 hk
    cases he
    exact h.rtThreadYield t
  | enterCritical => obtain ⟨rfl, -⟩ := Prod.mk.inj (Option.some.inj hk); exact h.rtEnterCritical
  | exitCritical => obtain ⟨rfl, -⟩ := Prod.mk.inj (Option.some.inj hk); exact h.rtExitCritical
  | mutexTake m timeout flag =>
    obtain ⟨t, ht, hk⟩ := Option.bind_eq_some_iff.1 hk
    split at hk
    · obtain ⟨r1, hk1, he⟩ := Option.bind_eq_some_iff.1 hk
      cases he
      exact SchedInv.rtMutexTake fuel h (caller_eq_some.1 ht).2.2 hk1
    · cases hk
  | mutexRelease m =>
    obtain ⟨t, ht, hk⟩ := Option.bind_eq_some_iff.1 hk
    split at hk
    · cases hk
      exact (h.rtMutexRelease t m).needSchedule _ _
    · cases hk
  | mutexSetprioceiling m priority =>
    obtain ⟨r1, hk1, he⟩ := Option.map_eq_some_iff.1 hk
    cases he
    exact SchedInv.rtMutexSetprioceiling fuel h hk1
  | mutexDetach m freed =>
    simp only [step] at hk
    split at hk
    · cases hk
      exact h.rtMutexDetach m _
    · cases hk
  | semTake s timeout flag =>
    obtain ⟨t, ht, hk⟩ := Option.bind_eq_some_iff.1 hk
    cases hk
    exact h.rtSemTake (caller_eq_some.1 ht).2.2 s timeout flag
  | semRelease isr s =>
    simp only [step] at hk
    split at hk
    · cases hk
      exact (h.rtSemRelease s).needSchedule _ _
    · cases hk
  | eventRecv e set option timeout flag =>
    obtain ⟨t, ht, hk⟩ := Option.bind_eq_some_iff.1 hk
    obtain ⟨r1, hk1, he⟩ := Option.bind_eq_some_iff.1 hk
    cases he
    exact h.rtEventRecv (caller_eq_some.1 ht).2.2 hk1
  | eventSend isr e set =>
    simp only [step] at hk
    split at hk
    · cases hk
      exact (h.rtEventSend e set).needSchedule _ _
    · cases hk
  | mbSendWait b value timeout flag =>
    obtain ⟨t, ht, hk⟩ := Option.bind_eq_some_iff.1 hk
    cases hk
    refine SchedInv.needSchedule ?_ _ _
    unfold rtMbSendWait
    split
    · exact h
    · exact h.mbSendWaitLoop (caller_eq_some.1 ht).2.2 _ _ _ _ _
  | mbUrgent isr b value =>
    simp only [step] at hk
    split at hk
    · cases hk
      exact (h.rtMbUrgent b value).needSchedule _ _
    · cases hk
  | mbRecv b timeout flag =>
    obtain ⟨t, ht, hk⟩ := Option.bind_eq_some_iff.1 hk
    cases hk
    refine SchedInv.needSchedule ?_ _ _
    unfold rtMbRecv
    split
    · exact h
    · exact h.mbRecvLoop (caller_eq_some.1 ht).2.2 _ _ _ _
  | mqSendWait q buffer timeout flag =>
    obtain ⟨t, ht, hk⟩ := Option.bind_eq_some_iff.1 hk
    split at hk
    · cases hk
    · cases hk
      unfold rtMqSendWait
      split_ifs
      · exact h
      · exact h
      · exact h.mqSendWaitLoop (caller_eq_some.1 ht).2.2 _ _ _ _ _
  | mqUrgent isr q buffer =>
    obtain ⟨c, -, hk⟩ := Option.bind_eq_some_iff.1 hk
    split at hk
    · cases hk
    · cases hk
      exact h.rtMqUrgent c q buffer true
  | mqSendIsr i q buffer =>
    obtain ⟨c, -, hk⟩ := Option.bind_eq_some_iff.1 hk
    split at hk
    · cases hk
    · cases hk
      exact h.rtMqUrgent c q buffer false
  | mqRecv q size timeout flag =>
    obtain ⟨t, ht, hk⟩ := Option.bind_eq_some_iff.1 hk
    split at hk
    · cases hk
    · obtain ⟨r1, hk1, he⟩ := Option.map_eq_some_iff.1 hk
      cases he
      unfold rtMqRecv at hk1
      split at hk1
      · obtain rfl := Option.some.inj hk1; exact h
      · exact SchedInv.mqRecvLoop h (caller_eq_some.1 ht).2.2 hk1
  | mqRecvIsr i q size =>
    simp only [step] at hk
    split at hk
    · cases hk
    · obtain ⟨r1, hk1, he⟩ := Option.map_eq_some_iff.1 hk
      cases he
      unfold rtMqRecvIsr at hk1
      split at hk1
      · obtain rfl := Option.some.inj hk1; exact h
      · obtain ⟨msg, -, rfl⟩ := Option.map_eq_some_iff.1 hk1
        dsimp only
        exact h.mqDetach _ _ _ _
  | mqReset isr q =>
    simp only [step] at hk
    split at hk
    · obtain ⟨k1, hk1, he⟩ := Option.map_eq_some_iff.1 hk
      cases he
      exact (SchedInv.rtMqControlReset fuel h hk1).callSchedule isr
    · cases hk
  | isrCont i =>
    simp only [step] at hk
    split at hk
    · cases hk
    · obtain ⟨r1, hk1, he⟩ := Option.map_eq_some_iff.1 hk
      cases he
      exact (h.mqFrame hk1).needSchedule _ _

end Kernel

end RtThread
