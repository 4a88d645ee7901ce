import RtThread.Sched.Steps
import RtThread.Mutex.Base

/-!
# The kernel, as mutexes see it

`Kernel.protocol` forgets the scheduler. For each function of `scheduler_up.c`, `thread.c` and `ipc.c`, a lemma says what
is left of it there: scheduling is nothing at all, a priority change is `setPrio`, a chain of them is `Raise`.
-/

namespace RtThread

open Function (update update_of_ne update_self)

def Stat.phase : Stat → Phase
  | .close => .closed
  | .suspend _ => .suspended
  | _ => .active

theorem Stat.phase_eq_suspended {s : Stat} : s.phase = .suspended ↔ s.isSuspend = true := by
  cases s <;> simp [phase, isSuspend]

theorem Stat.phase_eq_closed {s : Stat} : s.phase = .closed ↔ s = .close := by cases s <;> simp [phase]

/-- A thread, as far as mutexes see it. -/
def Thread.party (x : Thread) : Party :=
  { phase := x.stat.phase
    prio := x.currentPriority
    init := x.initPriority
    error := x.error
    pending := x.pendingObject
    cont := x.cont }

namespace Kernel

variable {k k' : Kernel} {t u : ThreadId} {m : MutexId}

/-- The state of the mutex protocol. -/
def protocol (k : Kernel) : Protocol :=
  { party := fun t => (k.thread t).party
    waiters := fun m => k.tlist (.mutex m)
    taken := k.takenObjectList
    mutex := k.mutex }

@[simp] theorem protocol_party (k : Kernel) (t : ThreadId) : k.protocol.party t = (k.thread t).party := rfl
@[simp] theorem protocol_waiters (k : Kernel) (m : MutexId) : k.protocol.waiters m = k.tlist (.mutex m) := rfl
@[simp] theorem protocol_taken (k : Kernel) : k.protocol.taken = k.takenObjectList := rfl
@[simp] theorem protocol_mutex (k : Kernel) : k.protocol.mutex = k.mutex := rfl

theorem protocol_suspended : (k.protocol.party t).phase = .suspended ↔ k.suspended t = true := Stat.phase_eq_suspended

theorem protocol_closed : (k.protocol.party t).phase = .closed ↔ (k.thread t).stat = .close := Stat.phase_eq_closed

theorem protocol_ext (hp : ∀ u, (k'.thread u).party = (k.thread u).party)
    (hw : ∀ m, k'.tlist (.mutex m) = k.tlist (.mutex m)) (hT : k'.takenObjectList = k.takenObjectList)
    (hm : k'.mutex = k.mutex) : k'.protocol = k.protocol := by
  have hp' : (fun u => (k'.thread u).party) = fun u => (k.thread u).party := funext hp
  have hw' : (fun m => k'.tlist (.mutex m)) = fun m => k.tlist (.mutex m) := funext hw
  unfold protocol
  rw [hp', hw', hT, hm]

/-! ## Writes to one thread, and lists -/

variable {f : Thread → Thread} {d : ListHead}

theorem protocol_modThread {g : Party → Party}
    (h : (f (k.thread t)).party = g (k.thread t).party) : (k.modThread t f).protocol = k.protocol.modParty t g := by
  have hp : (fun u => ((k.modThread t f).thread u).party) =
      update (fun u => (k.thread u).party) t (g (k.thread t).party) := by
    funext u
    by_cases e : u = t
    · subst e; rw [modThread_thread_self, update_self, h]
    · rw [modThread_thread_of_ne e, update_of_ne e]
  unfold protocol Protocol.modParty
  rw [hp]
  rfl

theorem protocol_modThread_same (h : (f (k.thread t)).party = (k.thread t).party) :
    (k.modThread t f).protocol = k.protocol :=
  protocol_ext (modThread_part Thread.party h) (fun _ => rfl) rfl rfl

@[simp] theorem protocol_setError (e : RtErr) :
    (k.setError t e).protocol = k.protocol.modParty t fun x => { x with error := e } := protocol_modThread rfl

@[simp] theorem protocol_setCont (c : List Frame) :
    (k.setCont t c).protocol = k.protocol.modParty t fun x => { x with cont := c } := protocol_modThread rfl

@[simp] theorem protocol_threadTimerStart : (k.threadTimerStart t).protocol = k.protocol := protocol_modThread_same rfl

@[simp] theorem protocol_threadTimerStop : (k.threadTimerStop t).protocol = k.protocol := protocol_modThread_same rfl

@[simp] theorem protocol_modMutex (g : Mutex → Mutex) : (k.modMutex m g).protocol = k.protocol.modMutex m g := rfl

/-- Unlinking a `tlist` node. -/
@[simp] theorem protocol_remove (t : ThreadId) :
    protocol { k with tlist := Links.remove k.tlist t } = k.protocol.unlink t := rfl

theorem protocol_insertAfter (h : ∀ m, d ≠ .mutex m) :
    protocol { k with tlist := Links.insertAfter k.tlist d t } = k.protocol :=
  protocol_ext (fun _ => rfl) (fun m => Links.insertAfter_ne (h m).symm) rfl rfl

theorem protocol_insertBefore (h : ∀ m, d ≠ .mutex m) :
    protocol { k with tlist := Links.insertBefore k.tlist d t } = k.protocol :=
  protocol_ext (fun _ => rfl) (fun m => Links.insertBefore_ne (h m).symm) rfl rfl

theorem protocol_insertSorted (h : ∀ m, d ≠ .mutex m) :
    protocol { k with tlist := Links.insertSorted k.prio k.tlist d t } = k.protocol :=
  protocol_ext (fun _ => rfl) (fun m => Links.insertSorted_ne (h m).symm) rfl rfl

/-- Linking a thread in the wait list of a mutex. -/
theorem protocol_link : protocol { k with tlist := Links.insertSorted k.prio k.tlist (.mutex m) t } =
    k.protocol.link t m := by
  have hw : (fun m' => Links.insertSorted k.prio k.tlist (.mutex m) t (.mutex m')) =
      Links.insertSorted k.prio (fun m' => k.tlist (.mutex m')) m t := by
    funext m'
    by_cases e : m' = m
    · subst e; simp [Links.insertSorted]
    · rw [Links.insertSorted_ne e, Links.insertSorted_ne (by simpa using e)]
  unfold protocol Protocol.link
  rw [hw]
  rfl

/-! ## The scheduler -/

@[simp] theorem protocol_rtScheduleInsertThread :
    (k.rtScheduleInsertThread t).protocol = k.protocol.modParty t fun x => { x with phase := .active } := by
  have hp : (fun u => ((k.rtScheduleInsertThread t).thread u).party) =
      update (fun u => (k.thread u).party) t { (k.thread t).party with phase := .active } := by
    funext u
    rw [rtScheduleInsertThread_thread]
    by_cases e : u = t
    · subst e
      rw [update_self, update_self]
      split <;> rfl
    · rw [update_of_ne e, update_of_ne e]
  have hw : (fun m => (k.rtScheduleInsertThread t).tlist (.mutex m)) = fun m => k.tlist (.mutex m) := by
    funext m
    rw [rtScheduleInsertThread_tlist]
    split_ifs
    · rfl
    · exact Links.insertBefore_ne (by simp)
    · exact Links.insertAfter_ne (by simp)
  unfold protocol Protocol.modParty
  rw [hp, hw, rtScheduleInsertThread_mutex, rtScheduleInsertThread_takenObjectList]

@[simp] theorem protocol_rtScheduleRemoveThread : (k.rtScheduleRemoveThread t).protocol = k.protocol.unlink t := by
  unfold protocol Protocol.unlink
  rw [rtScheduleRemoveThread_thread, rtScheduleRemoveThread_tlist, rtScheduleRemoveThread_mutex,
    rtScheduleRemoveThread_takenObjectList]
  rfl

/-- A thread that is not suspended is in no wait list. -/
theorem SchedInv.notMem_mutex (h : k.SchedInv none) (hs : k.suspended t = false) (m : MutexId) :
    t ∉ k.tlist (.mutex m) := fun hm => by
  simpa [hs] using h.queues.wait t (.mutex m) (by simp) rfl hm

theorem SchedInv.protocol_unlink (h : k.SchedInv none) (hs : k.suspended t = false) :
    k.protocol.unlink t = k.protocol := Protocol.unlink_of_notMem (h.notMem_mutex hs)

theorem suspended_of_stat {s : Stat} (hs : (k.thread t).stat = s) (h : s.isSuspend = false) :
    k.suspended t = false := by rw [suspended, hs, h]

theorem protocol_modParty_same {s : Protocol} {f : Party → Party} (h : f (s.party t) = s.party t) :
    s.modParty t f = s := by simp [Protocol.modParty, h]

theorem SchedInv.protocol_switchTo (h : k.SchedInv none) {c : ThreadId} (ht : (k.thread t).stat = .ready) (hp : Nat) :
    (k.switchTo hp c t (decide ((k.thread c).stat = .running))).protocol = k.protocol := by
  have hsame {t : ThreadId} (ht : (k.thread t).stat = .ready ∨ (k.thread t).stat = .running) :
      (k.protocol.modParty t fun x => { x with phase := .active }) = k.protocol := by
    have hphase : (k.thread t).stat.phase = .active := by rcases ht with ht | ht <;> rw [ht] <;> rfl
    refine protocol_modParty_same ?_
    rw [← hphase]; rfl
  have hu := h.protocol_unlink (suspended_of_stat ht rfl)
  unfold Kernel.switchTo
  rw [protocol_modThread (g := fun x => { x with phase := .active }) rfl, protocol_rtScheduleRemoveThread]
  split
  · rename_i hr
    rw [protocol_rtScheduleInsertThread]
    change ((k.protocol.modParty c _).unlink t).modParty t _ = _
    rw [hsame (.inr (by simpa using hr)), hu, hsame (.inl ht)]
  · change (k.protocol.unlink t).modParty t _ = _
    rw [hu, hsame (.inl ht)]

/-- `rt_schedule` is nothing to the mutexes. -/
@[simp] theorem SchedInv.protocol_rtSchedule (h : k.SchedInv none) : k.rtSchedule.protocol = k.protocol := by
  rcases h.rtSchedule_cases with ⟨-, e⟩ | ⟨c, -, -, hc, -, hr, -, e⟩ | ⟨c, hp, t, hc, -, ht, -, e⟩
  · rw [e]
  · have hu := h.protocol_unlink (suspended_of_stat hr rfl)
    rw [e, protocol_modThread (g := fun x => { x with phase := .active }) rfl, protocol_rtScheduleRemoveThread,
      protocol_modThread_same rfl, hu]
    refine protocol_modParty_same ?_
    change { (k.thread c).party with phase := .active } = (k.thread c).party
    rw [Thread.party, hr]; rfl
  · have hready := (h.ready_of_head ht).1
    have hct : t ≠ c := by
      rintro rfl
      exact (h.current _ (by simp) hc).1 hready
    rw [e]
    split
    · rename_i hr
      have h1 : (k.modThread c fun x => { x with statYield := false }).SchedInv none := h.modThread_congr rfl
      have := h1.protocol_switchTo (t := t) (c := c) (by rw [modThread_thread_of_ne hct]; exact hready) hp
      rw [modThread_thread_self] at this
      rw [this, protocol_modThread_same rfl]
    · exact h.protocol_switchTo hready hp

/-! ## `thread.c` -/

theorem protocol_rtThreadResume (hs : k.suspended t) :
    (k.rtThreadResume t).1.protocol = (k.protocol.unlink t).modParty t fun x => { x with phase := .active } := by
  rw [rtThreadResume, if_pos hs]
  simp

theorem SchedInv.protocol_rtThreadSuspendWithFlag (h : k.SchedInv none) {flag : SuspendFlag}
    (hr : (k.rtThreadSuspendWithFlag t flag).2 = .eok) :
    (k.protocol.party t).phase = .active ∧
      (k.rtThreadSuspendWithFlag t flag).1.protocol = k.protocol.modParty t fun x => { x with phase := .suspended } := by
  unfold Kernel.rtThreadSuspendWithFlag at hr ⊢
  split_ifs at hr with hs hc
  rw [if_pos hs, if_pos hc]
  have hns : k.suspended t = false := by rcases hs with hs | hs <;> simp [suspended, hs, Stat.isSuspend]
  refine ⟨?_, ?_⟩
  · change (k.thread t).stat.phase = _
    rcases hs with hs | hs <;> rw [hs] <;> rfl
  · rw [protocol_threadTimerStop, protocol_modThread (g := fun x => { x with phase := .suspended }) rfl,
      protocol_rtScheduleRemoveThread, h.protocol_unlink hns]

theorem SchedInv.protocol_changePriority (h : k.SchedInv none) (t : ThreadId) (p : Nat) :
    (k.rtThreadControlChangePriority t p).protocol = k.protocol.setPrio t p := by
  have hp : (fun u => ((k.rtThreadControlChangePriority t p).thread u).party) =
      update (fun u => (k.thread u).party) t { (k.thread t).party with prio := p } := by
    funext u
    rw [h.rtThreadControlChangePriority_thread]
    by_cases e : u = t
    · subst e
      rw [update_self, update_self, calcPriorityAttribute]
      split <;> rfl
    · rw [update_of_ne e, update_of_ne e]
  have hw : (fun m => (k.rtThreadControlChangePriority t p).tlist (.mutex m)) = fun m => k.tlist (.mutex m) :=
    funext fun m => h.rtThreadControlChangePriority_tlist t p (by simp)
  unfold protocol Protocol.setPrio Protocol.modParty
  rw [hp, hw, rtThreadControlChangePriority_mutex, rtThreadControlChangePriority_takenObjectList]

/-! ## Priority inheritance -/

theorem first_protocol (m : MutexId) : k.protocol.first m = k.firstWaiterPriority m := by
  unfold Protocol.first firstWaiterPriority
  rw [protocol_waiters]
  cases k.tlist (.mutex m) <;> rfl

@[simp] theorem protocol_mutexUpdatePriority : (k.mutexUpdatePriority m).protocol = k.protocol.refresh m := by
  rw [mutexUpdatePriority, Protocol.refresh, first_protocol, protocol_modMutex]

theorem protocol_moveWaiter : (k.moveWaiter t m).protocol = k.protocol.move t m := by
  have h := protocol_link (k := { k with tlist := Links.remove k.tlist t }) (t := t) (m := m)
  rw [moveWaiter, protocol_mutexUpdatePriority, Protocol.move, ← protocol_remove, ← h]

/-- The calls of `_thread_update_priority`. -/
theorem Raise.protocol {p : Nat} (hr : Raise k t p k') (h : k.SchedInv none) (hp : p < k.priorityMax) :
    Protocol.Raise k.protocol t p k'.protocol := by
  induction hr with
  | @stop k k1 t p hk1 hstop =>
    have e : k1.protocol = k.protocol.setPrio t p := hk1 ▸ h.protocol_changePriority t p
    have hparty : k1.protocol.party t = { k.protocol.party t with prio := p } := by
      rw [e]; simp [Protocol.setPrio]
    rw [e]
    refine .stop fun hs m hm => ?_
    have hm1 : k1.mutex = k.mutex := hk1 ▸ rtThreadControlChangePriority_mutex k t p
    rw [protocol_mutex, ← hm1]
    refine hstop (protocol_suspended.1 ?_) m ?_
    · rw [hparty]; exact hs
    · change (k1.protocol.party t).pending = _
      rw [hparty]; exact hm
  | @last k k1 k2 t o m p hk1 hs hm ha hk2 ho he =>
    have e : k1.protocol = k.protocol.setPrio t p := hk1 ▸ h.protocol_changePriority t p
    have hparty : k1.protocol.party t = { k.protocol.party t with prio := p } := by
      rw [e]; simp [Protocol.setPrio]
    have hm1 : k1.mutex = k.mutex := hk1 ▸ rtThreadControlChangePriority_mutex k t p
    have hs1 := protocol_suspended.2 hs
    have hp1 : (k1.protocol.party t).pending = some m := hm
    rw [hparty] at hs1 hp1
    exact .last hs1 hp1 (by rw [protocol_mutex, ← hm1]; exact ha) (by rw [hk2, protocol_moveWaiter, e]) ho he
  | @next k k1 k2 k' t o m p hk1 hs hm ha hk2 ho hne _ ih =>
    have e : k1.protocol = k.protocol.setPrio t p := hk1 ▸ h.protocol_changePriority t p
    have hparty : k1.protocol.party t = { k.protocol.party t with prio := p } := by
      rw [e]; simp [Protocol.setPrio]
    have hm1 : k1.mutex = k.mutex := hk1 ▸ rtThreadControlChangePriority_mutex k t p
    have hs1 := protocol_suspended.2 hs
    have hp1 : (k1.protocol.party t).pending = some m := hm
    rw [hparty] at hs1 hp1
    have h2 : k2.SchedInv none := hk2 ▸ (hk1 ▸ h.rtThreadControlChangePriority t hp : k1.SchedInv none).moveWaiter hs m
    refine .next hs1 hp1 (by rw [protocol_mutex, ← hm1]; exact ha)
      (by rw [hk2, protocol_moveWaiter, e]) ?_ ?_ (ih h2 (h2.threadGetMutexPriority_lt o))
    · exact ho
    · exact hne

/-- The call of `_thread_update_priority` if the mutexes of a thread give it another priority than it has. -/
theorem protocol_waiterLeft {fuel : Nat} (h : k.SchedInv none) (hk : waiterLeft fuel k m t = some k') :
    Protocol.Left k.protocol m t k'.protocol := by
  unfold waiterLeft at hk
  have h1 := h.mutexUpdatePriority m
  split at hk
  · cases hk
  · rename_i o ho
    dsimp only at hk
    split_ifs at hk with he hi
    · have hr := (Raise.of_threadUpdatePriority hk).protocol h1 (h1.threadGetMutexPriority_lt o)
      exact .raise ho he hi hr
    · cases hk
      exact .keep ho he (not_not.1 hi)
    · cases hk
      exact .skip ho he

end Kernel

end RtThread
