import RtThread.Mutex.Calm
import RtThread.Sched.Guarantees

/-!
# The kernel refines the mutex protocol

Every step of the kernel is one step of the protocol, with what is not about mutexes after it (`step_refines`). `From`
ties the step of the protocol to the event and to what the call returned. The one assumption is that a thread that suspends itself has no `pending_object` (`Fresh`).
-/

namespace RtThread

open Option (ite_none_right_eq_some ite_none_left_eq_some)

/-- A mutex function that returned `RT_EOK`. -/
def Ret.MutexOk : Ret → Prop
  | .mutexTake _ _ e | .mutexRelease _ _ e => e = .eok
  | _ => False

/-- The calls that suspend their caller for something else than a mutex, or leave it in a message queue function. -/
def Ev.isOtherWait : Ev → Bool
  | .suspend _ | .sleep _ | .semTake _ _ _ | .eventRecv _ _ _ _ _ | .mbSendWait _ _ _ _ | .mbRecv _ _ _
  | .mqSendWait _ _ _ _ | .mqUrgent _ _ _ | .mqRecv _ _ _ _ => true
  | _ => false

namespace Protocol

variable {s s' : Protocol} {t u : ThreadId} {m : MutexId} {p : Nat}

/-- The priority of a thread that is not suspended is changed, and no other one. -/
theorem Raise.of_not_suspended (hr : Raise s t p s') (hs : (s.party t).phase ≠ .suspended) : s' = s.setPrio t p := by
  cases hr with
  | stop _ => rfl
  | last h => exact absurd h hs
  | next h => exact absurd h hs

/-- Only priorities and ceilings are inherited. -/
theorem inherited_congr (hT : s'.taken = s.taken) (hi : (s'.party t).init = (s.party t).init)
    (hm : ∀ m, (s'.mutex m).priority = (s.mutex m).priority ∧
      (s'.mutex m).ceilingPriority = (s.mutex m).ceilingPriority) : s'.inherited t = s.inherited t := by
  unfold inherited
  rw [hT, hi]
  congr 1
  funext p m
  rw [(hm m).1, (hm m).2]

end Protocol

namespace Kernel

/-- The event, and the result of the call, that a step of the protocol comes from. -/
def From (k : Kernel) (ev : Ev) (r : Option Ret) : Protocol.Act → Prop
  | .other => ∀ x ∈ r, ¬x.MutexOk
  | .pop _ => ev = .cont ∧ r = none
  | .prio t => r = none ∧ ∃ p, ev = .changePriority t p
  | .acquire t m | .nest t m =>
    k.caller = some t ∧ r = some (.mutexTake t m .eok) ∧ ∃ timeout flag, ev = .mutexTake m timeout flag
  | .block t m => k.caller = some t ∧ r = none ∧ ∃ timeout flag, ev = .mutexTake m timeout flag
  | .unnest t m | .free t m | .grant t m _ =>
    k.caller = some t ∧ r = some (.mutexRelease t m .eok) ∧ ev = .mutexRelease m
  | .expire t _ => r = none ∧ ev = .timeout t
  | .wake t _ => r = none ∧ ev = .resume t
  | .finish t m => k.currentThread = some t ∧ r = some (.mutexTake t m .eok) ∧ ev = .cont
  | .abort t m => k.currentThread = some t ∧ (∃ e, e ≠ .eok ∧ r = some (.mutexTake t m e)) ∧ ev = .cont
  | .ceiling m => r = none ∧ ∃ p, ev = .mutexSetprioceiling m p
  | .close t => r = none ∧ (ev = .delete t ∨ ev = .exit ∧ k.self = some t)
  | .drop t _ => r = none ∧ ev = .delete t
  | .detach m => r = none ∧ ∃ freed, ev = .mutexDetach m freed

/-- A thread that may suspend itself has no `pending_object`. -/
def Fresh (all : Prop) (k : Kernel) : Ev → Prop
  | .suspend _ => ∀ t, k.self = some t → (k.thread t).pendingObject = none
  | .sleep _ | .semTake .. | .eventRecv .. | .mbSendWait .. | .mbRecv .. | .mqSendWait .. | .mqRecv .. =>
    all ∧ ∀ t, k.self = some t → (k.thread t).pendingObject = none
  | .mqUrgent .. => all
  | .cont => ∀ t f, k.currentThread = some t → (k.thread t).cont = [f] → f ≠ .schedule → f.taking = none →
      (k.thread t).stat = .running → (k.thread t).pendingObject = none
  | _ => True

variable {all : Prop} {k k' : Kernel} {t u : ThreadId} {m : MutexId}

/-- A step of the kernel is a step of the protocol, and what may follow it. -/
def Refines (all : Prop) (k : Kernel) (ev : Ev) (r : Option Ret) (k' : Kernel) : Prop :=
  ∃ a s, Protocol.Step (Frames all) k.protocol a s ∧ Protocol.Step (Frames all) s .other k'.protocol ∧ k.From ev r a

variable {ev : Ev} {r : Option Ret} {flag : SuspendFlag} {fuel : Nat} {f : Frame} {fs : List Frame} {i : IsrId}
  {c : Context} {J : List (Ev × Option Ret) → Protocol → Prop}

theorem Refines.single {a : Protocol.Act}
    (h : Protocol.Step (Frames all) k.protocol a k'.protocol) (hr : k.From ev r a) : Refines all k ev r k' :=
  ⟨a, _, h, other_of_eq rfl, hr⟩

theorem Refines.other (h : Protocol.Step (Frames all) k.protocol .other k'.protocol)
    (hr : ∀ x ∈ r, ¬x.MutexOk) : Refines all k ev r k' := .single h hr

theorem mqRecvRet_not_mutexOk (c : Context) (q : MqId) (e : MqRecvEnd) : ∀ x ∈ mqRecvRet c q e, ¬x.MutexOk := by
  cases e <;> simp [mqRecvRet, Ret.MutexOk]

/-! ## `rt_mutex_take` -/

theorem phase_ne_suspended (hs : k.suspended t = false) : (k.protocol.party t).phase ≠ .suspended := fun h => by
  simp [protocol_suspended.1 h] at hs

/-- The part of `_rt_mutex_take` after the thread is suspended and linked. -/
theorem protocol_blocked (h : k.SchedInv none) (hs : k.suspended t = false)
    (hr : (k.ipcListSuspend (.mutex m) t .prio flag).2 = .eok) : (k.protocol.party t).phase = .active ∧
      ((k.ipcListSuspend (.mutex m) t .prio flag).1.modThread t fun x => { x with pendingObject := some m }).protocol =
        (k.protocol.modParty t fun x => { x with phase := .suspended, pending := some m }).link t m := by
  unfold ipcListSuspend at hr ⊢
  simp only [hs, Bool.false_eq_true, if_false] at hr ⊢
  have hr1 : (k.rtThreadSuspendWithFlag t flag).2 = .eok := by
    by_contra hne
    rw [if_pos hne] at hr
    exact hne hr
  obtain ⟨ha, he⟩ := h.protocol_rtThreadSuspendWithFlag hr1
  refine ⟨ha, ?_⟩
  rw [if_neg (by simp [hr1])]
  rw [protocol_modThread (g := fun x => { x with pending := some m }) rfl, protocol_link, he]
  exact Protocol.modParty_link (f := fun x => { x with phase := .suspended })
    (g := fun x => { x with pending := some m }) (fun _ => rfl) fun _ => rfl

/-- What the call of a thread that does not block returns. -/
theorem MutexInv.rtMutexTake (I : k.MutexInv all) (hc : k.caller = some t) (ha : (k.mutex m).object = .attached)
    {timeout : BitVec 32} {r : Kernel × Option RtErr} (hk : Kernel.rtMutexTake fuel k t m timeout flag = some r) :
    Refines all k (.mutexTake m timeout flag) (r.2.map fun err => .mutexTake t m err) r.1 := by
  obtain ⟨-, hcont, hs⟩ := caller_eq_some.1 hc
  have hph := phase_ne_suspended hs
  have htak : (k.thread t).party.taking = none := Protocol.taking_of_cont_nil hcont
  have h0 := I.calm_setError htak .eok
  have hs0 : (k.setError t .eok).suspended t = false := by rw [suspended, setError, modThread_thread_self]; exact hs
  unfold Kernel.rtMutexTake at hk
  dsimp only at hk
  split at hk
  · rename_i ho
    split at hk
    · rename_i hh
      cases hk
      refine .single (a := .nest t m) ?_ ⟨hc, rfl, _, _, rfl⟩
      rw [protocol_modMutex, protocol_setError]
      exact .nest hph hcont ho hh
    · cases hk
      exact .other h0.step (by simp [Ret.MutexOk])
  · rename_i hno
    split at hk
    · -- The mutex has no owner.
      rename_i ho
      obtain ⟨k2, hk2, rfl⟩ := Option.map_eq_some_iff.1 hk
      refine .single (a := .acquire t m) ?_ ⟨hc, rfl, _, _, rfl⟩
      set k1 := (k.setError t .eok).modMutex m fun x => { x with owner := some t, priority := 0xff, hold := 1 } with hk1
      have h1 : k1.SchedInv none := (I.sched.setError t .eok).modMutex m _
      have hp1 : k1.protocol = (k.protocol.modParty t fun x => { x with error := .eok }).modMutex m
          fun x => { x with owner := some t, priority := 0xff, hold := 1 } := by
        rw [hk1, protocol_modMutex, protocol_setError]
      have hceil : (k1.mutex m).ceilingPriority = (k.mutex m).ceilingPriority := by simp [hk1, setError]
      have hprio : k1.prio t = k.prio t := by simp [hk1, setError, prio]
      have hph1 : (k1.protocol.party t).phase ≠ .suspended := by rw [hp1]; simpa using hph
      have hp2 : k2.protocol = if (k.mutex m).ceilingPriority ≠ 0xff ∧ (k.mutex m).ceilingPriority < k.prio t then
          k1.protocol.setPrio t (k.mutex m).ceilingPriority else k1.protocol := by
        rw [hceil, hprio] at hk2
        split at hk2
        · rename_i hlt
          rw [if_pos hlt]
          refine ((Raise.of_threadUpdatePriority hk2).protocol h1 ?_).of_not_suspended hph1
          exact hlt.2.trans (hprio ▸ h1.queues.prio_lt t)
        · rename_i hlt
          rw [if_neg hlt, Option.some.inj hk2]
      change Protocol.Step _ _ _ (k2.protocol.addTaken t m)
      rw [hp2]
      exact .acquire hph hcont ha ho hp1
    · rename_i o ho
      split at hk
      · cases hk
        have I0 := h0.inv I (I.sched.setError t .eok)
        exact .other (h0.trans (I0.calm_setError ((h0.taking t).trans htak) .etimeout)).step (by simp [Ret.MutexOk])
      · split at hk
        · -- The thread cannot be suspended.
          rename_i hne
          cases hk
          refine .other ?_ ?_
          · have e : ((k.setError t .eok).ipcListSuspend (.mutex m) t .prio flag).1 = k.setError t .eok := by
              unfold ipcListSuspend at hne ⊢
              simp only [hs0, Bool.false_eq_true, if_false] at hne ⊢
              rcases (I.sched.setError t .eok).rtThreadSuspendWithFlag t flag with ⟨he, e⟩ | ⟨he, -⟩
              · rw [if_pos he, e]
              · simp [he] at hne
            rw [e]
            exact h0.step
          · simpa [Ret.MutexOk] using hne
        · rename_i hok
          obtain ⟨k3, hk3, rfl⟩ := Option.map_eq_some_iff.1 hk
          obtain ⟨hact, hp1⟩ := protocol_blocked (I.sched.setError t .eok) hs0 (not_not.1 hok)
          have hsched := (I.sched.setError t .eok).ipcListSuspend (t := t) (d := .mutex m) rfl
            (fun hs' => by simp [hs0] at hs') .prio flag
          generalize (k.setError t .eok).ipcListSuspend (.mutex m) t .prio flag = r at hk3 hp1 hsched
          set k1 := r.1.modThread t fun x => { x with pendingObject := some m }
          have h1 : k1.SchedInv none := hsched.modThread_congr rfl
          have hp2 : k1.protocol = (k.protocol.modParty t fun x =>
              { x with error := .eok, phase := .suspended, pending := some m }).link t m := by
            rw [hp1, protocol_setError, Protocol.modParty_modParty]
          have hpriority : (k1.mutex m).priority = (k.mutex m).priority :=
            congrArg (fun s : Protocol => (s.mutex m).priority) hp2
          have hprio : k1.prio o = k.prio o :=
            (congrArg (fun s : Protocol => (s.party o).prio) hp2).trans
              (Protocol.modParty_part (s := k.protocol) (t := t)
                (f := fun x => { x with error := .eok, phase := .suspended, pending := some m }) Party.prio rfl o)
          have hprio2 (g : Mutex → Mutex) : (k1.modMutex m g).prio o = k.prio o := hprio
          have hprio0 : (k.setError t .eok).prio t = k.prio t := modThread_part Thread.currentPriority rfl t
          rw [hpriority, hprio0] at hk3
          have hact0 : (k.protocol.party t).phase = .active := by rw [protocol_setError] at hact; simpa using hact
          have hot : o ≠ t := fun e => hno (by rw [← e]; exact ho)
          have hP : Frames all (.mutexTake m) := .inr ⟨m, rfl⟩
          refine .single (a := .block t m) ?_ ⟨hc, rfl, _, _, rfl⟩
          have hstep : Protocol.Step (Frames all) k.protocol (.block t m)
              (k3.protocol.modParty t fun x => { x with cont := [.schedule, .mutexTake m] }) := by
            refine .block hact0 hcont ha ho hot hp2 rfl ?_ hP
            by_cases hlt : k.prio t < (k.mutex m).priority
            · have h2 := h1.modMutex m fun x => { x with priority := k.prio t }
              have hlt1 : (k.protocol.party t).prio < (k.protocol.mutex m).priority := hlt
              rw [if_pos hlt] at hk3
              rw [if_pos hlt1]
              by_cases hlt' : k.prio t < k.prio o
              · rw [hprio2, if_pos hlt'] at hk3
                rw [if_pos ⟨hlt, hlt'⟩]
                exact (Raise.of_threadUpdatePriority hk3).protocol h2
                  ((hlt'.trans_eq hprio.symm).trans (h1.queues.prio_lt o))
              · rw [hprio2, if_neg hlt'] at hk3
                rw [if_neg fun h => hlt' h.2, ← Option.some.inj hk3]
                rfl
            · have hlt1 : ¬(k.protocol.party t).prio < (k.protocol.mutex m).priority := hlt
              rw [if_neg hlt] at hk3
              rw [if_neg hlt1, if_neg fun h => hlt h.1, Option.some.inj hk3]
          have htimer : (if 0 < timeout.toInt then k3.threadTimerStart t else k3).protocol = k3.protocol := by
            split
            · exact protocol_threadTimerStart
            · rfl
          rw [protocol_setCont, htimer]
          exact hstep

/-- What is left of `_rt_mutex_take` after `rt_schedule`, for the running thread. -/
theorem MutexInv.rtMutexTakeWake (I : k.MutexInv all) (hcur : k.currentThread = some t)
    (hs : (k.thread t).stat = .running) (hcont : (k.thread t).cont = [.mutexTake m])
    {r : Kernel × RtErr} (hk : Kernel.rtMutexTakeWake fuel (k.setCont t []) t m = some r) :
    Refines all k .cont (some (.mutexTake t m r.2)) r.1 := by
  have hact : (k.protocol.party t).phase = .active := by
    change (k.thread t).stat.phase = _
    rw [hs]; rfl
  have herr : ((k.setCont t []).thread t).error = (k.thread t).error := modThread_part Thread.error rfl t
  unfold Kernel.rtMutexTakeWake at hk
  rw [herr] at hk
  split at hk
  · rename_i he
    cases hk
    refine .single (a := .finish t m) ?_ ⟨hcur, rfl, rfl⟩
    rw [protocol_setCont]
    exact .finish hact hcont he
  · rename_i he
    obtain ⟨-, hk⟩ := ite_none_left_eq_some.1 hk
    obtain ⟨k1, hk1, rfl⟩ := Option.map_eq_some_iff.1 hk
    have hl := protocol_waiterLeft (I.sched.setCont t []) hk1
    rw [protocol_setCont] at hl
    have hstep : Protocol.Step (Frames all) k.protocol (.abort t m) k1.protocol := .abort hact hcont he hl
    refine .single hstep ⟨hcur, ⟨_, ?_, rfl⟩, rfl⟩
    have hns : (k.protocol.party t).phase ≠ .suspended := by rw [hact]; decide
    have hbase := I.base.modParty_active (t := t) (f := fun x => { x with cont := [] }) hns hns (.inl rfl)
    have hsame := (hl.same hbase.toLinked).error t
    rw [Protocol.modParty_party_self] at hsame
    change (k1.protocol.party t).error ≠ _
    rw [hsame]
    exact he

/-! ## `rt_mutex_release` -/

/-- The change of priority of the releasing thread. -/
theorem SchedInv.protocol_releasePrio (h : k.SchedInv none) (t : ThreadId) (m : MutexId) :
    (if decide ((k.mutex m).ceilingPriority ≠ 0xff ∨ k.prio t = (k.mutex m).priority) = true then
      k.rtThreadControlChangePriority t (k.threadGetMutexPriority t) else k).protocol = k.protocol.releasePrio t m := by
  change _ = if (k.mutex m).ceilingPriority ≠ 0xff ∨ k.prio t = (k.mutex m).priority then
    k.protocol.setPrio t (k.threadGetMutexPriority t) else k.protocol
  split
  · rename_i hc
    rw [if_pos (of_decide_eq_true hc), h.protocol_changePriority]
  · rename_i hc
    rw [if_neg fun hc' => hc (decide_eq_true hc')]

@[simp] theorem releasePrio_waiters (s : Protocol) (t : ThreadId) (m : MutexId) :
    (s.releasePrio t m).waiters = s.waiters := by
  unfold Protocol.releasePrio
  split <;> rfl

/-- The last release does not read the hold count. -/
theorem releasePrio_hold {s : Protocol} (n : Nat) :
    ((s.modMutex m fun x => { x with hold := n }).releasePrio t m) =
      (s.releasePrio t m).modMutex m fun x => { x with hold := n } := by
  have hi : (s.modMutex m fun x => { x with hold := n }).inherited t = s.inherited t :=
    Protocol.inherited_congr rfl rfl fun m' =>
      ⟨Protocol.modMutex_part Mutex.priority rfl m', Protocol.modMutex_part Mutex.ceilingPriority rfl m'⟩
  unfold Protocol.releasePrio
  rw [hi, Protocol.modMutex_mutex_self]
  by_cases hc : (s.mutex m).ceilingPriority ≠ 0xff ∨ (s.party t).prio = (s.mutex m).priority
  · rw [if_pos hc]; exact if_pos hc
  · rw [if_neg hc]; exact if_neg hc

theorem protocol_mutexHandOver {n : ThreadId} (hs : k.suspended n) :
    (k.mutexHandOver m n).protocol =
      ((((k.protocol.unlink n).addTaken n m).modMutex m fun x => { x with owner := some n, hold := 1 }).modParty n
        fun x => { x with pending := none, phase := .active }).refresh m := by
  unfold mutexHandOver
  rw [protocol_mutexUpdatePriority]
  congr 1
  rw [protocol_rtThreadResume (by simpa [suspended] using hs),
    protocol_modThread (g := fun x => { x with pending := none }) rfl]
  have hun : (k.protocol.unlink n).unlink n = k.protocol.unlink n := by
    have : Links.remove (Links.remove k.protocol.waiters n) n = Links.remove k.protocol.waiters n :=
      Links.remove_of_free (Links.free_remove _ _)
    simp [Protocol.unlink, this]
  change (((((k.protocol.unlink n).unlink n).addTaken n m).modMutex m fun x =>
    { x with owner := some n, hold := 1 }).modParty n fun x => { x with pending := none }).modParty n
      (fun x => { x with phase := .active }) = _
  rw [hun, Protocol.modParty_modParty]

theorem mutexHandOver_calls (k : Kernel) (m : MutexId) (n : ThreadId) :
    (∀ u, ((k.mutexHandOver m n).thread u).cont = (k.thread u).cont) ∧
      (k.mutexHandOver m n).currentThread = k.currentThread := by
  unfold mutexHandOver mutexUpdatePriority
  refine ⟨fun u => ?_, ?_⟩
  · rw [modMutex_thread, (rtThreadResume_calls _ n).1, modThread_part Thread.cont rfl]
    rfl
  · rw [modMutex_currentThread, (rtThreadResume_calls _ n).2]
    rfl

/-- The last release returns from no call, and leaves the current thread. -/
theorem SchedInv.mutexReleaseLast_calls (h : k.SchedInv none) (t : ThreadId) (m : MutexId) :
    (∀ u, ((k.mutexReleaseLast t m).1.thread u).cont = (k.thread u).cont) ∧
      (k.mutexReleaseLast t m).1.currentThread = k.currentThread := by
  have change (k : Kernel) (h : k.SchedInv none) (p : Prop) [Decidable p] (q : Nat) :
      (∀ u, ((if p then k.rtThreadControlChangePriority t q else k).thread u).cont = (k.thread u).cont) ∧
        (if p then k.rtThreadControlChangePriority t q else k).currentThread = k.currentThread := by
    split
    · refine ⟨fun u => ?_, rtThreadControlChangePriority_currentThread ..⟩
      exact (congrArg (fun s : Protocol => (s.party u).cont) (h.protocol_changePriority t q)).trans
        (Protocol.modParty_part (f := fun x => { x with prio := q }) Party.cont rfl u)
    · exact ⟨fun _ => rfl, rfl⟩
  set k1 : Kernel := { k with takenObjectList := Links.remove k.takenObjectList m } with hk1
  obtain ⟨hc, hcur⟩ := change k1 (h.setTaken _)
    (decide ((k1.mutex m).ceilingPriority ≠ 0xff ∨ k1.prio t = (k1.mutex m).priority) = true)
    (k1.threadGetMutexPriority t)
  unfold Kernel.mutexReleaseLast
  dsimp only
  split
  · exact ⟨fun u => ((mutexHandOver_calls _ m _).1 u).trans (hc u), (mutexHandOver_calls _ m _).2.trans hcur⟩
  · exact ⟨hc, hcur⟩

theorem MutexInv.mutexReleaseLast (I : k.MutexInv all) (hc : k.caller = some t)
    (ha : (k.mutex m).object = .attached) (ho : (k.mutex m).owner = some t) (hh : (k.mutex m).hold = 1) :
    ∃ a, Protocol.Step (Frames all) k.protocol a
        ((k.modMutex m fun x => { x with hold := 0 }).mutexReleaseLast t m).1.protocol ∧
      (a = .free t m ∨ ∃ n, a = .grant t m n) := by
  obtain ⟨-, hcont, hs⟩ := caller_eq_some.1 hc
  have hph := phase_ne_suspended hs
  have htak : (k.protocol.party t).taking = none := Protocol.taking_of_cont_nil hcont
  set k1 : Kernel := { k.modMutex m fun x => { x with hold := 0 } with
    takenObjectList := Links.remove k.takenObjectList m } with hk1
  have h1 : k1.SchedInv none := (I.sched.modMutex m fun x => { x with hold := 0 }).setTaken _
  have hp1 : k1.protocol = (k.protocol.dropTaken m).modMutex m fun x => { x with hold := 0 } := rfl
  have hp2 := h1.protocol_releasePrio t m
  rw [hp1, releasePrio_hold] at hp2
  set k2 := if decide ((k1.mutex m).ceilingPriority ≠ 0xff ∨ k1.prio t = (k1.mutex m).priority) = true then
    k1.rtThreadControlChangePriority t (k1.threadGetMutexPriority t) else k1 with hk2
  have hw2 : k2.tlist (.mutex m) = k.tlist (.mutex m) := by
    have hw := congrArg (fun s : Protocol => s.waiters m) hp2
    simpa using hw
  rw [Kernel.mutexReleaseLast]
  dsimp only
  split
  next n ns hw =>
    have hw : k2.tlist (.mutex m) = n :: ns := hw
    refine ⟨_, ?_, .inr ⟨n, rfl⟩⟩
    change Protocol.Step _ _ _ (k2.mutexHandOver m n).protocol
    have hstep : Protocol.Step (Frames all) k.protocol (.grant t m n) _ :=
      .grant hph htak ha ho hh (hw2.symm.trans hw) rfl
    have hn : k2.suspended n := by
      have h2 : k2.SchedInv none := by
        rw [hk2]
        split
        · exact h1.rtThreadControlChangePriority t (h1.threadGetMutexPriority_lt t)
        · exact h1
      exact h2.queues.wait n (.mutex m) (by simp) rfl (by simp [hw])
    convert hstep using 1
    rw [protocol_mutexHandOver hn, hp2]
    congr 2
    simp [Protocol.modMutex, Protocol.unlink, Protocol.addTaken]
  next hw =>
    have hw : k2.tlist (.mutex m) = [] := hw
    refine ⟨_, ?_, .inl rfl⟩
    change Protocol.Step _ _ _ (k2.modMutex m fun x => { x with owner := none, priority := 0xff }).protocol
    have hstep : Protocol.Step (Frames all) k.protocol (.free t m) _ :=
      .free hph htak ha ho hh (hw2.symm.trans hw)
    convert hstep using 1
    rw [protocol_modMutex, hp2]
    simp [Protocol.modMutex]

theorem MutexInv.rtMutexRelease (I : k.MutexInv all) (hc : k.caller = some t) (ha : (k.mutex m).object = .attached) :
    Refines all k (.mutexRelease m) (some (.mutexRelease t m (k.rtMutexRelease t m).2.1))
      ((k.rtMutexRelease t m).1.needSchedule false (k.rtMutexRelease t m).2.2) := by
  obtain ⟨hcur, hcont, -⟩ := caller_eq_some.1 hc
  have htak : (k.protocol.party t).taking = none := Protocol.taking_of_cont_nil hcont
  by_cases ho : (k.mutex m).owner = some t
  · obtain ⟨hpos, hle⟩ := I.base.hold_pos ho
    rw [protocol_mutex] at hpos hle
    by_cases hh : (k.mutex m).hold = 1
    · have hzero : (k.modMutex m fun x => { x with hold := (x.hold + 255) % 256 }) =
          k.modMutex m fun x => { x with hold := 0 } := by simp [modMutex, hh]
      have e : k.rtMutexRelease t m =
          (((k.modMutex m fun x => { x with hold := 0 }).mutexReleaseLast t m).1, .eok,
            ((k.modMutex m fun x => { x with hold := 0 }).mutexReleaseLast t m).2) := by
        simp [Kernel.rtMutexRelease, ho, hzero]
      obtain ⟨a, hstep, hform⟩ := I.mutexReleaseLast hc ha ho hh
      rw [e]
      refine ⟨a, _, hstep, ?_, ?_⟩
      · have hsched := (I.sched.modMutex m fun x => { x with hold := 0 }).mutexReleaseLast t m
        have hI : MutexInv all ((k.modMutex m fun x => { x with hold := 0 }).mutexReleaseLast t m).1 :=
          ⟨hsched, hstep.base I.base⟩
        have hcalls := (I.sched.modMutex m fun x => { x with hold := 0 }).mutexReleaseLast_calls t m
        refine hI.other_needSchedule fun _ u hu => ?_
        rw [hcalls.2, modMutex_currentThread, hcur] at hu
        rw [hcalls.1, modMutex_thread, ← Option.some.inj hu]
        exact hcont
      · rcases hform with rfl | ⟨n, rfl⟩ <;> exact ⟨hc, rfl, rfl⟩
    · have h2 : 2 ≤ (k.mutex m).hold := by omega
      have hmod : ((k.mutex m).hold + 255) % 256 = (k.mutex m).hold - 1 := by omega
      have e : k.rtMutexRelease t m = (k.modMutex m fun x => { x with hold := x.hold - 1 }, .eok, false) := by
        have hne : (k.mutex m).hold - 1 ≠ 0 := by omega
        simp [Kernel.rtMutexRelease, ho, modMutex, hmod, hne]
      rw [e]
      exact .single (.unnest ho h2 htak) ⟨hc, rfl, rfl⟩
  · have e : k.rtMutexRelease t m = (k.setError t .error, .error, false) := by simp [Kernel.rtMutexRelease, ho]
    rw [e]
    exact .other (I.calm_setError htak .error).step (by simp [Ret.MutexOk])

/-! ## Ceilings, and detaching a mutex -/

theorem MutexInv.rtMutexSetprioceiling (I : k.MutexInv all) {p : Nat} {r : Kernel × Nat}
    (hk : Kernel.rtMutexSetprioceiling fuel k m p = some r) : Refines all k (.mutexSetprioceiling m p) none r.1 := by
  unfold Kernel.rtMutexSetprioceiling at hk
  split at hk
  · have h1 := I.sched.modMutex m fun x => { x with ceilingPriority := p }
    refine .single (a := .ceiling m) ?_ ⟨rfl, p, rfl⟩
    have hp1 : (k.modMutex m fun x => { x with ceilingPriority := p }).protocol =
      k.protocol.modMutex m fun x => { x with ceilingPriority := p } := rfl
    have hown : ((k.modMutex m fun x => { x with ceilingPriority := p }).mutex m).owner = (k.mutex m).owner := by simp
    dsimp only at hk
    rw [hown] at hk
    generalize k.modMutex m (fun x => { x with ceilingPriority := p }) = k1 at hk h1 hp1
    split at hk
    · rename_i ho
      cases hk
      exact .ceiling p hp1 (.inl ⟨rfl, fun o ho' => by rw [protocol_mutex, ho] at ho'; cases ho'⟩)
    · rename_i o ho
      split at hk
      · obtain ⟨k2, hk2, rfl⟩ := Option.map_eq_some_iff.1 hk
        exact .ceiling p hp1 (.inr ⟨o, ho,
          (Raise.of_threadUpdatePriority hk2).protocol h1 (h1.threadGetMutexPriority_lt o)⟩)
      · rename_i he
        cases hk
        refine .ceiling p hp1 (.inl ⟨rfl, fun o' ho' => ?_⟩)
        cases ho.symm.trans ho'
        refine (not_not.1 he).trans ?_
        exact congrArg (fun s : Protocol => (s.party o).prio) hp1
  · cases hk
    exact .other (other_of_eq rfl) (by simp)

/-- Resuming the threads of a list, one after the other. -/
theorem protocol_resumeAll (ts : List ThreadId) (hts : ts.Nodup) (hs : ∀ t ∈ ts, k.suspended t) :
    (ts.foldl (fun k t => ((k.setError t .error).rtThreadResume t).1) k).protocol =
      { k.protocol with
        waiters := fun m => (k.tlist (.mutex m)).filter (· ∉ ts)
        party := fun t => if t ∈ ts then { k.protocol.party t with phase := .active, error := .error }
          else k.protocol.party t } := by
  induction ts generalizing k with
  | nil => simp [protocol]
  | cons t ts ih =>
    obtain ⟨hmem, hts⟩ := List.nodup_cons.1 hts
    have hst : (k.setError t .error).suspended t := by
      rw [suspended, setError, modThread_thread_self]; exact hs t (by simp)
    have hp1 := protocol_rtThreadResume hst
    rw [protocol_setError] at hp1
    rw [List.foldl_cons]
    generalize ((k.setError t .error).rtThreadResume t).1 = k1 at hp1
    have hp2 : k1.protocol = (k.protocol.unlink t).modParty t fun x => { x with phase := .active, error := .error } := by
      rw [hp1]
      exact Protocol.modParty_modParty (s := k.protocol.unlink t) (fun x => { x with error := .error })
        fun x => { x with phase := .active }
    have hparty (u : ThreadId) (hu : u ≠ t) : k1.protocol.party u = k.protocol.party u := by
      rw [hp2, Protocol.modParty_party_of_ne hu]; rfl
    rw [ih hts fun u hu => ?_]
    · have hw (m : MutexId) : k1.tlist (.mutex m) = (k.tlist (.mutex m)).filter (· ≠ t) :=
        congrArg (fun s : Protocol => s.waiters m) hp2
      have h1 : (fun m => (k1.tlist (.mutex m)).filter (· ∉ ts)) =
          fun m => (k.tlist (.mutex m)).filter (· ∉ t :: ts) := by
        funext m
        rw [hw, List.filter_filter]
        refine List.filter_congr fun u _ => ?_
        by_cases e : u = t <;> simp [e]
      have h2 : (fun u => if u ∈ ts then { k1.protocol.party u with phase := .active, error := .error }
          else k1.protocol.party u) =
          fun u => if u ∈ t :: ts then { k.protocol.party u with phase := .active, error := .error }
            else k.protocol.party u := by
        funext u
        by_cases e : u = t
        · subst e
          rw [if_neg hmem, if_pos (by simp), hp2, Protocol.modParty_party_self]
          rfl
        · rw [hparty u e]
          simp [e]
      rw [h1, h2, hp2]
      rfl
    · have hu' : u ≠ t := fun e => hmem (e ▸ hu)
      have := hparty u hu'
      have hsu := protocol_suspended.2 (hs u (List.mem_cons_of_mem _ hu))
      rw [← this] at hsu
      exact protocol_suspended.1 hsu

theorem MutexInv.rtMutexDetach (I : k.MutexInv all) (ha : (k.mutex m).object = .attached) (freed : Bool) :
    Refines all k (.mutexDetach m freed) none (k.rtMutexDetach m (if freed then .freed else .detached)) := by
  have hall := protocol_resumeAll (k := k) (k.tlist (.mutex m)) (I.sched.queues.wf.nodup _) fun t ht =>
    I.sched.queues.wait t (.mutex m) (by simp) rfl ht
  have hw : (fun m' => (k.tlist (.mutex m')).filter (· ∉ k.tlist (.mutex m))) =
      Function.update k.protocol.waiters m [] := by
    funext m'
    by_cases e : m' = m
    · subst e
      rw [Function.update_self]
      exact List.filter_eq_nil_iff.2 fun u hu => by simp [hu]
    · rw [Function.update_of_ne e]
      refine List.filter_eq_self.2 fun u hu => ?_
      have hne : u ∉ k.tlist (.mutex m) := fun hu' => e (I.base.toLinked.mutex_eq hu hu')
      simpa using hne
  rw [hw] at hall
  have hstep : Protocol.Step (Frames all) k.protocol (.detach m)
      (k.rtMutexDetach m (if freed then .freed else .detached)).protocol := by
    have h := Protocol.Step.detach (P := Frames all) (s := k.protocol) (m := m)
      (if freed then .freed else .detached) (by split <;> simp) ha
    convert h using 1
    change ((k.ipcListResumeAll (.mutex m)).protocol.dropTaken m).modMutex m
      (fun x => { x with object := if freed then .freed else .detached }) = _
    rw [ipcListResumeAll, hall]
    rfl
  exact .single hstep ⟨rfl, freed, rfl⟩

/-! ## The end of a thread -/

theorem SchedInv.protocol_threadClose (h : k.SchedInv none) :
    (k.threadClose t).protocol = (k.protocol.unlink t).modParty t fun x => { x with phase := .closed } := by
  unfold Kernel.threadClose
  rw [protocol_modThread (g := fun x => { x with phase := .closed }) rfl, protocol_threadTimerStop]
  split
  · rw [protocol_rtScheduleRemoveThread]
  · rename_i hi
    rw [h.protocol_unlink (suspended_of_stat (not_not.1 hi) rfl)]

theorem protocol_defunctEnqueue : (k.rtThreadDefunctEnqueue t).protocol = k.protocol := protocol_insertAfter (by simp)

theorem MutexInv.rtThreadDelete (I : k.MutexInv all) (hk : Kernel.rtThreadDelete fuel k t = some k') :
    Refines all k (.delete t) none k' := by
  unfold Kernel.rtThreadDelete at hk
  split at hk
  · cases hk
    exact .other (other_of_eq rfl) (by simp)
  · rename_i hnc
    obtain ⟨k1, hk1, rfl⟩ := Option.map_eq_some_iff.1 hk
    have hlive : (k.protocol.party t).phase ≠ .closed := fun hp => hnc (protocol_closed.1 hp)
    have hp1 := I.sched.protocol_threadClose (t := t)
    have h1 := I.sched.threadClose hnc
    have hs1 := SchedInv.threadClose_stat k t
    have hm1 := I.sched.threadClose_masked (t := t)
    have hpend : ((k.threadClose t).thread t).pendingObject = (k.thread t).pendingObject :=
      (congrArg (fun s : Protocol => (s.party t).pending) hp1).trans
        (Protocol.modParty_part (s := k.protocol.unlink t) (f := fun x => { x with phase := .closed }) Party.pending rfl t)
    have hmut : (k.threadClose t).mutex = k.mutex := congrArg Protocol.mutex hp1
    have hclose (hno : ∀ m, (k.thread t).pendingObject = some m → (k.mutex m).object ≠ .attached) :
        Refines all k (.delete t) none ((k.threadClose t).rtThreadDefunctEnqueue t) := by
      refine .single (a := .close t) ?_ ⟨rfl, .inl rfl⟩
      rw [protocol_defunctEnqueue, hp1]
      exact .close hlive fun m hm ha => absurd ha (hno m hm)
    unfold dropPendingObject at hk1
    rw [hpend, hmut] at hk1
    split at hk1
    · rename_i hn
      cases hk1
      exact hclose fun m hm => by rw [hn] at hm; cases hm
    · rename_i m hm
      split at hk1
      · cases hk1
      · rename_i hd
        cases hk1
        refine hclose fun m' hm' => ?_
        cases hm.symm.trans hm'
        rw [hd]; simp
      · rename_i ha
        obtain ⟨k2, hk2, rfl⟩ := Option.map_eq_some_iff.1 hk1
        have h0 := ((h1.of_closed hs1 hm1).unlink (t := t) (by simp [hs1])).of_closed hs1 hm1
        have hl := protocol_waiterLeft h0 hk2
        have hfree : ((k.threadClose t).protocol.unlink t) = (k.threadClose t).protocol :=
          (h1.of_closed hs1 hm1).protocol_unlink (suspended_of_stat hs1 rfl)
        rw [protocol_remove, hfree, hp1] at hl
        refine .single (a := .drop t m) ?_ ⟨rfl, rfl⟩
        rw [protocol_defunctEnqueue, protocol_modThread (g := fun x => { x with pending := none }) rfl]
        exact .drop hlive hm ha hl

theorem MutexInv.threadExit (I : k.MutexInv all) (hself : k.self = some t) :
    Refines all k .exit none ((k.threadExit t).callSchedule false) := by
  obtain ⟨hcur, hcont⟩ := self_eq_some.1 hself
  have htak : (k.protocol.party t).taking = none := Protocol.taking_of_cont_nil hcont
  have hp1 : (k.threadExit t).protocol = (k.protocol.unlink t).modParty t fun x => { x with phase := .closed } := by
    unfold Kernel.threadExit
    rw [protocol_defunctEnqueue, protocol_modThread (g := fun x => { x with phase := .closed }) rfl,
      protocol_threadTimerStop, protocol_rtScheduleRemoveThread]
  have hsched := I.sched.threadExit (I.sched.current t (by simp) hcur).2.2
  have hfin (hb : Protocol.Base (Frames all) (k.threadExit t).protocol) :
      Protocol.Step (Frames all) (k.threadExit t).protocol .other ((k.threadExit t).callSchedule false).protocol := by
    refine MutexInv.other_callSchedule ⟨hsched, hb⟩ fun _ u hu => ?_
    have hu' : k.currentThread = some u := by
      simpa [Kernel.threadExit, Kernel.threadTimerStop, rtThreadDefunctEnqueue] using hu
    cases hcur.symm.trans hu'
    have := congrArg (fun s : Protocol => (s.party t).cont) hp1
    exact this.trans ((congrArg Party.cont (Protocol.modParty_party_self ..)).trans hcont)
  by_cases hc : (k.protocol.party t).phase = .closed
  · have hun : k.protocol.unlink t = k.protocol := by
      refine Protocol.unlink_of_notMem fun m hm => ?_
      have := (I.base.waiting hm).1
      rw [hc] at this; cases this
    have h1 : Protocol.Step (Frames all) k.protocol .other (k.threadExit t).protocol := by
      rw [hp1, hun]
      exact other_modParty ⟨htak, htak, I.base.shape t, iff_of_true rfl hc, by simp, rfl, rfl, rfl⟩
    exact ⟨.other, _, h1, hfin (h1.base I.base), by simp [From]⟩
  · have h1 : Protocol.Step (Frames all) k.protocol (.close t) (k.threadExit t).protocol := by
      rw [hp1]
      refine .close hc fun m hm _ => ⟨?_, hcont⟩
      have hns : (k.protocol.party t).phase ≠ .suspended := fun hs => by
        rw [(I.base.taking (I.base.linked hs hm)).1] at htak; cases htak
      cases hph : (k.protocol.party t).phase with
      | active => rfl
      | suspended => exact absurd hph hns
      | closed => exact absurd hph hc
    exact ⟨.close t, _, h1, hfin (h1.base I.base), rfl, .inr ⟨rfl, hself⟩⟩

/-! ## Waking a waiter -/

theorem MutexInv.rtThreadResume (I : k.MutexInv all) (t : ThreadId) :
    Refines all k (.resume t) none (k.rtThreadResume t).1 := by
  by_cases hn : ∀ m, t ∉ k.tlist (.mutex m)
  · exact .other (I.calm_rtThreadResume hn).step (by simp)
  · obtain ⟨m, hm⟩ := not_forall_not.1 hn
    refine .single (a := .wake t m) ?_ ⟨rfl, rfl⟩
    rw [protocol_rtThreadResume (I.sched.queues.wait t (.mutex m) (by simp) rfl hm)]
    exact .wake hm

theorem MutexInv.threadTimeout (I : k.MutexInv all) (hk : (k.threadTimerStop t).threadTimeout t = some k') :
    Refines all k (.timeout t) none k'.rtSchedule := by
  have h1 := I.sched.threadTimerStop t
  have hp1 : (k.threadTimerStop t).protocol = k.protocol := protocol_threadTimerStop
  have hs' := h1.threadTimeout hk
  unfold Kernel.threadTimeout at hk
  obtain ⟨hs, hk⟩ := ite_none_right_eq_some.1 hk
  have hs0 : k.suspended t := by
    have := protocol_suspended.2 hs
    rw [hp1] at this
    exact protocol_suspended.1 this
  have hp2 : k'.rtSchedule.protocol =
      (k.protocol.unlink t).modParty t fun x => { x with phase := .active, error := .etimeout } := by
    rw [hs'.protocol_rtSchedule]
    cases hk
    rw [protocol_rtScheduleInsertThread, protocol_remove, protocol_setError, hp1]
    exact Protocol.modParty_modParty (s := k.protocol.unlink t) (fun x => { x with error := .etimeout })
      fun x => { x with phase := .active }
  by_cases hn : ∀ m, t ∉ k.tlist (.mutex m)
  · refine .other ?_ (by simp)
    rw [hp2, Protocol.unlink_of_notMem hn]
    have ht := I.taking_none hs0 hn
    refine other_modParty ⟨ht, ht, I.base.shape t, ?_, by simp, rfl, rfl, rfl⟩
    rw [protocol_suspended.2 hs0]; simp
  · obtain ⟨m, hm⟩ := not_forall_not.1 hn
    refine .single (a := .expire t m) ?_ ⟨rfl, rfl⟩
    rw [hp2]
    exact .expire .etimeout (by simp) hm

/-! ## Frames -/

/-- The current thread runs the next of its frames. -/
theorem MutexInv.runFrame (I : k.MutexInv all) (hcur : k.currentThread = some t)
    (hcont : (k.thread t).cont = f :: fs) (hs : f = .schedule ∨ (k.thread t).stat = .running)
    (hfresh : Fresh all k .cont) {r : Kernel × Option Ret} (hk : Kernel.runFrame fuel k t fs f = some r) :
    Refines all k .cont r.2 r.1 := by
  have hshape := I.base.shape t
  change Protocol.Shape _ (k.thread t).cont at hshape
  rw [hcont] at hshape
  by_cases hf : f = .schedule
  · subst hf
    cases hk
    have hp : ((k.setCont t fs).rtSchedule).protocol = k.protocol.modParty t fun x => { x with cont := fs } := by
      rw [(I.sched.setCont t fs).protocol_rtSchedule, protocol_setCont]
    rcases hshape with h | h | ⟨g, hg, hP, h | h⟩
    · cases h
    · obtain rfl := (List.cons.inj h).2
      refine .other ?_ (by simp)
      rw [hp]
      exact other_cont (by rw [Party.taking, Thread.party, hcont]; rfl) (.inl rfl) rfl
    · exact absurd (List.cons.inj h).1.symm hg
    · obtain rfl := (List.cons.inj h).2
      cases ht : g.taking with
      | none =>
        refine .other ?_ (by simp)
        rw [hp]
        have hnone : [Frame.schedule, g].findSome? Frame.taking = none := by
          simp only [List.findSome?_cons, ht]; rfl
        exact other_cont (by rw [Party.taking, Thread.party, hcont]; exact hnone)
          (.inr (.inr ⟨g, hg, hP, .inl rfl⟩)) (by simp only [List.findSome?_cons, ht]; rfl)
      | some m =>
        obtain rfl : g = .mutexTake m := by cases g <;> simp_all [Frame.taking]
        refine .single (a := .pop t) ?_ ⟨rfl, rfl⟩
        rw [hp]
        exact .pop hcont
  · have hrun := hs.resolve_left hf
    obtain ⟨rfl, hP⟩ : fs = [] ∧ Frames all f := by
      rcases hshape with h | h | ⟨g, -, hP, h | h⟩
      · cases h
      · exact absurd (List.cons.inj h).1 hf
      · obtain ⟨rfl, rfl⟩ := List.cons.inj h
        exact ⟨rfl, hP⟩
      · exact absurd (List.cons.inj h).1 hf
    have hns : (k.setCont t []).suspended t = false := by
      rw [suspended, setCont, modThread_thread_self, hrun]; rfl
    cases htf : f.taking with
    | some m =>
      obtain rfl : f = .mutexTake m := by cases f <;> simp_all [Frame.taking]
      obtain ⟨r1, hk1, rfl⟩ := Option.map_eq_some_iff.1 hk
      exact I.rtMutexTakeWake hcur hrun hcont hk1
    | none =>
      have hpend := hfresh t f hcur hcont hf htf hrun
      have htak : (k.thread t).party.taking = none := by
        rw [Party.taking, Thread.party, hcont]
        simp only [List.findSome?_cons, htf]; rfl
      have h0 : Protocol.Step (Frames all) k.protocol .other (k.setCont t []).protocol := by
        rw [protocol_setCont]
        exact other_cont htak (.inl rfl) rfl
      have I0 : (k.setCont t []).MutexInv all := ⟨I.sched.setCont t [], h0.base I.base⟩
      have hcont0 : ((k.setCont t []).thread t).cont = [] := by rw [setCont, modThread_thread_self]
      have htak0 : ((k.setCont t []).thread t).party.taking = none := Protocol.taking_of_cont_nil hcont0
      have hpend0 : ((k.setCont t []).thread t).pendingObject = none := by
        rw [setCont, modThread_thread_self]; exact hpend
      have hcalls (u : ThreadId) (hu : (k.setCont t []).currentThread = some u) :
          ((k.setCont t []).thread u).cont = [] := by
        cases hcur.symm.trans hu
        exact hcont0
      cases f with
      | schedule => exact absurd rfl hf
      | mutexTake m => cases htf
      | semTake s => obtain rfl := Option.some.inj hk; exact .other h0 (by simp [Ret.MutexOk])
      | eventRecv e => obtain rfl := Option.some.inj hk; exact .other h0 (by simp [Ret.MutexOk])
      | mbSendWait b value timeout tickDelta flag =>
        cases hk
        have hall : all := hP.resolve_right (by simp)
        refine .other (other_trans h0 ?_) (by simp [Ret.MutexOk])
        unfold rtMbSendWaitWake
        split
        · exact other_of_eq rfl
        · rcases I0.mbSendWaitLoop hns htak0 hpend0 hall b value ((k.setCont t []).mbTimeout timeout tickDelta)
            ((k.setCont t []).tick - tickDelta) flag with hcalm | ⟨hno, hother⟩
          · exact I0.other_calmSchedule hcalm (I0.sched.mbSendWaitLoop hns _ _ _ _ _) fun _ => hcalls
          · rw [hno]; exact hother
      | mbRecv b timeout tickDelta flag =>
        cases hk
        have hall : all := hP.resolve_right (by simp)
        refine .other (other_trans h0 ?_) fun x hx => ?_
        swap
        · obtain ⟨v, -, rfl⟩ := Option.map_eq_some_iff.1 hx
          exact id
        unfold rtMbRecvWake
        split
        · exact other_of_eq rfl
        · rcases I0.mbRecvLoop hns htak0 hpend0 hall b ((k.setCont t []).mbTimeout timeout tickDelta)
            ((k.setCont t []).tick - tickDelta) flag with hcalm | ⟨hno, hother⟩
          · exact I0.other_calmSchedule hcalm (I0.sched.mbRecvLoop hns _ _ _ _) fun _ => hcalls
          · rw [hno]; exact hother
      | mqSendWait q buffer timeout tickDelta flag =>
        cases hk
        have hall : all := hP.resolve_right (by simp)
        refine .other (other_trans h0 ?_) (by simp [Ret.MutexOk])
        unfold rtMqSendWaitWake
        split
        · exact other_of_eq rfl
        · exact I0.other_mqSendWaitLoop hns htak0 hpend0 hall _ _ _ _ _
      | mqRecv q size timeout tickDelta flag =>
        obtain ⟨r1, hk1, rfl⟩ := Option.map_eq_some_iff.1 hk
        have hall : all := hP.resolve_right (by simp)
        refine .other (other_trans h0 ?_) (mqRecvRet_not_mutexOk _ _ _)
        unfold rtMqRecvWake at hk1
        split at hk1
        · obtain rfl := Option.some.inj hk1; exact other_of_eq rfl
        · exact I0.other_mqRecvLoop hns htak0 hpend0 hall hk1
      | sleep =>
        cases hk
        exact .other (other_trans h0 (I0.calm_rtThreadSleepWake htak0).step) (by simp)
      | mqCopyIn q msg buffer urgent =>
        cases hk
        have hall : all := hP.resolve_right (by simp)
        exact .other (other_setFrames (c := .thread t) hall (k.mqCopyIn q msg buffer urgent) rfl (by simp) rfl
          fun _ h => by rw [← Context.thread.inj h]; exact htak) (by simp)
      | mqLink q msg buffer urgent =>
        cases hk
        exact .other (other_trans h0 (I0.other_calmSchedule (I0.calm_mqLink q msg urgent) (I0.sched.mqLink q msg urgent)
          fun _ => hcalls)) (by simp [Ret.MutexOk])
      | mqCopyOut q msg size =>
        cases hk
        have hall : all := hP.resolve_right (by simp)
        exact .other (other_setFrames (c := .thread t) hall k rfl (by simp) rfl
          fun _ h => by rw [← Context.thread.inj h]; exact htak) (by simp)
      | mqFree q msg buffer =>
        cases hk
        exact .other (other_trans h0 (I0.other_calmSchedule (I0.calm_mqFree q msg) (I0.sched.mqFree q msg)
          fun _ => hcalls)) (by simp [Ret.MutexOk])

/-- The frames of an interrupt handler. -/
theorem MutexInv.other_isrFrame {r : Kernel × Option Ret × Bool}
    (I : k.MutexInv all) (hk : k.mqFrame (.isr i) fs f = some r) :
    Protocol.Step (Frames all) k.protocol .other (r.1.needSchedule true r.2.2).protocol ∧ ∀ x ∈ r.2.1, ¬x.MutexOk := by
  have h0 : Calm all k (k.setFrames (.isr i) fs) := .of_eq rfl rfl
  have I0 := h0.inv I (I.sched.setFrames _ _)
  cases f with
  | mqCopyIn q msg buffer urgent => obtain rfl := Option.some.inj hk; exact ⟨other_of_eq rfl, by simp⟩
  | mqLink q msg buffer urgent =>
    cases hk
    exact ⟨I.other_calmSchedule (h0.trans (I0.calm_mqLink q msg urgent)) (I0.sched.mqLink q msg urgent) (by simp),
      by simp [Ret.MutexOk]⟩
  | mqCopyOut q msg size => obtain rfl := Option.some.inj hk; exact ⟨other_of_eq rfl, by simp⟩
  | mqFree q msg buffer =>
    cases hk
    exact ⟨I.other_calmSchedule (h0.trans (I0.calm_mqFree q msg)) (I0.sched.mqFree q msg) (by simp),
      by simp [Ret.MutexOk]⟩
  | _ => cases hk

/-! ## Steps -/

/-- A call from an interrupt handler, or from a thread that is in no other call. -/
theorem no_frames {isr : Bool} (h : isr ∨ k.caller.isSome) (hi : isr = false) (t : ThreadId)
    (ht : k.currentThread = some t) : (k.thread t).cont = [] := by
  obtain ⟨u, hu⟩ := Option.isSome_iff_exists.1 (h.resolve_left (by simp [hi]))
  obtain ⟨hcur, hcont, -⟩ := caller_eq_some.1 hu
  cases hcur.symm.trans ht
  exact hcont

theorem self_of_caller (h : k.caller = some t) : k.self = some t := by
  obtain ⟨hcur, hcont, -⟩ := caller_eq_some.1 h
  exact self_eq_some.2 ⟨hcur, hcont⟩

theorem context_isr (hc : k.context (some i) = some c) : c = .isr i := by
  simp only [context] at hc
  split at hc
  · exact (Option.some.inj hc).symm
  · cases hc

theorem taking_of_context {isr : Option IsrId} (hc : k.context isr = some c) (t : ThreadId)
    (h : c = .thread t) : (k.thread t).party.taking = none := by
  subst h
  cases isr with
  | none =>
    obtain ⟨u, hu, he⟩ := Option.map_eq_some_iff.1 hc
    obtain rfl := Context.thread.inj he
    exact Protocol.taking_of_cont_nil (caller_eq_some.1 hu).2.1
  | some i => cases context_isr hc

/-- Every step of the kernel is a step of the mutex protocol. -/
theorem step_refines (I : k.MutexInv all) (hfresh : Fresh all k ev)
    (hk : step fuel k ev = some (k', r)) : Refines all k ev r k' := by
  cases ev with
  | schedulerStart =>
    obtain ⟨k1, hk1, he⟩ := Option.map_eq_some_iff.1 hk
    cases he
    refine .other (other_of_eq ?_) (by simp)
    unfold rtSystemSchedulerStart at hk1
    split at hk1
    · rename_i p t hc hhead
      obtain ⟨-, hk1⟩ := ite_none_right_eq_some.1 hk1
      cases hk1
      simp only [schedulerGetHighestPriorityThread, Prod.mk.injEq] at hhead
      have hready := (I.sched.ready_of_head hhead.2).1
      rw [protocol_modThread (g := fun x => { x with phase := .active }) rfl, protocol_rtScheduleRemoveThread]
      change (k.protocol.unlink t).modParty t _ = _
      rw [I.sched.protocol_unlink (suspended_of_stat hready rfl)]
      refine protocol_modParty_same ?_
      change { (k.thread t).party with phase := .active } = (k.thread t).party
      rw [Thread.party, hready]; rfl
    · cases hk1
  | schedule =>
    cases hk
    exact .other (other_of_eq I.sched.protocol_rtSchedule) (by simp)
  | dispatch t =>
    simp only [step] at hk
    split at hk
    · cases hk
    · rename_i c hc
      obtain ⟨hs, hk⟩ := ite_none_right_eq_some.1 hk
      cases hk
      exact .other (other_of_eq (I.sched.protocol_switchTo hs _)) (by simp)
  | cont =>
    simp only [step] at hk
    split at hk
    · cases hk
    · rename_i t ht
      split at hk
      · cases hk
      · rename_i f fs hcont
        obtain ⟨hf, hk⟩ := ite_none_right_eq_some.1 hk
        exact I.runFrame ht hcont hf hfresh hk
  | tick =>
    cases hk
    refine .other (other_of_eq ?_) (by simp)
    unfold rtTickIncrease
    dsimp only
    split
    · rfl
    · rename_i t _
      split
      · have h0 : SchedInv { k with tick := k.tick + 1#32 } none := I.sched.congr (fun _ => rfl) rfl rfl rfl rfl rfl
        rw [SchedInv.protocol_rtSchedule ((h0.modThread_congr (t := t) rfl).modThread_congr rfl),
          protocol_modThread_same rfl, protocol_modThread_same rfl]
        rfl
      · exact protocol_modThread_same rfl
  | timeout t =>
    simp only [step] at hk
    split at hk
    · obtain ⟨k1, hk1, he⟩ := Option.map_eq_some_iff.1 hk
      cases he
      exact I.threadTimeout hk1
    · cases hk
  | sigcheck t answer =>
    cases hk
    exact .other (other_of_eq (protocol_modThread_same rfl)) (by simp)
  | startup isr t =>
    simp only [step] at hk
    obtain ⟨hw, hk⟩ := ite_none_right_eq_some.1 hk
    obtain ⟨k1, hk1, he⟩ := Option.map_eq_some_iff.1 hk
    cases he
    obtain ⟨hp, hcur⟩ := I.protocol_rtThreadStartup hk1
    refine .other (other_trans (other_of_eq hp) ?_) (by simp)
    have I1 : k1.MutexInv all := ⟨I.sched.rtThreadStartup hk1, hp ▸ I.base⟩
    refine I1.other_callSchedule fun hisr u hu => ?_
    rw [hcur] at hu
    have hcont : (k1.thread u).cont = (k.thread u).cont := congrArg (fun s : Protocol => (s.party u).cont) hp
    rw [hcont]
    rcases hw with hw | hw | hw
    · simp [hisr] at hw
    · simp [hw] at hu
    · obtain ⟨v, hv⟩ := Option.isSome_iff_exists.1 hw
      obtain ⟨hcur', hnil⟩ := self_eq_some.1 hv
      cases hcur'.symm.trans hu
      exact hnil
  | resume t =>
    cases hk
    exact I.rtThreadResume t
  | changePriority t p =>
    simp only [step] at hk
    split at hk
    · cases hk
      refine .single (a := .prio t) ?_ ⟨rfl, p, rfl⟩
      rw [I.sched.protocol_changePriority]
      exact .prio p
    · cases hk
  | delete t =>
    obtain ⟨k1, hk1, he⟩ := Option.map_eq_some_iff.1 hk
    cases he
    exact I.rtThreadDelete hk1
  | defunctDequeue =>
    cases hk
    refine .other (other_of_eq ?_) (by simp)
    unfold rtThreadDefunctDequeue
    split
    · rfl
    · rename_i t ts hd
      rw [protocol_remove]
      exact Protocol.unlink_of_notMem (I.notMem_mutex (d := .defunct) (by simp) (by simp [hd]))
  | exit =>
    obtain ⟨t, ht, he⟩ := Option.map_eq_some_iff.1 hk
    cases he
    exact I.threadExit ht
  | suspend flag =>
    obtain ⟨t, ht, he⟩ := Option.map_eq_some_iff.1 hk
    cases he
    exact .other (I.calm_suspend (Protocol.taking_of_cont_nil (self_eq_some.1 ht).2) (hfresh t ht) flag).step (by simp)
  | sleep tick =>
    obtain ⟨t, ht, he⟩ := Option.map_eq_some_iff.1 hk
    cases he
    exact .other (I.other_rtThreadSleep (Protocol.taking_of_cont_nil (self_eq_some.1 ht).2) (hfresh.2 t ht) hfresh.1 tick)
      (by simp)
  | yield =>
    obtain ⟨t, ht, he⟩ := Option.map_eq_some_iff.1 hk
    cases he
    refine .other (other_of_eq ?_) (by simp)
    unfold rtThreadYield
    rw [SchedInv.protocol_rtSchedule (I.sched.modThread_congr rfl), protocol_modThread_same rfl]
  | enterCritical => obtain ⟨rfl, rfl⟩ := Prod.mk.inj (Option.some.inj hk); exact .other (other_of_eq rfl) (by simp)
  | exitCritical =>
    cases hk
    refine .other (other_of_eq ?_) (by simp)
    have hlock (n : BitVec 16) : SchedInv { k with schedulerLockNest := n } none :=
      I.sched.congr (fun _ => rfl) rfl rfl rfl rfl rfl
    unfold rtExitCritical
    dsimp only
    split
    · split
      · exact (hlock _).protocol_rtSchedule
      · rfl
    · rfl
  | mutexTake m timeout flag =>
    obtain ⟨t, ht, hk⟩ := Option.bind_eq_some_iff.1 hk
    obtain ⟨ha, hk⟩ := ite_none_right_eq_some.1 hk
    obtain ⟨r1, hk1, he⟩ := Option.bind_eq_some_iff.1 hk
    cases he
    exact I.rtMutexTake ht ha.1 hk1
  | mutexRelease m =>
    obtain ⟨t, ht, hk⟩ := Option.bind_eq_some_iff.1 hk
    obtain ⟨ha, hk⟩ := ite_none_right_eq_some.1 hk
    cases hk
    exact I.rtMutexRelease ht ha
  | mutexSetprioceiling m p =>
    obtain ⟨r1, hk1, he⟩ := Option.map_eq_some_iff.1 hk
    cases he
    exact I.rtMutexSetprioceiling hk1
  | mutexDetach m freed =>
    simp only [step] at hk
    obtain ⟨ha, hk⟩ := ite_none_right_eq_some.1 hk
    cases hk
    exact I.rtMutexDetach ha freed
  | semTake s timeout flag =>
    obtain ⟨t, ht, hk⟩ := Option.bind_eq_some_iff.1 hk
    cases hk
    obtain ⟨-, hcont, hs⟩ := caller_eq_some.1 ht
    exact .other (I.other_rtSemTake hs (Protocol.taking_of_cont_nil hcont) (hfresh.2 t (self_of_caller ht)) hfresh.1 _ _ _)
      (by simp [Ret.MutexOk])
  | semRelease isr s =>
    simp only [step] at hk
    obtain ⟨hw, hk⟩ := ite_none_right_eq_some.1 hk
    cases hk
    exact .other (I.other_calmSchedule (I.calm_rtSemRelease s) (I.sched.rtSemRelease s) (no_frames hw))
      (by simp [Ret.MutexOk])
  | eventRecv e set option timeout flag =>
    obtain ⟨t, ht, hk⟩ := Option.bind_eq_some_iff.1 hk
    obtain ⟨r1, hk1, he⟩ := Option.bind_eq_some_iff.1 hk
    cases he
    obtain ⟨-, hcont, hs⟩ := caller_eq_some.1 ht
    exact .other (I.other_rtEventRecv hs (Protocol.taking_of_cont_nil hcont) (hfresh.2 t (self_of_caller ht)) hfresh.1 hk1)
      (by simp [Ret.MutexOk])
  | eventSend isr e set =>
    simp only [step] at hk
    obtain ⟨hw, hk⟩ := ite_none_right_eq_some.1 hk
    cases hk
    exact .other (I.other_calmSchedule (I.calm_rtEventSend e set) (I.sched.rtEventSend e set) (no_frames hw))
      (by simp [Ret.MutexOk])
  | mbSendWait b value timeout flag =>
    obtain ⟨t, ht, hk⟩ := Option.bind_eq_some_iff.1 hk
    cases hk
    obtain ⟨-, hcont, hs⟩ := caller_eq_some.1 ht
    refine .other ?_ (by simp [Ret.MutexOk])
    unfold rtMbSendWait
    split
    · exact other_of_eq rfl
    · rcases I.mbSendWaitLoop hs (Protocol.taking_of_cont_nil hcont) (hfresh.2 t (self_of_caller ht)) hfresh.1 b value
        timeout 0#32 flag with hcalm | ⟨hno, hother⟩
      · exact I.other_calmSchedule hcalm (I.sched.mbSendWaitLoop hs _ _ _ _ _)
          (no_frames (.inr (Option.isSome_iff_exists.2 ⟨t, ht⟩)))
      · rw [hno]; exact hother
  | mbUrgent isr b value =>
    simp only [step] at hk
    obtain ⟨hw, hk⟩ := ite_none_right_eq_some.1 hk
    cases hk
    exact .other (I.other_calmSchedule (I.calm_rtMbUrgent b value) (I.sched.rtMbUrgent b value) (no_frames hw))
      (by simp [Ret.MutexOk])
  | mbRecv b timeout flag =>
    obtain ⟨t, ht, hk⟩ := Option.bind_eq_some_iff.1 hk
    cases hk
    obtain ⟨-, hcont, hs⟩ := caller_eq_some.1 ht
    refine .other ?_ fun x hx => ?_
    swap
    · obtain ⟨v, -, rfl⟩ := Option.map_eq_some_iff.1 hx
      exact id
    unfold rtMbRecv
    split
    · exact other_of_eq rfl
    · rcases I.mbRecvLoop hs (Protocol.taking_of_cont_nil hcont) (hfresh.2 t (self_of_caller ht)) hfresh.1 b timeout
        0#32 flag with hcalm | ⟨hno, hother⟩
      · exact I.other_calmSchedule hcalm (I.sched.mbRecvLoop hs _ _ _ _)
          (no_frames (.inr (Option.isSome_iff_exists.2 ⟨t, ht⟩)))
      · rw [hno]; exact hother
  | mqSendWait q buffer timeout flag =>
    obtain ⟨t, ht, hk⟩ := Option.bind_eq_some_iff.1 hk
    obtain ⟨-, hk⟩ := ite_none_left_eq_some.1 hk
    cases hk
    obtain ⟨-, hcont, hs⟩ := caller_eq_some.1 ht
    refine .other ?_ (by simp [Ret.MutexOk])
    unfold rtMqSendWait
    split_ifs
    · exact other_of_eq rfl
    · exact other_of_eq rfl
    · exact I.other_mqSendWaitLoop hs (Protocol.taking_of_cont_nil hcont) (hfresh.2 t (self_of_caller ht)) hfresh.1 _ _
        _ _ _
  | mqUrgent isr q buffer =>
    obtain ⟨c, hc, hk⟩ := Option.bind_eq_some_iff.1 hk
    split at hk
    · cases hk
    · cases hk
      exact .other (other_rtMqUrgent hfresh (taking_of_context hc) _ _ _) (by simp [Ret.MutexOk])
  | mqSendIsr i q buffer =>
    obtain ⟨c, hc, hk⟩ := Option.bind_eq_some_iff.1 hk
    obtain ⟨-, hk⟩ := ite_none_left_eq_some.1 hk
    cases hk
    obtain rfl := context_isr hc
    refine .other ?_ (by simp [Ret.MutexOk])
    unfold rtMqUrgent
    split
    · exact other_of_eq rfl
    · split <;> exact other_of_eq rfl
  | mqRecv q size timeout flag =>
    obtain ⟨t, ht, hk⟩ := Option.bind_eq_some_iff.1 hk
    obtain ⟨-, hk⟩ := ite_none_left_eq_some.1 hk
    obtain ⟨r1, hk1, he⟩ := Option.map_eq_some_iff.1 hk
    cases he
    obtain ⟨-, hcont, hs⟩ := caller_eq_some.1 ht
    refine .other ?_ (mqRecvRet_not_mutexOk _ _ _)
    unfold rtMqRecv at hk1
    split at hk1
    · obtain rfl := Option.some.inj hk1; exact other_of_eq rfl
    · exact I.other_mqRecvLoop hs (Protocol.taking_of_cont_nil hcont) (hfresh.2 t (self_of_caller ht)) hfresh.1 hk1
  | mqRecvIsr i q size =>
    simp only [step] at hk
    obtain ⟨-, hk⟩ := ite_none_left_eq_some.1 hk
    obtain ⟨r1, hk1, he⟩ := Option.map_eq_some_iff.1 hk
    cases he
    refine .other ?_ (mqRecvRet_not_mutexOk _ _ _)
    unfold rtMqRecvIsr at hk1
    split at hk1
    · obtain rfl := Option.some.inj hk1; exact other_of_eq rfl
    · obtain ⟨msg, -, rfl⟩ := Option.map_eq_some_iff.1 hk1
      exact other_of_eq rfl
  | mqReset isr q =>
    simp only [step] at hk
    obtain ⟨hw, hk⟩ := ite_none_right_eq_some.1 hk
    obtain ⟨k1, hk1, he⟩ := Option.map_eq_some_iff.1 hk
    cases he
    refine .other ?_ (by simp [Ret.MutexOk])
    exact @MutexInv.other_calmSchedule _ _ _ I isr true (I.calm_rtMqControlReset hk1)
      (SchedInv.rtMqControlReset fuel I.sched hk1) (no_frames hw)
  | isrCont i =>
    simp only [step] at hk
    split at hk
    · cases hk
    · obtain ⟨r1, hk1, he⟩ := Option.map_eq_some_iff.1 hk
      cases he
      exact .other (I.other_isrFrame hk1).1 (I.other_isrFrame hk1).2

/-! ## Runs -/

/-- Before anything happens nobody waits for a mutex, and nobody owns one. -/
theorem Boot.mutexInv (h : Boot k) : k.MutexInv all where
  sched := h.schedInv
  base :=
    { nodup := fun m => by simp [h.tlist]
      waiting := fun hm => by simp [h.tlist] at hm
      linked := fun {t m} _ hm => by
        change (k.thread t).pendingObject = some m at hm
        simp [h.pendingObject] at hm
      shape := fun t => .inl (h.cont t)
      taking := fun hm => by simp [h.tlist] at hm
      blocked := fun {t m} _ hm => by
        rw [protocol_party, Protocol.taking_of_cont_nil (x := (k.thread t).party) (h.cont t)] at hm; cases hm
      attached := fun hm => by simp [h.tlist] at hm
      owned := fun hm => by simp [h.tlist] at hm
      taken_iff := by simp [h.takenObjectList, h.owner]
      taken_nodup := fun t => by simp [h.takenObjectList]
      hold_pos := fun {t m} ho => by rw [protocol_mutex, h.owner] at ho; cases ho
      hold_zero := fun {m} _ => h.hold m }

/-- In a run without such calls no thread has a frame of one. -/
theorem MutexInv.fresh (I : k.MutexInv False) (h : ev.isOtherWait = false) : Fresh False k ev := by
  cases ev with
  | cont =>
    intro t f _ hcont hf htf _
    have hshape := I.base.shape t
    change Protocol.Shape _ (k.thread t).cont at hshape
    rw [hcont] at hshape
    rcases hshape with h | h | ⟨g, -, hP, h | h⟩
    · cases h
    · exact absurd (List.cons.inj h).1 hf
    · obtain ⟨m, rfl⟩ := hP.resolve_left id
      rw [(List.cons.inj h).1] at htf
      cases htf
    · exact absurd (List.cons.inj h).1 hf
  | suspend | sleep | semTake | eventRecv | mbSendWait | mbRecv | mqSendWait | mqUrgent | mqRecv => cases h
  | _ => trivial

variable {ok : Kernel → Ev → Prop} {k0 : Kernel} {ls : List (Ev × Option Ret)}

/-- What the steps of the protocol keep, given the labels before them, holds of the labels and of the last state of every
run. -/
theorem KRun.protocol_history (hb : Boot k0) (h0 : J [] k0.protocol)
    (hfresh : ∀ ls k ev, k.MutexInv all → J ls k.protocol → ok k ev → Fresh all k ev)
    (hother : ∀ ls s s', Protocol.Base (Frames all) s → J ls s → Protocol.Step (Frames all) s .other s' → J ls s')
    (hstep : ∀ ls k ev r a s', k.MutexInv all → J ls k.protocol → ok k ev → k.From ev r a →
      Protocol.Step (Frames all) k.protocol a s' → J (ls ++ [(ev, r)]) s')
    (hr : KRun ok k0 ls k) : k.MutexInv all ∧ J ls k.protocol := by
  refine Runs.Run.history (I := fun ls k => k.MutexInv all ∧ J ls k.protocol) ⟨hb.mutexInv, h0⟩ ?_ hr
  rintro ls k ⟨ev, r⟩ k' ⟨I, hJ⟩ ⟨hok, fuel, hk⟩
  obtain ⟨a, s, hs, hother', hfrom⟩ := step_refines I (hfresh ls k ev I hJ hok) hk
  have hbase := hs.base I.base
  refine ⟨⟨step_schedInv I.sched hk, hother'.base hbase⟩, ?_⟩
  exact hother _ _ _ hbase (hstep ls k ev r a s I hJ hok hfrom hs) hother'

/-- What the steps of the protocol keep holds in every state a run reaches. -/
theorem KRun.protocol_invariant {J : Protocol → Prop} (hb : Boot k0) (h0 : J k0.protocol)
    (hfresh : ∀ k ev, k.MutexInv all → J k.protocol → ok k ev → Fresh all k ev)
    (hother : ∀ s s', Protocol.Base (Frames all) s → J s → Protocol.Step (Frames all) s .other s' → J s')
    (hstep : ∀ k ev r a s', k.MutexInv all → J k.protocol → ok k ev → k.From ev r a →
      Protocol.Step (Frames all) k.protocol a s' → J s')
    (hr : KRun ok k0 ls k) : k.MutexInv all ∧ J k.protocol :=
  hr.protocol_history (J := fun _ s => J s) hb h0 (fun _ => hfresh) (fun _ => hother) fun _ => hstep

/-- The same for what does not depend on priorities. -/
theorem KRun.core_history (hb : Boot k0) (h0 : J [] k0.protocol)
    (hfresh : ∀ ls k ev, k.MutexInv all → J ls k.protocol → ok k ev → Fresh all k ev)
    (hsame : ∀ ls s s', J ls s → Protocol.Same s s' → J ls s')
    (hother : ∀ ls s s', Protocol.Base (Frames all) s → J ls s → Protocol.Core (Frames all) s .other s' → J ls s')
    (hcore : ∀ ls k ev r a s', k.MutexInv all → J ls k.protocol → ok k ev → k.From ev r a →
      Protocol.Core (Frames all) k.protocol a s' → J (ls ++ [(ev, r)]) s')
    (hr : KRun ok k0 ls k) : k.MutexInv all ∧ J ls k.protocol := by
  refine hr.protocol_history hb h0 hfresh (fun ls s s' hs hJ hst => ?_) fun ls k ev r a s' I hJ hok hfrom hst => ?_
  · obtain ⟨x, hx, hxs⟩ := hst.core hs.toLinked
    exact hsame _ _ _ (hother _ _ _ hs hJ hx) hxs
  · obtain ⟨x, hx, hxs⟩ := hst.core I.base.toLinked
    exact hsame _ _ _ (hcore _ _ _ _ _ _ I hJ hok hfrom hx) hxs

end Kernel

end RtThread
