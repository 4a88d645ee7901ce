import RtThread.Mutex.Ownership

/-!
# The owner on the error path

The error path of `_rt_mutex_take` and `rt_mutex_drop_thread` dereference the owner of the mutex. There is one in every
run in which a mutex is not freed while it is the `pending_object` of a live thread (`errorPath_owner`). A waiter that
timed out is such a thread, and the owner may release the mutex before it runs again (`not_errorPath_owner`).
-/

namespace RtThread

/-- The events of runs on mutexes in which waits end early, and threads are deleted. -/
def Ev.isEarlyEnd (ev : Ev) : Bool :=
  ev.isSched || ev.isMutex || match ev with
    | .resume _ | .delete _ | .exit => true
    | _ => false

namespace Protocol

variable {P : Frame → Prop} {s s' : Protocol} {t u : ThreadId} {m m' : MutexId}

/-- A mutex that is pending has an owner, and that of an aborted take is pending. -/
structure PendingOwned (s : Protocol) : Prop where
  owned : ∀ {t m}, (s.party t).phase ≠ .closed → (s.party t).pending = some m → (s.mutex m).owner ≠ none
  aborted : ∀ {t m}, (s.party t).phase ≠ .closed → (s.party t).taking = some m → (s.party t).error ≠ .eok →
    (s.party t).pending = some m

theorem PendingOwned.congr (h : PendingOwned s) (hs : Same s s') : PendingOwned s' where
  owned hp hm := by
    rw [hs.phase] at hp
    rw [hs.pending] at hm
    rw [hs.owner]
    exact h.owned hp hm
  aborted hp ht he := by
    rw [hs.phase] at hp
    rw [hs.taking] at ht
    rw [hs.error] at he
    rw [hs.pending]
    exact h.aborted hp ht he

/-- Only the thread `t` changes, and no mutex loses its owner. -/
theorem PendingOwned.update (h : PendingOwned s) (hparty : ∀ u, u ≠ t → s'.party u = s.party u)
    (hmutex : ∀ m', (s.mutex m').owner ≠ none → (s'.mutex m').owner ≠ none)
    (hself : (s'.party t).phase ≠ .closed →
      (∀ m', (s'.party t).pending = some m' → (s'.mutex m').owner ≠ none) ∧
      ∀ m', (s'.party t).taking = some m' → (s'.party t).error ≠ .eok → (s'.party t).pending = some m') :
    PendingOwned s' where
  owned {u m'} hp hm := by
    by_cases e : u = t
    · subst e; exact (hself hp).1 m' hm
    · rw [hparty u e] at hp hm; exact hmutex m' (h.owned hp hm)
  aborted {u m'} hp ht he := by
    by_cases e : u = t
    · subst e; exact (hself hp).2 m' ht he
    · rw [hparty u e] at hp ht he ⊢; exact h.aborted hp ht he

/-- Only freeing a mutex that is pending leaves one without owner. -/
theorem Core.pendingOwned {a : Act} (hst : Core P s a s') (hb : Base P s) (h : PendingOwned s)
    (ha : ∀ t m, a = .free t m → ∀ u, (s.party u).phase ≠ .closed → (s.party u).pending ≠ some m) :
    PendingOwned s' := by
  cases hst with
  | other x hx =>
    refine ⟨fun {u m} hp hm => ?_, fun {u m} hp ht he => ?_⟩
    · change (x u).phase ≠ _ at hp
      change (x u).pending = _ at hm
      rcases hx u with e | hq
      · rw [e] at hp hm; exact h.owned hp hm
      · rw [hq.pending] at hm
        exact h.owned (fun hc => hp (hq.closed.2 hc)) hm
    · change (x u).phase ≠ _ at hp
      change (x u).taking = _ at ht
      change (x u).error ≠ _ at he
      change (x u).pending = _
      rcases hx u with e | hq
      · rw [e] at hp ht he ⊢; exact h.aborted hp ht he
      · rw [hq.taking'] at ht; cases ht
  | @pop t m hc =>
    have htak : (s.party t).taking = some m := by rw [Party.taking, hc]; rfl
    refine h.update (t := t) (fun u hu => modParty_party_of_ne hu) (fun _ ho => ho) fun hp => ?_
    rw [modParty_party_self] at hp ⊢
    refine ⟨fun m' hm => h.owned hp hm, fun m' ht he => ?_⟩
    obtain rfl : m = m' := Option.some.inj ht
    exact h.aborted hp htak he
  | prio => exact h
  | @acquire t m hs hc ha' ho =>
    have hmutex (m' : MutexId) (ho' : (s.mutex m').owner ≠ none) :
        ((((s.modParty t fun x => { x with error := .eok }).modMutex m fun x =>
          { x with owner := some t, priority := 0xff, hold := 1 }).addTaken t m).mutex m').owner ≠ none := by
      by_cases e : m' = m
      · subst e; simp
      · simpa [modMutex_mutex_of_ne e] using ho'
    refine h.update (t := t) (fun u hu => by simp [modParty_party_of_ne hu]) hmutex fun hp => ?_
    rw [addTaken_party, modMutex_party, modParty_party_self] at hp ⊢
    exact ⟨fun m' hm => hmutex m' (h.owned hp hm), fun _ _ he => absurd rfl he⟩
  | @nest t m hs hc ho hh =>
    have hmutex := modMutex_part (s := s.modParty t fun x => { x with error := .eok }) (m := m)
      (g := fun x => { x with hold := x.hold + 1 }) Mutex.owner rfl
    refine h.update (t := t) (fun u hu => by simp [modParty_party_of_ne hu]) (fun m' ho' => by rw [hmutex]; exact ho')
      fun hp => ?_
    rw [modMutex_party, modParty_party_self] at hp ⊢
    exact ⟨fun m' hm => by rw [hmutex]; exact h.owned hp hm, fun _ _ he => absurd rfl he⟩
  | @block t o m hs hc ha' ho hot hP =>
    refine h.update (t := t) (fun u hu => by simp [modParty_party_of_ne hu]) (fun _ ho => ho) fun _ => ?_
    rw [link_party, modParty_party_self]
    refine ⟨fun m' hm => ?_, fun _ _ he => absurd rfl he⟩
    obtain rfl : m = m' := Option.some.inj hm
    rw [link_mutex, modParty_mutex, ho]; simp
  | @unnest t m ho hh hc =>
    have hmutex := modMutex_part (s := s) (m := m) (g := fun x => { x with hold := x.hold - 1 }) Mutex.owner rfl
    exact ⟨fun hp hm => by rw [hmutex]; exact h.owned hp hm, h.aborted⟩
  | @free t m hc ho hh hw =>
    refine ⟨fun {u m'} hp hm => ?_, h.aborted⟩
    have e : m' ≠ m := by rintro rfl; exact ha t _ rfl u hp hm
    rw [modMutex_mutex_of_ne e]
    exact h.owned hp hm
  | @grant t n m ns hc ha' ho hh hw =>
    have hn : n ∈ s.waiters m := by simp [hw]
    refine h.update (t := n) (fun u hu => modParty_party_of_ne hu) (fun m' ho' => ?_) fun _ => ?_
    · by_cases e : m' = m
      · subst e; simp
      · simpa [modMutex_mutex_of_ne e] using ho'
    · rw [modParty_party_self]
      exact ⟨fun m' hm => (by cases hm), fun _ _ he => absurd (hb.taking hn).2 he⟩
  | @expire t m e he hw =>
    have hlive : (s.party t).phase ≠ .closed := by rw [(hb.waiting hw).1]; simp
    refine h.update (t := t) (fun u hu => modParty_party_of_ne hu) (fun _ ho => ho) fun _ => ?_
    rw [modParty_party_self]
    refine ⟨fun m' hm => h.owned hlive hm, fun m' ht _ => ?_⟩
    obtain rfl : m = m' := Option.some.inj ((hb.taking hw).1.symm.trans ht)
    exact (hb.waiting hw).2
  | @wake t m hw =>
    have hlive : (s.party t).phase ≠ .closed := by rw [(hb.waiting hw).1]; simp
    refine h.update (t := t) (fun u hu => modParty_party_of_ne hu) (fun _ ho => ho) fun _ => ?_
    rw [modParty_party_self]
    exact ⟨fun m' hm => h.owned hlive hm, fun _ _ he => absurd (hb.taking hw).2 he⟩
  | @finish t m hs hc he =>
    refine h.update (t := t) (fun u hu => modParty_party_of_ne hu) (fun _ ho => ho) fun hp => ?_
    rw [modParty_party_self] at hp ⊢
    exact ⟨fun m' hm => h.owned hp hm, fun _ ht => (by cases ht)⟩
  | @abort t m hs hc he ho =>
    refine h.update (t := t) (fun u hu => modParty_party_of_ne hu) (fun _ ho => ho) fun hp => ?_
    rw [modParty_party_self] at hp ⊢
    exact ⟨fun m' hm => h.owned hp hm, fun _ ht => (by cases ht)⟩
  | @ceiling m p =>
    have hmutex := modMutex_part (s := s) (m := m) (g := fun x => { x with ceilingPriority := p }) Mutex.owner rfl
    exact ⟨fun hp hm => by rw [hmutex]; exact h.owned hp hm, h.aborted⟩
  | @close t hlive hp =>
    refine h.update (t := t) (fun u hu => modParty_party_of_ne hu) (fun _ ho => ho) fun hp => ?_
    rw [modParty_party_self] at hp
    exact absurd rfl hp
  | @drop t m hlive hp ha' ho =>
    refine h.update (t := t) (fun u hu => modParty_party_of_ne hu) (fun _ ho => ho) fun hp => ?_
    rw [modParty_party_self] at hp
    exact absurd rfl hp
  | @detach m object hobj ha' =>
    have hmutex (m' : MutexId) :
        ((((s.wakeAll m).dropTaken m).modMutex m fun x => { x with object := object }).mutex m').owner =
          (s.mutex m').owner := modMutex_part Mutex.owner rfl m'
    refine ⟨fun {u m'} hp hm => ?_, fun {u m'} hp ht he => ?_⟩
    · rw [modMutex_party, dropTaken_party] at hp hm
      rw [hmutex]
      by_cases e : u ∈ s.waiters m
      · rw [wakeAll_party_of_mem e] at hm
        exact h.owned (by rw [(hb.waiting e).1]; simp) hm
      · rw [wakeAll_party_of_notMem e] at hp hm
        exact h.owned hp hm
    · rw [modMutex_party, dropTaken_party] at hp ht he ⊢
      by_cases e : u ∈ s.waiters m
      · rw [wakeAll_party_of_mem e] at ht ⊢
        obtain rfl : m = m' := Option.some.inj ((hb.taking e).1.symm.trans ht)
        exact (hb.waiting e).2
      · rw [wakeAll_party_of_notMem e] at hp ht he ⊢
        exact h.aborted hp ht he

end Protocol

namespace Kernel

variable {k k0 k' : Kernel} {ls : List (Ev × Option Ret)} {t u : ThreadId} {m : MutexId}

/-- The current thread is about to run the error path of `_rt_mutex_take`. -/
def AtErrorPath (k : Kernel) (t : ThreadId) (m : MutexId) : Prop :=
  k.currentThread = some t ∧ (k.thread t).stat = .running ∧ (k.thread t).cont = [.mutexTake m] ∧
    (k.thread t).error ≠ .eok

/-- `rt_thread_delete` of the thread would call `rt_mutex_drop_thread` for the mutex. -/
def Drops (k : Kernel) (t : ThreadId) (m : MutexId) : Prop :=
  (k.thread t).stat ≠ .close ∧ (k.thread t).pendingObject = some m ∧ (k.mutex m).object = .attached

/-- The release is not the last one of a mutex that nobody waits for, but that a live thread has as its pending
object. -/
def NotFreed (k : Kernel) (ev : Ev) : Prop :=
  ∀ m, ev = .mutexRelease m → (k.mutex m).hold = 1 → k.tlist (.mutex m) = [] →
    ∀ u, (k.thread u).stat ≠ .close → (k.thread u).pendingObject ≠ some m

/-- In every state reached, if no pending mutex is freed: the mutex has an owner where the error path of `_rt_mutex_take`
is entered, and where `rt_thread_delete` calls `rt_mutex_drop_thread`. -/
theorem errorPath_owner (hb : Boot k0) (hr : KRun (fun k ev => ev.isEarlyEnd = true ∧ NotFreed k ev) k0 ls k) :
    (∀ t m, k.AtErrorPath t m → (k.mutex m).owner ≠ none) ∧ ∀ t m, k.Drops t m → (k.mutex m).owner ≠ none := by
  have h0 : k0.protocol.PendingOwned := by
    refine ⟨fun {t m} _ hm => ?_, fun {t m} _ ht => ?_⟩
    · change (k0.thread t).pendingObject = some m at hm
      rw [hb.pendingObject] at hm; cases hm
    · rw [protocol_party, Protocol.taking_of_cont_nil (x := (k0.thread t).party) (hb.cont t)] at ht; cases ht
  obtain ⟨-, h⟩ := hr.core_history (J := fun _ s => s.PendingOwned) hb h0
    (fun _ _ ev I _ hok => I.fresh (by
      have := hok.1
      cases ev <;> first | rfl | cases this))
    (fun _ _ _ h hs => h.congr hs) (fun _ _ _ hs h hst => hst.pendingOwned hs h (by simp))
    fun _ k ev r a s' I h hok hfrom hst => hst.pendingOwned I.base h (by
      rintro t m rfl u hp
      cases hst with
      | free hc ho hh hw => exact hok.2 m hfrom.2.2 hh hw u fun hc => hp (protocol_closed.2 hc))
  have owner {t : ThreadId} {m : MutexId} (hc : (k.thread t).stat ≠ .close) (hm : (k.thread t).pendingObject = some m) :
      (k.mutex m).owner ≠ none := h.owned (fun hp => hc (protocol_closed.1 hp)) hm
  refine ⟨fun t m ⟨_, hs, hcont, he⟩ => ?_, fun t m ⟨hc, hm, _⟩ => owner hc hm⟩
  have hc : (k.thread t).stat ≠ .close := by rw [hs]; simp
  have htak : (k.protocol.party t).taking = some m := by
    change (k.thread t).cont.findSome? Frame.taking = _
    rw [hcont]; rfl
  exact owner hc (h.aborted (fun hp => hc (protocol_closed.1 hp)) htak he)

theorem errorPath_owner_contended :
    (∀ t m, contended.AtErrorPath t m → (contended.mutex m).owner ≠ none) ∧
      ∀ t m, contended.Drops t m → (contended.mutex m).owner ≠ none :=
  errorPath_owner boot_bootTwo (KRun.of_exec _ _ _ (by decide) fun e he k =>
    ⟨List.all_eq_true.1 (by decide : contendedEvents.all Ev.isEarlyEnd = true) e he, fun m hm => by
      subst hm; simp [contendedEvents] at he⟩)

/-- The waiter of `contended` times out; before it runs the owner releases the mutex. -/
def freedEvents : List Ev := contendedEvents ++ [.cont, .timeout 1, .mutexRelease 0, .cont]

/-- The error path of `_rt_mutex_take` may find a mutex without owner. -/
theorem not_errorPath_owner :
    ¬∀ (k0 k : Kernel) (ls : List (Ev × Option Ret)), Boot k0 → KRun (fun _ ev => ev.isEarlyEnd = true) k0 ls k →
      ∀ t m, k.AtErrorPath t m → (k.mutex m).owner ≠ none := by
  intro h
  refine h bootTwo (after 2 bootTwo freedEvents) _ boot_bootTwo
    (KRun.of_exec _ _ _ (by decide +kernel) fun e he _ => List.all_eq_true.1 (by decide) e he) 1 0 ⟨?_, ?_, ?_, ?_⟩ ?_
  all_goals decide +kernel

end Kernel

end RtThread
