import RtThread.Ipc.Apart
import RtThread.Ipc.Refine
import RtThread.Mutex.Ownership

/-!
# Waiting, in every run

- Every run of the kernel is a run of the state that IPC objects see (`waits_run`) and of the mutex protocol
  (`protocol_run`).
- Where a thread is linked says what it does (`thread_lists`).
- No thread waits for an event that has what it asks for (`event_waiters`). `rt_event_send` looks at each waiter once; the
  bits only become fewer then, so that who was passed over stays unsatisfied.
-/

namespace RtThread

namespace Waits

variable {s s' : Waits} {i : EventId} {o : Obj} {t : ThreadId} {info : BitVec 8} {want set m : BitVec 32} {ev : Ev}
  {r : Option Ret}

/-- Who waits for the event has a request that its bits do not satisfy. -/
def Unmet (i : EventId) (s : Waits) : Prop := ∀ t ∈ s.list (.event i), s.Unavailable (.event i) (s.waiter t)

/-- What fewer bits satisfy is satisfied. -/
theorem satisfied_of_and (h : satisfied info want (set &&& m) = true) : satisfied info want set = true := by
  unfold satisfied at h ⊢
  split at h
  next hand =>
    rw [if_pos hand]
    have hall : set &&& m &&& want = want := of_decide_eq_true h
    refine decide_eq_true ?_
    calc set &&& want = set &&& (set &&& m &&& want) := by rw [hall]
      _ = set &&& m &&& want := by rw [← BitVec.and_assoc, ← BitVec.and_assoc, BitVec.and_self]
      _ = want := hall
  next hand =>
    rw [if_neg hand]
    refine decide_eq_true fun hzero => of_decide_eq_true h ?_
    rw [BitVec.and_comm set m, BitVec.and_assoc, hzero, BitVec.and_zero]

theorem unsatisfied_of_clear {clear : Prop} [Decidable clear] (h : satisfied info want set = false) :
    satisfied info want (if clear then set &&& m else set) = false := by
  split
  · exact Bool.eq_false_iff.2 fun hs => absurd (satisfied_of_and hs) (by simp [h])
  · exact h

/-! ## Steps -/

theorem Unmet.apart (hu : Unmet i s) (hw : s.Waiting) (ha : Apart o s s') (ho : o ≠ .event i) : Unmet i s' := by
  intro t ht
  rw [ha.list _ (by simpa [ListHead.obj] using ho.symm)] at ht
  obtain ⟨-, f, hf, hh⟩ := hw.linked ht
  have hobj : f.obj ≠ some o := by rw [Frame.obj_of_head hh]; simpa [ListHead.obj] using ho.symm
  have hevent : s'.objects.event i = s.objects.event i := ha.objects (.event i) ho.symm
  rw [ha.waiter hf hobj, Unavailable, hevent]
  exact hu t ht

/-- The loop passes over `ts`; who is behind it in the list is not satisfied by the bits that are left. -/
theorem unmet_sendLoop (ts : List ThreadId) (hts : ts.Nodup) (hsub : ∀ t ∈ ts, t ∈ s.list (.event i))
    (hasks : ∀ t ∈ s.list (.event i), Asks (s.waiter t).eventInfo (s.waiter t).eventSet)
    (hpassed : ∀ t ∈ s.list (.event i), t ∉ ts →
      satisfied (s.waiter t).eventInfo (s.waiter t).eventSet (s.objects.event i).set = false) :
    Unmet i (sendLoop i ts s).1 := by
  induction ts generalizing s with
  | nil => exact fun t ht => ⟨hasks t ht, hpassed t ht List.not_mem_nil⟩
  | cons t ts ih =>
    obtain ⟨hnot, hts⟩ := List.nodup_cons.1 hts
    have hlist := hsub t List.mem_cons_self
    unfold sendLoop
    dsimp only
    rw [if_neg (hasks t hlist).2]
    split
    · -- `t` is woken, and the bits may become fewer
      refine ih hts (fun u hu => ?_) (fun u hu => ?_) fun u hu hmem => ?_
      · rw [wake_list, setEvent_list, modWaiter_list]
        refine Links.mem_remove.2 ⟨hsub u (List.mem_cons_of_mem t hu), ?_⟩
        rintro rfl
        exact hnot hu
      all_goals
        rw [wake_list, setEvent_list, modWaiter_list] at hu
        obtain ⟨hu, hne⟩ := Links.mem_remove.1 hu
        rw [wake_waiter_of_ne _ _ hne, setEvent_waiter, modWaiter_waiter_of_ne _ _ hne]
      · exact hasks u hu
      · have hevent := hpassed u hu fun h => (List.mem_cons.1 h).elim hne hmem
        simp only [wake_objects, setEvent, Function.update_self]
        exact unsatisfied_of_clear hevent
    next hsat =>
      refine ih hts (fun u hu => hsub u (List.mem_cons_of_mem t hu)) hasks fun u hu hmem => ?_
      by_cases hut : u = t
      · subst hut
        exact Bool.eq_false_iff.2 hsat
      · exact hpassed u hu fun h => (List.mem_cons.1 h).elim hut hmem

theorem Unmet.event (hu : Unmet i s) (hw : s.Waiting) (hst : EventStep i s r s') : Unmet i s' := by
  cases hst with
  | @recv t want info x hc hx hs =>
    intro u hmem
    have hne : u ≠ t := by rintro rfl; exact hw.notMem_of_idle hc _ hmem
    obtain ⟨hasks, hset⟩ := hu u hmem
    rw [setEvent_waiter, modWaiter_waiter_of_ne _ _ hne]
    refine ⟨hasks, ?_⟩
    simp only [setEvent, Function.update_self]
    exact unsatisfied_of_clear hset
  | @finish t hc hl =>
    intro u hmem
    rw [setCalls_list] at hmem
    have hne : u ≠ t := by rintro rfl; exact hl _ hmem
    rw [setCalls, modWaiter_waiter_of_ne _ _ hne]
    exact hu u hmem
  | send h0 hr =>
    rw [← hr]
    exact unmet_sendLoop _ (hw.nodup _) (fun _ h => h) (fun t ht => (hu t ht).1) fun t ht hn => absurd ht hn

theorem Unmet.block {h : ListHead} {f : Frame} {x : Waiter} {xs : List ThreadId} (hm : Unmet i s) (hw : s.Waiting)
    (hc : s.Enters (.thread t) h) (hf : f.head = some h) (hu : s.Unavailable h x) (hx : x.calls = [f])
    (hxs : xs.Perm (t :: s.list h)) : Unmet i (s.block t h x xs) := by
  obtain ⟨o, ho⟩ := Option.isSome_iff_exists.1 (Frame.isSome_obj hf)
  rw [Frame.obj_of_head hf] at ho
  by_cases hh : o = .event i
  · obtain rfl : h = .event i := by cases h <;> simp_all [ListHead.obj]
    intro u hmem
    change s.Unavailable (.event i) ((s.modWaiter t fun _ => x).waiter u)
    change u ∈ Function.update s.list (.event i) xs (.event i) at hmem
    rw [Function.update_self, hxs.mem_iff, List.mem_cons] at hmem
    by_cases hut : u = t
    · subst hut
      rw [modWaiter_waiter_self]
      exact hu
    · rw [modWaiter_waiter_of_ne _ _ hut]
      exact hm u (hmem.resolve_left hut)
  · exact hm.apart hw (apart_block hc hf hx ho) hh

theorem Unmet.step (hu : Unmet i s) (hw : s.Waiting) (hst : Step s (ev, r) s') : Unmet i s' := by
  cases hst with
  | quiet hq hr =>
    intro t ht
    have hmem := (hq.sub _).subset ht
    obtain ⟨-, f, hf, hh⟩ := hw.linked hmem
    obtain ⟨hset, hinfo⟩ := hq.request hf (Frame.isSome_obj hh)
    rw [Unavailable, hset, hinfo, hq.objects]
    exact hu t hmem
  | block ev hc hf hun hx hs he hp hxs => exact hu.block hw hc hf hun hx hxs
  | @fail t h f x r ev hc hf hh hl hun hx ha hr =>
    obtain ⟨o, ho⟩ := Option.isSome_iff_exists.1 (Frame.isSome_obj hf)
    rw [Frame.obj_of_head hf] at ho
    have hne : o ≠ .event i := by rintro rfl; cases h <;> simp_all [ListHead.obj, ListHead.retries]
    exact hu.apart hw (apart_fail hc hf hx ho) hne
  | sem ev h => exact hu.apart hw (h.apart hw) (by simp)
  | @event j _ _ ev h =>
    by_cases hj : j = i
    · subst hj
      exact hu.event hw h
    · exact hu.apart hw (h.apart hw) (by simpa using hj)
  | mailbox ev h => exact hu.apart hw (h.apart hw) (by simp)
  | mq ev h => exact hu.apart hw (h.apart hw) (by simp)

end Waits

namespace Kernel

variable {ok : Kernel → Ev → Prop} {all : Prop} {k0 k : Kernel} {ls : List (Ev × Option Ret)}

/-! ## The abstract runs -/

/-- A thread waits for both of two bits, and one is sent. -/
def halfSentEvents : List Ev :=
  [.startup true 0, .schedulerStart, .eventRecv 0 3#32 1#8 0xffffffff#32 .uninterruptible, .eventSend true 0 1#32]

def halfSent : Kernel := after 2 (boot 32 fun _ => 10) halfSentEvents

theorem halfSent_spec : (Runs.exec (step 2) (boot 32 fun _ => 10) halfSentEvents).isSome ∧
    0 ∈ halfSent.tlist (.event 0) ∧ (halfSent.event 0).set = 1#32 := by decide

theorem halfSent_run : KRun (fun _ _ => True) (boot 32 fun _ => 10) (labels 2 (boot 32 fun _ => 10) halfSentEvents) halfSent :=
  KRun.of_exec 2 _ halfSentEvents halfSent_spec.1 fun _ _ _ => trivial

/-- Every run is one of the calls, wait lists and objects, with the same labels. -/
theorem waits_run (hb : Boot k0) (hr : KRun ok k0 ls k) : Runs.Run Waits.Step k0.waits ls k.waits :=
  (hr.waits_history (J := fun ls s => Runs.Run Waits.Step k0.waits ls s) hb .nil fun _ _ _ _ _ _ hJ _ hst => hJ.snoc hst).2

theorem waits_run_halfSent :
    Runs.Run Waits.Step (boot 32 fun _ => 10).waits (labels 2 (boot 32 fun _ => 10) halfSentEvents) halfSent.waits :=
  waits_run boot_ten halfSent_run

/-- A step of the protocol that the event and the result come from, and what threads do after it. -/
def ProtocolStep (all : Prop) (s : Protocol) (l : Ev × Option Ret) (s' : Protocol) : Prop :=
  ∃ k a s1, protocol k = s ∧ k.From l.1 l.2 a ∧ Protocol.Step (Frames all) s a s1 ∧ Protocol.Step (Frames all) s1 .other s'

/-- A run in which no thread with a `pending_object` suspends itself is a run of the mutex protocol. -/
theorem protocol_run (hb : Boot k0) (hr : KRun (Fresh all) k0 ls k) : Runs.Run (ProtocolStep all) k0.protocol ls k.protocol := by
  refine (Runs.Run.history (I := fun ls k => k.MutexInv all ∧ Runs.Run (ProtocolStep all) k0.protocol ls k.protocol)
    ⟨hb.mutexInv, .nil⟩ ?_ hr).2
  rintro ls k ⟨ev, r⟩ k' ⟨I, hrun⟩ ⟨hfresh, fuel, hk⟩
  obtain ⟨a, s, hs, hother, hfrom⟩ := step_refines I hfresh hk
  exact ⟨⟨step_schedInv I.sched hk, hother.base (hs.base I.base)⟩, hrun.snoc ⟨k, a, s, rfl, hfrom, hs, hother⟩⟩

theorem protocol_run_contended :
    Runs.Run (ProtocolStep True) bootTwo.protocol (labels 2 bootTwo contendedEvents) contended.protocol := by
  have hr := @contended_run (fun ev => decide (ev ∈ contendedEvents)) (by decide)
  refine protocol_run boot_bootTwo (hr.mono fun k l k' h => ⟨?_, h.2⟩)
  have he : l.1 ∈ contendedEvents := of_decide_eq_true h.1
  simp only [contendedEvents, List.mem_cons, List.not_mem_nil, or_false] at he
  rcases he with he | he | he | he | he <;> rw [he] <;> trivial

/-! ## Lists -/

/-- Of a thread, in every state of every run: it is in one list at most, once; in a wait list it is suspended; in one of an
IPC object it is in one call, about this list, with an error; and when its call was granted it is not suspended. -/
theorem thread_lists (hb : Boot k0) (hr : KRun ok k0 ls k) (t : ThreadId) :
    (∀ h, (k.tlist h).count t ≤ 1) ∧ (∀ h h', t ∈ k.tlist h → t ∈ k.tlist h' → h = h') ∧
    (∀ h, h.isWait → t ∈ k.tlist h → k.suspended t = true) ∧
    (∀ h, h.obj.isSome → t ∈ k.tlist h →
      (k.thread t).error ≠ .eok ∧ ∃ f, (k.thread t).cont.filter (· ≠ .schedule) = [f] ∧ f.head = some h) ∧
    ∀ f h, (k.thread t).cont.filter (· ≠ .schedule) = [f] → f.head = some h → (k.thread t).error = .eok →
      k.suspended t = false := by
  obtain ⟨I, -⟩ := hr.waits_invariant (J := fun _ => True) hb trivial fun _ _ _ _ _ _ _ _ => trivial
  have hq := I.sched.queues
  refine ⟨fun h => List.nodup_iff_count_le_one.1 (hq.wf.nodup h) t, fun h h' => hq.wf.disjoint,
    fun h hw ht => hq.wait t h (by simp) hw ht, fun h hh ht => I.waiting.linked (mem_waits_list.2 ⟨hh, ht⟩),
    fun f h hf hh he => ?_⟩
  have hawake := I.waiting.awake (t := t) hf hh he
  rw [Ne, waits_suspended] at hawake
  exact Bool.eq_false_iff.2 hawake

theorem thread_lists_halfSent : 0 ∈ halfSent.tlist (.event 0) ∧ halfSent.suspended 0 = true :=
  ⟨halfSent_spec.2.1, (thread_lists boot_ten halfSent_run 0).2.2.1 (.event 0) (by decide) halfSent_spec.2.1⟩

/-! ## Events -/

/-- In every state of every run, who waits for an event asks for something that the bits of the event do not satisfy. -/
theorem event_waiters (hb : Boot k0) (hr : KRun ok k0 ls k) (i : EventId) (t : ThreadId) (ht : t ∈ k.tlist (.event i)) :
    Waits.Asks (k.thread t).eventInfo (k.thread t).eventSet ∧
      Waits.satisfied (k.thread t).eventInfo (k.thread t).eventSet (k.event i).set = false := by
  have h0 : Waits.Unmet i k0.waits := fun u hu => by
    rw [waits_list rfl, hb.tlist] at hu
    cases hu
  have hunmet := (hr.waits_invariant (J := Waits.Unmet i) hb h0 fun k ev r s' I hJ _ hst => hJ.step I.waiting hst).2
  exact hunmet t (by rw [waits_list rfl]; exact ht)

theorem event_waiters_halfSent :
    (halfSent.event 0).set = 1#32 ∧ Waits.satisfied (halfSent.thread 0).eventInfo (halfSent.thread 0).eventSet
      (halfSent.event 0).set = false :=
  ⟨halfSent_spec.2.2, (event_waiters boot_ten halfSent_run 0 0 halfSent_spec.2.1).2⟩

end Kernel

end RtThread
