import RtThread.Ipc.Quiet
import RtThread.Mutex.Refine

/-!
# Every step of the kernel is a step of the abstract state

- `Entered`: a caller goes on with an IPC object, from its call or after `rt_schedule` came back to it.
- One lemma for each function of `ipc.c`, then `step_waits` for every step.
- `KRun.waits_history`: what the steps of `Waits` keep holds along every run, from `Boot`.
-/

namespace RtThread

namespace Kernel

open Waits (Quiet Plain)

variable {k k0 k' : Kernel} {t u : ThreadId} {h d : ListHead} {ev : Ev} {f : Frame}

/-- The scheduler invariant, and that of the calls and the wait lists. -/
structure IpcInv (k : Kernel) : Prop where
  sched : k.SchedInv none
  waiting : k.waits.Waiting

/-! ## Callers -/

theorem calls_of_caller (hc : k.caller = some t) : k.waits.calls (.thread t) = [] :=
  calls_of_cont_nil (caller_eq_some.1 hc).2.1

/-- In `k0` the thread `t` is out of the call it is in in `k`, and goes on with the object of `h`. -/
structure Entered (k k0 : Kernel) (t : ThreadId) (h : ListHead) : Prop where
  sched : k0.SchedInv none
  waits : k0.waits = k.waits.setCalls (.thread t) []
  awake : k0.suspended t = false
  enters : k.waits.Enters (.thread t) h

theorem Entered.of_caller (I : k.IpcInv) (hc : k.caller = some t) (h : ListHead) : Entered k k t h := by
  obtain ⟨-, hcont, hs⟩ := caller_eq_some.1 hc
  have hcalls := calls_of_cont_nil hcont
  refine ⟨I.sched, ?_, hs, .inl hcalls⟩
  have hsame : { k.waits.waiter t with calls := [] } = k.waits.waiter t := by rw [← hcalls]
  exact (waits_modWaiter_same (f := fun x => { x with calls := [] }) hsame).symm

theorem waits_calls (k : Kernel) (c : Context) : k.waits.calls c = (k.frames c).filter (· ≠ .schedule) := by
  cases c <;> rfl

variable {fs : List Frame}

/-- The frames after an IPC call are calls of `rt_schedule`. -/
theorem IpcInv.calls_of_frames (I : k.IpcInv) {c : Context} (hc : k.frames c = f :: fs)
    (hf : f ≠ .schedule) : k.waits.calls c = [f] ∧ fs.filter (· ≠ .schedule) = [] := by
  have hcalls : k.waits.calls c = f :: fs.filter (· ≠ .schedule) := by
    rw [waits_calls, hc, List.filter_cons_of_pos (by simpa using hf)]
  have hle := I.waiting.calls_le c
  rw [hcalls, List.length_cons] at hle
  have hnil : fs.filter (· ≠ .schedule) = [] := List.length_eq_zero_iff.1 (by omega)
  exact ⟨by rw [hcalls, hnil], hnil⟩

theorem IpcInv.calls_of_cont (I : k.IpcInv) (hcont : (k.thread t).cont = f :: fs)
    (hf : f ≠ .schedule) : (k.waits.waiter t).calls = [f] ∧ fs.filter (· ≠ .schedule) = [] :=
  I.calls_of_frames (c := .thread t) hcont hf

theorem IpcInv.waits_pop (I : k.IpcInv) (hcont : (k.thread t).cont = f :: fs) (hf : f ≠ .schedule) :
    (k.setCont t fs).waits = k.waits.setCalls (.thread t) [] := by
  rw [waits_setCont, (I.calls_of_cont hcont hf).2]

theorem Entered.of_frame (I : k.IpcInv) (hrun : (k.thread t).stat = .running)
    (hcont : (k.thread t).cont = f :: fs) (hf : f.head = some h) (hh : h.retries) (he : (k.thread t).error = .eok) :
    Entered k (k.setCont t fs) t h := by
  have hne : f ≠ .schedule := by rintro rfl; cases hf
  refine ⟨I.sched.setCont t fs, I.waits_pop hcont hne, ?_,
    .inr ⟨hh, t, f, rfl, (I.calls_of_cont hcont hne).1, hf, he⟩⟩
  rw [suspended, setCont, modThread_thread_self, hrun]; rfl

namespace Entered

section

variable (E : Entered k k0 t h)

include E

theorem objects : k0.objects = k.objects := by
  have := congrArg Waits.objects E.waits
  simpa using this

theorem list : k0.waits.list = k.waits.list := by
  rw [E.waits, Waits.setCalls_list]

theorem notMem (d : ListHead) : t ∉ k.waits.list d := by
  rw [← E.list]; exact E.sched.notMem_waits E.awake d

theorem waits_setError (e : RtErr) :
    (k0.setError t e).waits = k.waits.modWaiter t fun x => { x with calls := [], error := e } := by
  rw [Kernel.waits_setError, E.waits]
  simp [Waits.setCalls, Waits.modWaiter]

theorem awake_setError (e : RtErr) : (k0.setError t e).suspended t = false := by
  rw [suspended, Kernel.setError, modThread_thread_self]
  exact E.awake

/-- A thread that finds nothing returns with an error. -/
theorem exit {r : Ret} {g : Waiter → Waiter} (hu : k.waits.Unavailable h (k.waits.waiter t))
    (ha : r.acts = false) (hr : r.obj = h.obj ∧ r.caller = some (.thread t))
    (hg : (g (k.waits.waiter t)).calls = []) (hk : k'.waits = k.waits.modWaiter t g) :
    Waits.Step k.waits (ev, some r) k'.waits := by
  rw [hk]
  rcases E.enters with hc | ⟨hh, v, f, hv, hc, hf, -⟩
  · refine .quiet (Quiet.idle ?_ ?_) fun x hx => ?_
    · rw [Waits.calls_thread] at hc; rw [hc]; exact .nil
    · rw [hg]; exact .nil
    · cases hx
      refine ⟨ha, fun c hc' => ?_, fun hn => by rw [hr.2] at hn; cases hn⟩
      rw [hr.2] at hc'
      rw [← Option.some.inj hc']; exact hc
  · obtain rfl := Context.thread.inj hv
    exact .fail ev hc hf hh E.notMem (fun _ => hu) hg ha hr

end

/-- A thread suspends itself in a wait list, or fails to. -/
theorem block (ev : Ev) (E : Entered k k0 t h) {k1 : Kernel} {g : Waiter → Waiter} (hk1 : k1.SchedInv none)
    (hw1 : k1.waits = k.waits.modWaiter t g) (hs1 : k1.suspended t = false) (flag : IpcFlag) (suspendFlag : SuspendFlag)
    (hh : h.obj.isSome)
    (hu : ∀ x : Waiter, x.eventSet = (g (k.waits.waiter t)).eventSet → x.eventInfo = (g (k.waits.waiter t)).eventInfo →
      k.waits.Unavailable h x) (he : (g (k.waits.waiter t)).error ≠ .eok) :
    ((k1.ipcListSuspend h t flag suspendFlag).2 ≠ .eok ∧ (k1.ipcListSuspend h t flag suspendFlag).1 = k1) ∨
    ((k1.ipcListSuspend h t flag suspendFlag).2 = .eok ∧ ∀ (k2 : Kernel) (f : Frame),
      k2.waits = (k1.ipcListSuspend h t flag suspendFlag).1.waits → f.head = some h → k.waits.Fits f →
        Waits.Step k.waits (ev, none) (k2.setCont t [.schedule, f]).waits) := by
  rcases hk1.ipcListSuspend_cases hs1 flag suspendFlag (ListHead.isWait_of_obj hh) with hfail | ⟨hok, k3, xs, hw3, hxs, e⟩
  · exact .inl hfail
  · refine .inr ⟨hok, fun k2 f hk2 hf hfit => ?_⟩
    have hf0 : [Frame.schedule, f].filter (· ≠ .schedule) = [f] := by
      have hne : f ≠ .schedule := by rintro rfl; cases hf
      simp [hne]
    have hlist : k1.tlist h = k.waits.list h := by
      rw [← waits_list hh, hw1]; rfl
    have key : (k2.setCont t [.schedule, f]).waits =
        k.waits.block t h { g (k.waits.waiter t) with phase := .suspended, calls := [f] } xs := by
      rw [waits_setCont, hf0, hk2, e, waits_update_tlist hh, hw3, hw1]
      simp [Waits.setCalls, Waits.block, Waits.modWaiter]
    rw [key]
    exact .block ev E.enters hf (hu _ rfl rfl) rfl hfit he rfl (by rw [← hlist]; exact hxs)

end Entered

/-- A step of the abstract state whose call returns what `r` says. -/
abbrev Shows (k : Kernel) (ev : Ev) (r : Option Ret) (k' : Kernel) : Prop := Waits.Step k.waits (ev, r) k'.waits

variable {r : Option Ret} {timeout : BitVec 32} {flag : SuspendFlag} {b : MailboxId} {c : Context} {fs : List Frame}
  {q : MqId} {msg size fuel : Nat} {buffer : List (BitVec 8)} {urgent : Bool}

theorem Shows.of_quiet (hq : Quiet ev k.waits k'.waits)
    (hr : ∀ x ∈ r, x.acts = false ∧ (∀ c ∈ x.caller, k.waits.calls c = []) ∧
      (x.caller = none → x.obj.isSome → k'.waits = k.waits)) : Shows k ev r k' :=
  .quiet hq fun x hx => ⟨(hr x hx).1, (hr x hx).2.1, (hr x hx).2.2⟩

theorem wakeFirst_of_nil (hd : d.obj.isSome) (ht : k.tlist d = []) : k.waits.wakeFirst d = k.waits := by
  unfold Waits.wakeFirst
  rw [waits_list hd, ht]

/-- The end of a call that wakes the first of the waiters, if there is one. -/
theorem Shows.resumeFirst {β : Type} {r : Ret} {a b : β} (k' : Kernel) (f : β → Option Ret) (hk : k'.SchedInv none)
    (hd : d.obj.isSome) (ha : f a = some r) (hb : f b = some r) (hst : Waits.Step k.waits (ev, some r) (k'.waits.wakeFirst d)) :
    Shows k ev (f (if k'.tlist d ≠ [] then (k'.ipcListResume d, a) else (k', b)).2)
      (if k'.tlist d ≠ [] then (k'.ipcListResume d, a) else (k', b)).1 := by
  split
  · rw [ha, Shows, hk.waits_ipcListResume hd]
    exact hst
  · rename_i hnil
    rw [hb, Shows, ← wakeFirst_of_nil hd (not_not.1 hnil)]
    exact hst

theorem waits_startTimer (k : Kernel) (t : ThreadId) (p : Prop) [Decidable p] :
    (if p then k.threadTimerStart t else k).waits = k.waits := by
  split
  · exact waits_threadTimerStart
  · rfl

/-! ## Semaphores -/

theorem IpcInv.rtSemTake (I : k.IpcInv) (hc : k.caller = some t) (i : SemId) (timeout : BitVec 32)
    (flag : SuspendFlag) : Shows k ev ((k.rtSemTake t i timeout flag).2.map fun err => .semTake t i err)
      (k.rtSemTake t i timeout flag).1 := by
  obtain ⟨-, hcont, hs⟩ := caller_eq_some.1 hc
  have hcalls := calls_of_cont_nil hcont
  unfold Kernel.rtSemTake
  dsimp only
  split
  · rename_i hv
    exact .sem ev (.take hcalls hv)
  · rename_i hv
    split
    · exact .of_quiet (.refl _) (by simp [Ret.acts, Ret.caller, calls_of_caller hc])
    · have hu (x : Waiter) : k.waits.Unavailable (.sem i) x := Nat.eq_zero_of_not_pos hv
      have E := Entered.of_caller I hc (.sem i)
      rcases E.block ev (I.sched.setError t .eintr) (E.waits_setError .eintr) (E.awake_setError .eintr) (k.sem i).flag
        flag rfl (fun x _ _ => hu x) (by simp) with
        ⟨he, e⟩ | ⟨he, hstep⟩
      · rw [if_pos he]
        refine .of_quiet ?_ (by simp [Ret.acts, Ret.caller, calls_of_caller hc, he])
        rw [e]
        exact quiet_setError (plain_of_cont_nil hcont) _
      · rw [if_neg (by simp [he])]
        exact hstep _ _ (waits_startTimer _ _ _) rfl trivial

theorem IpcInv.rtSemRelease (I : k.IpcInv) (i : SemId) :
    Shows k ev (some (.semRelease i (k.rtSemRelease i).2.1)) (k.rtSemRelease i).1 := by
  unfold Kernel.rtSemRelease
  dsimp only
  split
  · rename_i hne
    rw [Shows, I.sched.waits_ipcListResume rfl, Waits.wakeFirst]
    obtain ⟨t, ts, hw⟩ := List.exists_cons_of_ne_nil hne
    rw [← waits_list rfl] at hw
    rw [hw]
    exact .sem ev (.wake hw)
  · rename_i hnil
    rw [not_not, ← waits_list rfl] at hnil
    split
    · rename_i hv
      exact .sem ev (.release hnil hv)
    · exact .of_quiet (.refl _) (by simp [Ret.acts, Ret.caller])

/-! ## Events -/

theorem IpcInv.rtEventRecv (I : k.IpcInv) (hc : k.caller = some t) {i : EventId} {want : BitVec 32} {option : BitVec 8}
    {r : Kernel × Option RtErr} (hk : k.rtEventRecv t i want option timeout flag = some r) :
    Shows k ev (r.2.map fun err => .eventRecv t i err (r.1.thread t).eventSet) r.1 := by
  obtain ⟨-, hcont, hs⟩ := caller_eq_some.1 hc
  have hcalls := calls_of_cont_nil hcont
  have hq (e : RtErr) : Quiet ev k.waits (k.setError t e).waits := quiet_setError (plain_of_cont_nil hcont) e
  unfold Kernel.rtEventRecv at hk
  split at hk
  · cases hk
    exact .of_quiet (.refl _) (by simp [Ret.acts, Ret.caller, calls_of_caller hc])
  · rename_i hwant
    obtain ⟨hopt, hk⟩ := Option.ite_none_left_eq_some.1 hk
    have hx : (k.setError t .eintr).event i = k.event i := rfl
    dsimp only at hk
    rw [hx] at hk
    change (if Waits.satisfied option want (k.event i).set = true then _ else _) = some r at hk
    split at hk
    · rename_i hsat
      have hw1 : waits (((k.setError t .eintr).setError t .eok).modThread t fun y =>
          { y with eventSet := (k.event i).set &&& want, eventInfo := option }) =
          k.waits.modWaiter t fun x =>
            { x with error := .eok, eventSet := (k.event i).set &&& want, eventInfo := option } := by
        rw [waits_modThread (g := fun x => { x with eventSet := (k.event i).set &&& want, eventInfo := option }) rfl,
          waits_setError, waits_setError]
        simp [Waits.modWaiter]
      have ht1 : ((((k.setError t .eintr).setError t .eok).modThread t fun y =>
          { y with eventSet := (k.event i).set &&& want, eventInfo := option }).thread t).eventSet =
            (k.event i).set &&& want := by rw [modThread_thread_self]
      have hstep := @Waits.EventStep.recv i k.waits t want option
        { k.waits.waiter t with error := .eok, eventSet := (k.event i).set &&& want, eventInfo := option } hcalls hcalls hsat
      generalize (((k.setError t .eintr).setError t .eok).modThread t fun y =>
          { y with eventSet := (k.event i).set &&& want, eventInfo := option }) = k1 at hk hw1 ht1
      split at hk
      · rename_i hclear
        cases hk
        rw [waits_objects, if_pos hclear] at hstep
        change Waits.Step k.waits (ev, some (.eventRecv t i .eok (k1.thread t).eventSet)) (k1.waits.setEvent i _)
        rw [ht1, hw1]
        exact .event ev hstep
      · rename_i hclear
        cases hk
        rw [waits_objects, if_neg hclear] at hstep
        change Waits.Step k.waits (ev, some (.eventRecv t i .eok (k1.thread t).eventSet)) k1.waits
        rw [ht1, hw1]
        exact .event ev ((k.waits.modWaiter t _).setEvent_self i ▸ hstep)
    · rename_i hsat
      split at hk
      · cases hk
        exact .of_quiet ((hq .eintr).trans (quiet_setError ((hq .eintr).plain (plain_of_cont_nil hcont)) .etimeout))
          (by simp [Ret.acts, Ret.caller, calls_of_caller hc])
      · have hw1 : waits ((k.setError t .eintr).modThread t fun y => { y with eventSet := want, eventInfo := option }) =
            k.waits.modWaiter t fun x => { x with error := .eintr, eventSet := want, eventInfo := option } := by
          rw [waits_modThread (g := fun x => { x with eventSet := want, eventInfo := option }) rfl, waits_setError]
          simp [Waits.modWaiter]
        have hk1 : SchedInv ((k.setError t .eintr).modThread t fun y => { y with eventSet := want, eventInfo := option })
            none := (I.sched.setError t .eintr).modThread_congr rfl
        have hs1 : suspended ((k.setError t .eintr).modThread t fun y =>
            { y with eventSet := want, eventInfo := option }) t = false := by
          rw [suspended, modThread_thread_self, Kernel.setError, modThread_thread_self]; exact hs
        have hu (x : Waiter) (hset : x.eventSet = want) (hinfo : x.eventInfo = option) :
            k.waits.Unavailable (.event i) x := by
          change Waits.Asks x.eventInfo x.eventSet ∧ Waits.satisfied x.eventInfo x.eventSet (k.event i).set = false
          rw [hset, hinfo]
          exact ⟨⟨hwant, hopt⟩, by simpa using hsat⟩
        rcases (Entered.of_caller I hc (.event i)).block ev hk1 hw1 hs1 (k.event i).flag flag
          rfl hu (by simp) with ⟨he, e⟩ | ⟨he, hstep⟩
        · rw [if_pos he] at hk
          cases hk
          refine .of_quiet ?_ (by simp [Ret.acts, Ret.caller, calls_of_caller hc, he])
          rw [e, hw1]
          exact Quiet.idle (plain_of_cont_nil hcont) (plain_of_cont_nil hcont)
        · rw [if_neg (by simp [he])] at hk
          cases hk
          exact hstep _ _ (waits_startTimer _ _ _) rfl trivial

theorem waits_eventResume (hs : k.suspended t) (i : EventId) : (k.eventResume i t).waits =
    (k.waits.setEvent i { k.event i with
      set := if (k.thread t).eventInfo &&& eventFlagClear ≠ 0#8 then (k.event i).set &&& ~~~(k.thread t).eventSet
        else (k.event i).set }).wake t .eok := by
  have resume (k1 : Kernel) (hs1 : k1.suspended t) :
      ((k1.rtThreadResume t).1.setError t .eok).waits = k1.waits.wake t .eok := by
    rw [waits_setError, waits_rtThreadResume hs1]
    simp [Waits.wake, Waits.modWaiter]
  unfold eventResume
  split
  · exact resume _ hs
  · rw [resume _ hs]
    exact congrArg (Waits.wake · t .eok) (k.waits.setEvent_self i).symm

/-- The loop of `rt_event_send`. -/
theorem waits_eventSendLoop (i : EventId) (ts : List ThreadId) (hts : ts.Nodup) (hs : ∀ t ∈ ts, k.suspended t)
    (need : Bool) : Waits.sendLoop i ts k.waits =
      ((eventSendLoop i ts k need).1.waits, (eventSendLoop i ts k need).2.isSome) := by
  induction ts generalizing k need with
  | nil => rfl
  | cons t ts ih =>
    obtain ⟨hmem, hts⟩ := List.nodup_cons.1 hts
    have hst := hs t (by simp)
    have hsts (u : ThreadId) (hu : u ∈ ts) : k.suspended u := hs u (by simp [hu])
    -- a waiter that is resumed leaves the others suspended
    have resumed (k1 : Kernel) (x : Waiter) (hk1 : k1.waits = k.waits.modWaiter t fun _ => x)
        (hx : x.phase = .suspended) (hi : x.eventInfo = (k.thread t).eventInfo) (need : Bool) :
        Waits.sendLoop i ts ((k1.waits.setEvent i { k.event i with
          set := if (k.thread t).eventInfo &&& eventFlagClear ≠ 0#8 then (k.event i).set &&& ~~~x.eventSet
            else (k.event i).set }).wake t .eok) =
          ((eventSendLoop i ts (k1.eventResume i t) need).1.waits,
            (eventSendLoop i ts (k1.eventResume i t) need).2.isSome) := by
      have hxt : (k1.thread t).waiter = x := by rw [← waits_waiter, hk1, Waits.modWaiter_waiter_self]
      have hs1 : k1.suspended t := waits_suspended.1 (by rw [waits_waiter, hxt]; exact hx)
      have he : k1.event = k.event := congrArg (fun s : Waits => s.objects.event) hk1
      have hset : (k1.thread t).eventSet = x.eventSet := congrArg Waiter.eventSet hxt
      have hinfo : (k1.thread t).eventInfo = (k.thread t).eventInfo := (congrArg Waiter.eventInfo hxt).trans hi
      have hres := waits_eventResume hs1 i
      rw [he, hset, hinfo] at hres
      rw [← hres]
      refine ih hts (fun u hu => ?_) need
      have hne : u ≠ t := by rintro rfl; exact hmem hu
      rw [← waits_suspended, hres, Waits.wake_waiter_of_ne _ _ hne, Waits.setEvent_waiter, hk1,
        Waits.modWaiter_waiter_of_ne _ _ hne]
      exact waits_suspended.2 (hsts u hu)
    have hphase : (k.thread t).waiter.phase = .suspended := waits_suspended.2 hst
    unfold eventSendLoop Waits.sendLoop
    simp only [waits_waiter, waits_objects]
    change (if (k.thread t).eventInfo &&& eventFlagAnd = 0#8 ∧ (k.thread t).eventInfo &&& eventFlagOr = 0#8 then _
      else if Waits.satisfied (k.thread t).eventInfo (k.thread t).eventSet (k.event i).set = true then _ else _) = _
    by_cases hA : (k.thread t).eventInfo &&& eventFlagAnd = 0#8
    · rw [if_neg (not_not.2 hA)]
      by_cases hO : (k.thread t).eventInfo &&& eventFlagOr = 0#8
      · rw [if_neg (not_not.2 hO), if_pos (And.intro hA hO)]; rfl
      · have hsat : Waits.satisfied (k.thread t).eventInfo (k.thread t).eventSet (k.event i).set =
            decide ((k.thread t).eventSet &&& (k.event i).set ≠ 0#32) := by
          rw [Waits.satisfied, if_neg (not_not.2 hA), BitVec.and_comm]
        rw [if_neg fun h => hO h.2, if_pos hO, hsat]
        by_cases hgot : (k.thread t).eventSet &&& (k.event i).set = 0#32
        · rw [if_neg (by simp [hgot]), if_neg (not_not.2 hgot)]
          exact ih hts hsts need
        · rw [if_pos (by simpa using hgot), if_pos hgot]
          have hk1 : (k.modThread t fun x => { x with eventSet := x.eventSet &&& (k.event i).set }).waits =
              k.waits.modWaiter t fun _ => { (k.thread t).waiter with
                eventSet := (k.thread t).eventSet &&& (k.event i).set } := waits_modThread rfl
          refine Eq.trans (congrArg (Waits.sendLoop i ts) ?_) (resumed _ _ hk1 hphase rfl true)
          rw [hk1]
          have hA' : (k.thread t).waiter.eventInfo &&& eventFlagAnd = 0#8 := hA
          simp only [hA', ne_eq, not_true_eq_false, if_false]
          rfl
    · rw [if_pos hA, if_neg fun h => hA h.1]
      have hsat : Waits.satisfied (k.thread t).eventInfo (k.thread t).eventSet (k.event i).set =
          decide ((k.thread t).eventSet &&& (k.event i).set = (k.thread t).eventSet) := by
        rw [Waits.satisfied, if_pos hA, BitVec.and_comm]
      rw [hsat]
      by_cases hgot : (k.thread t).eventSet &&& (k.event i).set = (k.thread t).eventSet
      · rw [if_pos (by simpa using hgot), if_pos hgot]
        have hk1 : k.waits = k.waits.modWaiter t fun _ => (k.thread t).waiter :=
          (waits_modWaiter_same (f := fun _ => (k.thread t).waiter) rfl).symm
        refine Eq.trans (congrArg (Waits.sendLoop i ts) ?_) (resumed k _ hk1 hphase rfl true)
        have hA' : ¬(k.thread t).waiter.eventInfo &&& eventFlagAnd = 0#8 := hA
        simp only [hA', ne_eq, not_false_eq_true, if_true]
        rw [waits_modWaiter_same (f := fun x => { x with eventSet := (k.thread t).waiter.eventSet }) rfl]
        rfl
      · rw [if_neg (by simpa using hgot), if_neg hgot]
        exact ih hts hsts need

theorem IpcInv.rtEventSend (I : k.IpcInv) (i : EventId) (set : BitVec 32) :
    Shows k ev (some (.eventSend i (k.rtEventSend i set).2.1)) (k.rtEventSend i set).1 := by
  unfold Kernel.rtEventSend
  split
  · exact .of_quiet (.refl _) (by simp [Ret.acts, Ret.caller])
  · rename_i h0
    have h1 := waits_eventSendLoop (k := { k with
      event := Function.update k.event i { k.event i with set := (k.event i).set ||| set } }) i (k.tlist (.event i))
      (I.sched.queues.wf.nodup _) (fun t ht => I.sched.queues.wait t (.event i) (by simp) rfl ht) false
    rw [← waits_list (k := k) rfl] at h1
    have hstep := Waits.EventStep.send (s := k.waits) (i := i) h0 h1
    dsimp only
    rw [waits_list rfl] at hstep
    generalize eventSendLoop i (k.tlist (.event i)) { k with
      event := Function.update k.event i { k.event i with set := (k.event i).set ||| set } } false = r at hstep
    obtain ⟨k1, need | need⟩ := r
    · exact .event ev hstep
    · exact .event ev hstep

/-! ## Mailboxes -/

theorem Entered.mbSendWaitLoop (E : Entered k k0 t (.mbSend b)) (value : BitVec 64)
    (timeout tickDelta : BitVec 32) (flag : SuspendFlag) :
    Shows k ev ((k0.mbSendWaitLoop t b value timeout tickDelta flag).2.1.map fun err => .mbSendWait t b value err)
      (k0.mbSendWaitLoop t b value timeout tickDelta flag).1 := by
  have hmb : k0.mailbox b = k.mailbox b := congrArg (fun x : Objects => x.mailbox b) E.objects
  unfold Kernel.mbSendWaitLoop
  dsimp only
  rw [hmb]
  split
  · rename_i hfull
    have hu (x : Waiter) : k.waits.Unavailable (.mbSend b) x := hfull
    have hw1 := E.waits_setError .eintr
    split
    · exact E.exit (hu _) (by simp [Ret.acts]) ⟨rfl, rfl⟩ rfl hw1
    · rcases E.block ev (E.sched.setError t .eintr) hw1 (E.awake_setError .eintr) (k.mailbox b).flag flag rfl
        (fun x _ _ => hu x) (by simp) with ⟨he, e⟩ | ⟨he, hstep⟩
      · rw [if_pos he]
        exact E.exit (hu _) (by simp [Ret.acts, he]) ⟨rfl, rfl⟩ rfl (by rw [e]; exact hw1)
      · rw [if_neg (by simp [he])]
        exact hstep _ _ (waits_startTimer _ _ _) rfl trivial
  · rename_i hn
    split
    · rename_i he
      refine Shows.resumeFirst (d := .mbRecv b) (r := .mbSendWait t b value .eok) (a := (some .eok, true))
        (b := (some .eok, false)) { k0 with mailbox := Function.update k0.mailbox b _ }
        (fun x => x.1.map fun err => .mbSendWait t b value err) (E.sched.setMailbox _) rfl rfl rfl ?_
      have hstep := @Waits.MailboxStep.send b k.waits t value E.enters hn he
      rw [← E.waits] at hstep
      exact .mailbox ev hstep
    · rename_i he
      have hstep := @Waits.MailboxStep.overflow b k.waits t value E.enters hn (not_lt.1 he)
      rw [← E.waits] at hstep
      exact .mailbox ev hstep

theorem Entered.mbRecvLoop (E : Entered k k0 t (.mbRecv b)) (timeout tickDelta : BitVec 32) (flag : SuspendFlag) :
    Shows k ev ((k0.mbRecvLoop t b timeout tickDelta flag).2.1.map fun v => .mbRecv t b v.1 v.2)
      (k0.mbRecvLoop t b timeout tickDelta flag).1 := by
  have hmb : k0.mailbox b = k.mailbox b := congrArg (fun x : Objects => x.mailbox b) E.objects
  unfold Kernel.mbRecvLoop
  dsimp only
  rw [hmb]
  split
  · rename_i hempty
    have hu (x : Waiter) : k.waits.Unavailable (.mbRecv b) x := hempty
    split
    · refine E.exit (g := fun x => { x with calls := [], error := .etimeout }) (hu _) (by simp [Ret.acts]) ⟨rfl, rfl⟩ rfl ?_
      rw [Kernel.waits_setError, E.waits_setError]
      simp [Waits.modWaiter]
    · rcases E.block ev (E.sched.setError t .eintr) (E.waits_setError _) (E.awake_setError .eintr) (k.mailbox b).flag
        flag rfl (fun x _ _ => hu x) (by simp) with ⟨he, e⟩ | ⟨he, hstep⟩
      · rw [if_pos he]
        exact E.exit (hu _) (by simp [Ret.acts, he]) ⟨rfl, rfl⟩ rfl (by rw [e]; exact E.waits_setError _)
      · rw [if_neg (by simp [he])]
        exact hstep _ _ (waits_startTimer _ _ _) rfl trivial
  · rename_i hn
    refine Shows.resumeFirst (d := .mbSend b)
      (r := .mbRecv t b .eok ((k.mailbox b).msgPool (k.mailbox b).outOffset))
      (a := (some (.eok, (k.mailbox b).msgPool (k.mailbox b).outOffset), true))
      (b := (some (.eok, (k.mailbox b).msgPool (k.mailbox b).outOffset), false))
      { k0 with mailbox := Function.update k0.mailbox b _ }
      (fun x => x.1.map fun v => .mbRecv t b v.1 v.2) (E.sched.setMailbox _) rfl rfl rfl ?_
    have hstep := Waits.MailboxStep.recv (s := k.waits) (i := b) E.enters hn
    rw [← E.waits] at hstep
    exact .mailbox ev hstep

theorem IpcInv.rtMbUrgent (I : k.IpcInv) (b : MailboxId) (value : BitVec 64) :
    Shows k ev (some (.mbUrgent b value (k.rtMbUrgent b value).2.1)) (k.rtMbUrgent b value).1 := by
  unfold Kernel.rtMbUrgent
  dsimp only
  split
  · exact .of_quiet (.refl _) (by simp [Ret.acts, Ret.caller])
  · rename_i hn
    refine Shows.resumeFirst (d := .mbRecv b) (r := .mbUrgent b value .eok) (a := (.eok, true)) (b := (.eok, false))
      { k with mailbox := Function.update k.mailbox b _ } (fun x => some (.mbUrgent b value x.1)) (I.sched.setMailbox _)
      rfl rfl rfl ?_
    exact .mailbox ev (@Waits.MailboxStep.urgent b k.waits value hn)

/-! ## Message queues -/

theorem waits_modMq (q : MqId) (f : MessageQueue → MessageQueue) : (k.modMq q f).waits = k.waits.setMq q (f (k.mq q)) := rfl

theorem mq_of_setCalls (hw : k0.waits = k.waits.setCalls c fs) (q : MqId) : k0.mq q = k.mq q := by
  have h1 := congrArg Waits.objects hw
  rw [Waits.setCalls_objects] at h1
  exact congrArg (fun x : Objects => x.mq q) h1

/-- The first section of a call that sends. -/
theorem waits_mqTake (hw : k0.waits = k.waits.setCalls c []) : (k0.mqTake c q msg buffer urgent).waits =
      (k.waits.setMq q (Waits.mqTaken (k.mq q) msg)).setCalls c [.mqCopyIn q msg buffer urgent] := by
  have hmq := mq_of_setCalls hw q
  have hf : [Frame.mqCopyIn q msg buffer urgent].filter (· ≠ .schedule) = [.mqCopyIn q msg buffer urgent] := by simp
  rw [mqTake, waits_setFrames, hf, waits_modMq, hmq, hw, Waits.setCalls_setMq_setCalls]
  rfl

/-- The first section of a call that receives. -/
theorem waits_mqDetach (hw : k0.waits = k.waits.setCalls c []) : (k0.mqDetach c q msg size).waits =
      (k.waits.setMq q (Waits.mqDetached (k.mq q) msg)).setCalls c [.mqCopyOut q msg size] := by
  have hmq := mq_of_setCalls hw q
  have hf : [Frame.mqCopyOut q msg size].filter (· ≠ .schedule) = [.mqCopyOut q msg size] := by simp
  rw [mqDetach, waits_setFrames, hf, waits_modMq, hmq, hw, Waits.setCalls_setMq_setCalls]
  rfl

theorem Entered.mqSendWaitLoop (E : Entered k k0 t (.mqSend q))
    (hfit : buffer.length ≤ (k.mq q).msgSize) (timeout tickDelta : BitVec 32) (flag : SuspendFlag) :
    Shows k ev ((k0.mqSendWaitLoop t q buffer timeout tickDelta flag).2.map fun err => .mqSend (.thread t) q buffer false err)
      (k0.mqSendWaitLoop t q buffer timeout tickDelta flag).1 := by
  have hmq : k0.mq q = k.mq q := congrArg (fun x : Objects => x.mq q) E.objects
  unfold Kernel.mqSendWaitLoop
  rw [hmq]
  split
  · rename_i hfull
    have hu (x : Waiter) : k.waits.Unavailable (.mqSend q) x := hfull
    have hw1 := E.waits_setError .eintr
    split
    · exact E.exit (hu _) (by simp [Ret.acts]) ⟨rfl, rfl⟩ rfl hw1
    · rcases E.block ev (E.sched.setError t .eintr) hw1 (E.awake_setError .eintr)
        ((k0.setError t .eintr).mq q).flag flag rfl (fun x _ _ => hu x) (by simp) with ⟨he, e⟩ | ⟨he, hstep⟩
      · rw [if_pos he]
        exact E.exit (hu _) (by simp [Ret.acts, he]) ⟨rfl, rfl⟩ rfl (by rw [e]; exact hw1)
      · rw [if_neg (by simp [he])]
        exact hstep _ _ (waits_startTimer _ _ _) rfl hfit
  · rename_i msg hmsg
    rw [Shows, waits_mqTake E.waits]
    exact .mq ev (.take E.enters hmsg hfit)

theorem Entered.mqRecvLoop (E : Entered k k0 t (.mqRecv q)) {tickDelta : BitVec 32}
    {r : Kernel × MqRecvEnd} (hk : k0.mqRecvLoop t q size timeout tickDelta flag = some r) :
    Shows k ev (mqRecvRet (.thread t) q r.2) r.1 := by
  have hmq : k0.mq q = k.mq q := congrArg (fun x : Objects => x.mq q) E.objects
  unfold Kernel.mqRecvLoop at hk
  rw [hmq] at hk
  split at hk
  · rename_i hempty
    have hu (x : Waiter) : k.waits.Unavailable (.mqRecv q) x := hempty
    split at hk
    · cases hk
      refine E.exit (g := fun x => { x with calls := [], error := .etimeout }) (hu _) (by simp [Ret.acts]) ⟨rfl, rfl⟩ rfl ?_
      rw [Kernel.waits_setError, E.waits_setError]
      simp [Waits.modWaiter]
    · rcases E.block ev (E.sched.setError t .eintr) (E.waits_setError _) (E.awake_setError .eintr)
        ((k0.setError t .eintr).mq q).flag flag rfl (fun x _ _ => hu x) (by simp) with ⟨he, e⟩ | ⟨he, hstep⟩
      · rw [if_pos he] at hk
        cases hk
        exact E.exit (hu _) (by simp [Ret.acts, he]) ⟨rfl, rfl⟩ rfl (by rw [e]; exact E.waits_setError _)
      · rw [if_neg (by simp [he])] at hk
        cases hk
        exact hstep _ _ (waits_startTimer _ _ _) rfl trivial
  · rename_i hn
    obtain ⟨msg, hmsg, rfl⟩ := Option.map_eq_some_iff.1 hk
    change Waits.Step k.waits (ev, some (.mqDetach (.thread t) q)) (k0.mqDetach (.thread t) q msg size).waits
    rw [waits_mqDetach E.waits]
    exact .mq ev (.detach E.enters hn hmsg)

/-- The second section of a call that sends. -/
theorem Shows.mqLink (hc : k.waits.calls c = [.mqLink q msg buffer urgent]) (hk0 : k0.SchedInv none)
    (hw : k0.waits = k.waits.setCalls c []) :
    Shows k ev (some (.mqSend c q buffer urgent (k0.mqLink q msg urgent).2.1)) (k0.mqLink q msg urgent).1 := by
  have hmq := mq_of_setCalls hw q
  have hw1 : (k0.modMq q fun x => mqLinkMsg x msg urgent).waits =
      (k.waits.setCalls c []).setMq q (mqLinkMsg (k.mq q) msg urgent) := by
    rw [waits_modMq, hmq, hw]
  have hq1 : (k0.modMq q fun x => mqLinkMsg x msg urgent).mq q = mqLinkMsg (k.mq q) msg urgent := by
    simp [modMq, hmq]
  have he1 : (mqLinkMsg (k.mq q) msg urgent).entry = (k.mq q).entry := by
    unfold mqLinkMsg
    split <;> rfl
  have hk1 := hk0.modMq q fun x => mqLinkMsg x msg urgent
  unfold Kernel.mqLink
  dsimp only
  generalize k0.modMq q (fun x => mqLinkMsg x msg urgent) = k1 at hw1 hq1 hk1
  rw [hq1, he1]
  split
  · rename_i he
    refine Shows.resumeFirst (d := .mqRecv q) (r := .mqSend c q buffer urgent .eok) (a := (.eok, true))
      (b := (.eok, false)) (k1.modMq q _) (fun x => some (.mqSend c q buffer urgent x.1)) (hk1.modMq q _) rfl rfl rfl ?_
    rw [waits_modMq, hw1, hq1, he1, Waits.setMq_setMq]
    exact .mq ev (.link hc he)
  · rename_i he
    rw [Shows, hw1]
    exact .mq ev (.overflow hc (not_lt.1 he))

/-- The second section of a call that receives. -/
theorem Shows.mqFree
    (hc : k.waits.calls c = [.mqFree q msg buffer]) (hk0 : k0.SchedInv none) (hw : k0.waits = k.waits.setCalls c []) :
    Shows k ev (some (.mqRecv c q .eok buffer)) (k0.mqFree q msg).1 := by
  have hmq := mq_of_setCalls hw q
  refine Shows.resumeFirst (d := .mqSend q) (r := .mqRecv c q .eok buffer) (a := true) (b := false) (k0.modMq q _)
    (fun _ => some (.mqRecv c q .eok buffer)) (hk0.modMq q _) rfl rfl rfl ?_
  rw [waits_modMq, hmq, hw]
  exact .mq ev (.free hc)

theorem IpcInv.waits_resumeAll (I : k.IpcInv) (q : MqId) :
    ((k.ipcListResumeAll (.mqRecv q)).ipcListResumeAll (.mqSend q)).waits =
      (k.waits.wakeAll (.mqRecv q)).wakeAll (.mqSend q) := by
  have hk1 := I.sched.ipcListResumeAll (.mqRecv q)
  rw [hk1.waits_ipcListResumeAll rfl, I.sched.waits_ipcListResumeAll rfl]

theorem IpcInv.mq_resumeAll (I : k.IpcInv) (q : MqId) :
    ((k.ipcListResumeAll (.mqRecv q)).ipcListResumeAll (.mqSend q)).mq q = k.mq q := by
  have h1 := congrArg Waits.objects (I.waits_resumeAll q)
  rw [Waits.wakeAll_objects, Waits.wakeAll_objects] at h1
  exact congrArg (fun x : Objects => x.mq q) h1

theorem IpcInv.rtMqControlReset (I : k.IpcInv)
    (hk : Kernel.rtMqControlReset fuel k q = some k') : Shows k ev (some (.mqReset q)) k' := by
  obtain ⟨x, hx, rfl⟩ := Option.map_eq_some_iff.1 hk
  rw [I.mq_resumeAll] at hx
  rw [Shows, waits_modMq, I.waits_resumeAll]
  exact .mq ev (.reset hx)

/-! ## Frames -/

theorem Shows.needSchedule (h : Shows k ev r k') (hk : k'.SchedInv none) (isr need : Bool) :
    Shows k ev r (k'.needSchedule isr need) := by
  rw [Shows, hk.waits_needSchedule]
  exact h

section

variable (I : k.IpcInv) {r : Kernel × Option Ret × Bool} (hc : k.waits.calls c = [f])
  (hfs : fs.filter (· ≠ .schedule) = []) (hk : k.mqFrame c fs f = some r)

include I hc hfs hk

/-- The copies and the second sections of the message queue functions. -/
theorem IpcInv.mqFrame : Shows k ev r.2.1 r.1 ∧ r.1.SchedInv none := by
  have hw : (k.setFrames c fs).waits = k.waits.setCalls c [] := by rw [waits_setFrames, hfs]
  have hk0 := I.sched.setFrames c fs
  have hcons (g : Frame) (hg : g ≠ .schedule) : (g :: fs).filter (· ≠ .schedule) = [g] := by
    rw [List.filter_cons_of_pos (by simpa using hg), hfs]
  cases f with
  | mqCopyIn q msg buffer urgent =>
    cases hk
    refine ⟨?_, (I.sched.modMq q _).setFrames c _⟩
    rw [Shows, waits_setFrames, hcons _ (by simp), Kernel.mqCopyIn, waits_modMq]
    exact .mq ev (.copyIn hc)
  | mqLink q msg buffer urgent =>
    cases hk
    exact ⟨.mqLink hc hk0 hw, hk0.mqLink q msg urgent⟩
  | mqCopyOut q msg size =>
    cases hk
    refine ⟨?_, I.sched.setFrames c _⟩
    rw [Shows, waits_setFrames, hcons _ (by simp)]
    exact .mq ev (.copyOut hc)
  | mqFree q msg buffer =>
    cases hk
    exact ⟨.mqFree hc hk0 hw, hk0.mqFree q msg⟩
  | _ => cases hk

theorem IpcInv.mqFrameSchedule (isr : Bool) : Shows k ev r.2.1 (r.1.needSchedule isr r.2.2) := by
  obtain ⟨hstep, hk'⟩ := I.mqFrame hc hfs hk
  exact hstep.needSchedule hk' isr _

end

/-- The current thread runs the next of its frames. -/
theorem IpcInv.runFrame (I : k.IpcInv) (hcont : (k.thread t).cont = f :: fs)
    (hs : f = .schedule ∨ (k.thread t).stat = .running) {r : Kernel × Option Ret}
    (hk : Kernel.runFrame fuel k t fs f = some r) : Shows k ev r.2 r.1 := by
  by_cases hf : f = .schedule
  · subst hf
    cases hk
    have hsame : (k.setCont t fs).waits = k.waits := by
      refine waits_setCont_same ?_
      rw [hcont]; rfl
    refine .of_quiet (.of_eq ?_) (by simp)
    rw [(I.sched.setCont t fs).waits_rtSchedule, hsame]
  · have hrun := hs.resolve_left hf
    obtain ⟨hc, hfs⟩ := I.calls_of_cont hcont hf
    have hw := I.waits_pop hcont hf
    have hk0 := I.sched.setCont t fs
    have he0 : ((k.setCont t fs).thread t).error = (k.thread t).error := by rw [setCont, modThread_thread_self]
    have hns : k.suspended t = false := by rw [suspended, hrun]; rfl
    have hout (h : ListHead) : t ∉ k.waits.list h := I.sched.notMem_waits hns h
    -- a frame that is about no IPC object
    have plain (ho : f.obj = none) : Quiet ev k.waits (k.setCont t fs).waits := by
      refine quiet_setCont ?_ ?_
      · rw [hc]; exact ⟨by simp, by simpa using ho⟩
      · rw [hfs]; exact .nil
    -- the thread was woken with an error
    have failed {h : ListHead} (hh : f.head = some h) (hr : h.retries) (he : (k.thread t).error ≠ .eok) {x : Ret} (ha : x.acts = false)
        (hx : x.obj = h.obj ∧ x.caller = some (.thread t)) : Shows k ev (some x) (k.setCont t fs) := by
      rw [Shows, hw]
      exact .fail ev hc hh hr hout (fun he' => absurd he' he) rfl ha hx
    cases f with
    | schedule => exact absurd rfl hf
    | mutexTake m =>
      obtain ⟨r1, hk1, rfl⟩ := Option.map_eq_some_iff.1 hk
      exact .of_quiet ((plain rfl).trans (hk0.quiet_rtMutexTakeWake hk1)) (by simp [Ret.acts, Ret.caller])
    | semTake i =>
      cases hk
      rw [Shows, hw, he0]
      exact .sem ev (.finish hc hout)
    | eventRecv i =>
      cases hk
      have hset : ((k.setCont t fs).thread t).eventSet = (k.thread t).eventSet := by rw [setCont, modThread_thread_self]
      rw [Shows, hw, he0, hset]
      exact .event ev (.finish hc hout)
    | mbSendWait b value timeout tickDelta flag =>
      cases hk
      dsimp only
      unfold rtMbSendWaitWake
      rw [he0]
      split
      · rename_i he
        exact .needSchedule (failed rfl rfl he (by simp [Ret.acts, he]) ⟨rfl, rfl⟩) hk0 _ _
      · rename_i he
        have E := Entered.of_frame I hrun hcont rfl rfl (not_not.1 he)
        exact (E.mbSendWaitLoop _ _ _ _).needSchedule (hk0.mbSendWaitLoop E.awake _ _ _ _ _) _ _
    | mbRecv b timeout tickDelta flag =>
      cases hk
      dsimp only
      unfold rtMbRecvWake
      rw [he0]
      split
      · rename_i he
        exact .needSchedule (failed rfl rfl he (by simp [Ret.acts, he]) ⟨rfl, rfl⟩) hk0 _ _
      · rename_i he
        have E := Entered.of_frame I hrun hcont rfl rfl (not_not.1 he)
        exact (E.mbRecvLoop _ _ _).needSchedule (hk0.mbRecvLoop E.awake _ _ _ _) _ _
    | mqSendWait q buffer timeout tickDelta flag =>
      cases hk
      unfold rtMqSendWaitWake
      rw [he0]
      split
      · rename_i he
        exact failed rfl rfl he (by simp [Ret.acts, he]) ⟨rfl, rfl⟩
      · rename_i he
        exact (Entered.of_frame I hrun hcont rfl rfl (not_not.1 he)).mqSendWaitLoop (I.waiting.fits hc) _ _ _
    | mqRecv q size timeout tickDelta flag =>
      obtain ⟨r1, hk1, rfl⟩ := Option.map_eq_some_iff.1 hk
      unfold rtMqRecvWake at hk1
      rw [he0] at hk1
      split at hk1
      · rename_i he
        cases hk1
        exact failed rfl rfl he (by simp [Ret.acts, he]) ⟨rfl, rfl⟩
      · rename_i he
        exact (Entered.of_frame I hrun hcont rfl rfl (not_not.1 he)).mqRecvLoop hk1
    | sleep =>
      cases hk
      have hq := plain rfl
      refine .of_quiet (hq.trans (quiet_rtThreadSleepWake ?_)) (by simp)
      exact hq.plain (by rw [hc]; exact ⟨by simp, by simp [Frame.obj]⟩)
    | mqCopyIn | mqLink | mqCopyOut | mqFree =>
      simp only [Kernel.runFrame] at hk
      obtain ⟨r1, hk1, rfl⟩ := Option.map_eq_some_iff.1 hk
      exact I.mqFrameSchedule (c := .thread t) hc hfs hk1 false

/-! ## Steps -/

theorem calls_of_context {isr : Option IsrId} (hc : k.context isr = some c) : k.waits.calls c = [] := by
  cases isr with
  | none =>
    obtain ⟨t, ht, rfl⟩ := Option.map_eq_some_iff.1 hc
    exact calls_of_cont_nil (caller_eq_some.1 ht).2.1
  | some i =>
    obtain rfl := context_isr hc
    simp only [context] at hc
    obtain ⟨hi, hc⟩ := Option.ite_none_right_eq_some.1 hc
    change (k.isrCont i).filter _ = []
    rw [hi]; rfl

/-- `rt_mq_urgent` and `rt_mq_send` from an interrupt handler, up to the copy. -/
theorem Shows.rtMqUrgent (hc : k.waits.calls c = []) (q : MqId) (buffer : List (BitVec 8)) (urgent : Bool) :
    Shows k ev ((k.rtMqUrgent c q buffer urgent).2.map fun err => .mqSend c q buffer urgent err)
      (k.rtMqUrgent c q buffer urgent).1 := by
  unfold Kernel.rtMqUrgent
  split
  · exact .of_quiet (.refl _) (by simp [Ret.acts, Ret.caller, hc])
  · rename_i hfit
    split
    · exact .of_quiet (.refl _) (by simp [Ret.acts, Ret.caller, hc])
    · rename_i msg hmsg
      rw [Shows, waits_mqTake (Waits.setCalls_self _ hc).symm]
      exact .mq ev (.take (.inl hc) hmsg (not_lt.1 hfit))

/-- Every step of the kernel is a step of the abstract state. -/
theorem step_waits (I : k.IpcInv) (hk : step fuel k ev = some (k', r)) : Shows k ev r k' := by
  cases ev with
  | schedulerStart =>
    obtain ⟨k1, hk1, he⟩ := Option.map_eq_some_iff.1 hk
    cases he
    exact .of_quiet (.of_eq (I.sched.waits_rtSystemSchedulerStart hk1)) (by simp)
  | schedule =>
    cases hk
    exact .of_quiet (.of_eq I.sched.waits_rtSchedule) (by simp)
  | dispatch t =>
    simp only [step] at hk
    split at hk
    · cases hk
    · obtain ⟨hs, hk⟩ := Option.ite_none_right_eq_some.1 hk
      cases hk
      exact .of_quiet (.of_eq (I.sched.waits_switchTo hs _)) (by simp)
  | cont =>
    simp only [step] at hk
    split at hk
    · cases hk
    · rename_i t ht
      split at hk
      · cases hk
      · rename_i f fs hcont
        obtain ⟨hf, hk⟩ := Option.ite_none_right_eq_some.1 hk
        exact I.runFrame hcont hf hk
  | tick =>
    cases hk
    refine .of_quiet (.of_eq ?_) (by simp)
    unfold rtTickIncrease
    dsimp only
    split
    · rfl
    · rename_i t _
      split
      · have h0 : SchedInv { k with tick := k.tick + 1#32 } none := I.sched.congr (fun _ => rfl) rfl rfl rfl rfl rfl
        rw [SchedInv.waits_rtSchedule ((h0.modThread_congr (t := t) rfl).modThread_congr rfl),
          waits_modThread_same rfl, waits_modThread_same rfl]
        rfl
      · exact waits_modThread_same rfl
  | timeout t =>
    simp only [step] at hk
    split at hk
    · obtain ⟨k1, hk1, he⟩ := Option.map_eq_some_iff.1 hk
      cases he
      have h1 := (I.sched.threadTimerStop t).threadTimeout hk1
      have hw1 : (k.threadTimerStop t).waits = k.waits := waits_threadTimerStop
      refine .of_quiet ?_ (by simp)
      rw [h1.waits_rtSchedule, ← hw1]
      exact quiet_threadTimeout (by rw [hw1]; exact I.waiting) hk1
    · cases hk
  | sigcheck t answer =>
    cases hk
    exact .of_quiet (.of_eq (waits_modThread_same rfl)) (by simp)
  | startup isr t =>
    simp only [step] at hk
    split at hk
    · obtain ⟨k1, hk1, he⟩ := Option.map_eq_some_iff.1 hk
      cases he
      refine .of_quiet (.of_eq ?_) (by simp)
      rw [(I.sched.rtThreadStartup hk1).waits_callSchedule, I.sched.waits_rtThreadStartup hk1]
    · cases hk
  | resume t =>
    cases hk
    exact .of_quiet (quiet_rtThreadResume I.waiting t) (by simp)
  | changePriority t p =>
    simp only [step] at hk
    split at hk
    · cases hk
      exact .of_quiet (.of_eq (I.sched.waits_changePriority t p)) (by simp)
    · cases hk
  | delete t =>
    obtain ⟨k1, hk1, he⟩ := Option.map_eq_some_iff.1 hk
    cases he
    exact .of_quiet (I.sched.quiet_rtThreadDelete hk1) (by simp)
  | defunctDequeue =>
    cases hk
    refine .of_quiet ?_ (by simp)
    unfold rtThreadDefunctDequeue
    split
    · exact .refl _
    · rw [waits_remove]
      exact .unlink _ _
  | exit =>
    obtain ⟨t, ht, he⟩ := Option.map_eq_some_iff.1 hk
    cases he
    obtain ⟨hcur, hcont⟩ := self_eq_some.1 ht
    have hk1 := I.sched.threadExit (I.sched.current t (by simp) hcur).2.2
    refine .of_quiet ?_ (by simp)
    rw [hk1.waits_callSchedule]
    exact quiet_threadExit hcont
  | suspend flag =>
    obtain ⟨t, ht, he⟩ := Option.map_eq_some_iff.1 hk
    cases he
    exact .of_quiet (I.sched.quiet_suspend (plain_of_cont_nil (self_eq_some.1 ht).2) flag) (by simp)
  | sleep tick =>
    obtain ⟨t, ht, he⟩ := Option.map_eq_some_iff.1 hk
    cases he
    exact .of_quiet (I.sched.quiet_rtThreadSleep (self_eq_some.1 ht).2 tick) (by simp)
  | yield =>
    obtain ⟨t, ht, he⟩ := Option.map_eq_some_iff.1 hk
    cases he
    refine .of_quiet (.of_eq ?_) (by simp)
    unfold rtThreadYield
    rw [SchedInv.waits_rtSchedule (I.sched.modThread_congr rfl), waits_modThread_same rfl]
  | enterCritical =>
    cases hk
    exact .of_quiet (.of_eq rfl) (by simp)
  | exitCritical =>
    cases hk
    exact .of_quiet (.of_eq I.sched.waits_rtExitCritical) (by simp)
  | mutexTake m timeout flag =>
    obtain ⟨t, ht, hk⟩ := Option.bind_eq_some_iff.1 hk
    split at hk
    · obtain ⟨r1, hk1, he⟩ := Option.bind_eq_some_iff.1 hk
      cases he
      exact .of_quiet (I.sched.quiet_rtMutexTake ht hk1) (by simp [Ret.acts, Ret.caller])
    · cases hk
  | mutexRelease m =>
    obtain ⟨t, ht, hk⟩ := Option.bind_eq_some_iff.1 hk
    split at hk
    · cases hk
      refine .of_quiet ?_ (by simp [Ret.acts, Ret.caller])
      rw [(I.sched.rtMutexRelease t m).waits_needSchedule]
      exact I.sched.quiet_rtMutexRelease I.waiting (plain_of_cont_nil (caller_eq_some.1 ht).2.1)
    · cases hk
  | mutexSetprioceiling m p =>
    obtain ⟨r1, hk1, he⟩ := Option.map_eq_some_iff.1 hk
    cases he
    exact .of_quiet (I.sched.quiet_rtMutexSetprioceiling hk1) (by simp)
  | mutexDetach m freed =>
    simp only [step] at hk
    split at hk
    · cases hk
      exact .of_quiet (I.sched.quiet_rtMutexDetach I.waiting _) (by simp)
    · cases hk
  | semTake i timeout flag =>
    obtain ⟨t, ht, hk⟩ := Option.bind_eq_some_iff.1 hk
    cases hk
    exact I.rtSemTake ht i timeout flag
  | semRelease isr i =>
    simp only [step] at hk
    split at hk
    · cases hk
      exact (I.rtSemRelease i).needSchedule (I.sched.rtSemRelease i) _ _
    · cases hk
  | eventRecv i set option timeout flag =>
    obtain ⟨t, ht, hk⟩ := Option.bind_eq_some_iff.1 hk
    obtain ⟨r1, hk1, he⟩ := Option.bind_eq_some_iff.1 hk
    cases he
    exact I.rtEventRecv ht hk1
  | eventSend isr i set =>
    simp only [step] at hk
    split at hk
    · cases hk
      exact (I.rtEventSend i set).needSchedule (I.sched.rtEventSend i set) _ _
    · cases hk
  | mbSendWait b value timeout flag =>
    obtain ⟨t, ht, hk⟩ := Option.bind_eq_some_iff.1 hk
    cases hk
    have E := Entered.of_caller I ht (.mbSend b)
    unfold rtMbSendWait
    split
    · exact (Shows.of_quiet (.refl _) (by simp [Ret.acts, Ret.caller, calls_of_caller ht])).needSchedule I.sched _ _
    · exact (E.mbSendWaitLoop _ _ _ _).needSchedule (I.sched.mbSendWaitLoop E.awake _ _ _ _ _) _ _
  | mbUrgent isr b value =>
    simp only [step] at hk
    split at hk
    · cases hk
      exact (I.rtMbUrgent b value).needSchedule (I.sched.rtMbUrgent b value) _ _
    · cases hk
  | mbRecv b timeout flag =>
    obtain ⟨t, ht, hk⟩ := Option.bind_eq_some_iff.1 hk
    cases hk
    have E := Entered.of_caller I ht (.mbRecv b)
    unfold rtMbRecv
    split
    · exact (Shows.of_quiet (.refl _) (by simp [Ret.acts, Ret.caller, calls_of_caller ht])).needSchedule I.sched _ _
    · exact (E.mbRecvLoop _ _ _).needSchedule (I.sched.mbRecvLoop E.awake _ _ _ _) _ _
  | mqSendWait q buffer timeout flag =>
    obtain ⟨t, ht, hk⟩ := Option.bind_eq_some_iff.1 hk
    split at hk
    · cases hk
    · cases hk
      unfold rtMqSendWait
      split_ifs with hfit
      · exact .of_quiet (.refl _) (by simp [Ret.acts, Ret.caller, calls_of_caller ht])
      · exact .of_quiet (.refl _) (by simp [Ret.acts, Ret.caller, calls_of_caller ht])
      · exact (Entered.of_caller I ht (.mqSend q)).mqSendWaitLoop (not_lt.1 hfit) _ _ _
  | mqUrgent isr q buffer =>
    obtain ⟨c, hc, hk⟩ := Option.bind_eq_some_iff.1 hk
    split at hk
    · cases hk
    · cases hk
      exact .rtMqUrgent (calls_of_context hc) q buffer true
  | mqSendIsr i q buffer =>
    obtain ⟨c, hc, hk⟩ := Option.bind_eq_some_iff.1 hk
    split at hk
    · cases hk
    · cases hk
      exact .rtMqUrgent (calls_of_context hc) q buffer false
  | mqRecv q size timeout flag =>
    obtain ⟨t, ht, hk⟩ := Option.bind_eq_some_iff.1 hk
    obtain ⟨-, hk⟩ := Option.ite_none_left_eq_some.1 hk
    obtain ⟨r1, hk1, he⟩ := Option.map_eq_some_iff.1 hk
    cases he
    unfold rtMqRecv at hk1
    split at hk1
    · cases hk1
      exact .of_quiet (.refl _) (by simp [mqRecvRet, Ret.acts, Ret.caller, calls_of_caller ht])
    · exact (Entered.of_caller I ht (.mqRecv q)).mqRecvLoop hk1
  | mqRecvIsr i q size =>
    simp only [step] at hk
    obtain ⟨hi, hk⟩ := Option.ite_none_left_eq_some.1 hk
    obtain ⟨r1, hk1, he⟩ := Option.map_eq_some_iff.1 hk
    cases he
    have hctx : k.context (some i) = some (.isr i) := if_pos (not_not.1 fun h => hi (.inr h))
    have hcalls := calls_of_context hctx
    unfold rtMqRecvIsr at hk1
    split at hk1
    · cases hk1
      exact .of_quiet (.refl _) (by simp [mqRecvRet, Ret.acts, Ret.caller, hcalls])
    · rename_i hn
      obtain ⟨msg, hmsg, rfl⟩ := Option.map_eq_some_iff.1 hk1
      change Waits.Step k.waits (.mqRecvIsr i q size, some (.mqDetach (.isr i) q)) (k.mqDetach (.isr i) q msg size).waits
      rw [waits_mqDetach (Waits.setCalls_self _ hcalls).symm]
      exact .mq _ (.detach (.inl hcalls) hn hmsg)
  | mqReset isr q =>
    simp only [step] at hk
    split at hk
    · obtain ⟨k1, hk1, he⟩ := Option.map_eq_some_iff.1 hk
      cases he
      rw [Shows, (SchedInv.rtMqControlReset fuel I.sched hk1).waits_callSchedule]
      exact I.rtMqControlReset hk1
    · cases hk
  | isrCont i =>
    simp only [step] at hk
    split at hk
    · cases hk
    · rename_i f fs hcont
      obtain ⟨r1, hk1, he⟩ := Option.map_eq_some_iff.1 hk
      cases he
      have hf : f ≠ .schedule := by rintro rfl; cases hk1
      obtain ⟨hcalls, hnil⟩ := I.calls_of_frames (c := .isr i) hcont hf
      exact I.mqFrameSchedule hcalls hnil hk1 true

/-! ## Runs -/

/-- Before anything happens nobody waits. -/
theorem Boot.ipcInv (h : Boot k) : k.IpcInv := by
  have hcalls (t : ThreadId) : (k.waits.waiter t).calls = [] := calls_of_cont_nil (h.cont t)
  have hlist (d : ListHead) : k.waits.list d = [] := by
    change (if d.obj.isSome then k.tlist d else []) = []
    rw [h.tlist, ite_self]
  refine ⟨h.schedInv, ⟨fun c => ?_, fun d => ?_, fun {t d} hm => ?_, fun {t f d} hf => ?_, fun {t f} hf => ?_⟩⟩
  · cases c with
    | thread t => rw [Waits.calls_thread, hcalls]; simp
    | isr i =>
      change ((k.isrCont i).filter _).length ≤ 1
      rw [h.isrCont]; simp
  · rw [hlist]; exact List.nodup_nil
  · rw [hlist] at hm; cases hm
  · rw [hcalls] at hf; cases hf
  · rw [hcalls] at hf; cases hf

variable {ok : Kernel → Ev → Prop} {ls : List (Ev × Option Ret)}

/-- What the steps of the abstract state keep, given the labels before them, holds of the labels and of the last state
of every run. -/
theorem KRun.waits_history {J : List (Ev × Option Ret) → Waits → Prop} (hb : Boot k0) (h0 : J [] k0.waits)
    (hstep : ∀ ls k ev r s', k.IpcInv → J ls k.waits → ok k ev → Waits.Step k.waits (ev, r) s' → J (ls ++ [(ev, r)]) s')
    (hr : KRun ok k0 ls k) : k.IpcInv ∧ J ls k.waits := by
  refine Runs.Run.history (I := fun ls k => k.IpcInv ∧ J ls k.waits) ⟨hb.ipcInv, h0⟩ ?_ hr
  rintro ls k ⟨ev, r⟩ k' ⟨I, hJ⟩ ⟨hok, fuel, hk⟩
  have hw := step_waits I hk
  exact ⟨⟨step_schedInv I.sched hk, Waits.Step.waiting hw I.waiting⟩, hstep ls k ev r _ I hJ hok hw⟩

/-- The same without the labels. -/
theorem KRun.waits_invariant {J : Waits → Prop} (hb : Boot k0) (h0 : J k0.waits)
    (hstep : ∀ k ev r s', k.IpcInv → J k.waits → ok k ev → Waits.Step k.waits (ev, r) s' → J s')
    (hr : KRun ok k0 ls k) : k.IpcInv ∧ J k.waits :=
  hr.waits_history (J := fun _ s => J s) hb h0 fun _ => hstep

end Kernel

end RtThread
