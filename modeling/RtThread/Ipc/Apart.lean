import RtThread.Ipc.Waits

/-!
# What a step leaves alone

A step on one object is nothing to the others: it keeps them, their wait lists and the threads in calls about them
(`Apart`). What is proved of one object then has only the steps on that object to look at, and the quiet ones.
-/

namespace RtThread

namespace Waits

variable {s s' s'' : Waits} {o p : Obj} {t u : ThreadId} {h : ListHead} {c : Context} {f : Frame} {fs : List Frame}
  {r : Option Ret}

/-- Only the object `o`, its wait lists and the callers that are in no call or in one about it change. -/
structure Apart (o : Obj) (s s' : Waits) : Prop where
  objects : ∀ p, p ≠ o → s.objects.SameAt s'.objects p
  list : ∀ h : ListHead, h.obj ≠ some o → s'.list h = s.list h
  waiter : ∀ {t f}, (s.waiter t).calls = [f] → f.obj ≠ some o → s'.waiter t = s.waiter t
  calls : ∀ {c f}, f.obj ≠ some o → (s'.calls c = [f] ↔ s.calls c = [f])

/-- The calls are all about `o`. -/
def About (o : Obj) (fs : List Frame) : Prop := ∀ f ∈ fs, f.obj = some o

theorem About.nil : About o [] := by simp [About]

theorem About.single (hf : f.obj = some o) : About o [f] := by simpa [About] using hf

theorem About.ne (ha : About o fs) (hf : f.obj ≠ some o) : fs ≠ [f] := by
  rintro rfl
  exact hf (ha f (by simp))

/-- Who goes on with an object is in no call about another. -/
theorem Enters.about (he : s.Enters c h) (hh : h.obj = some o) : About o (s.calls c) := by
  rcases he with hc | ⟨-, t, f, rfl, hc, hf, -⟩
  · rw [hc]; exact .nil
  · rw [calls_thread, hc]
    exact .single (by rw [Frame.obj_of_head hf, hh])

theorem Objects.SameAt.trans {x y z : Objects} (hxy : x.SameAt y p) (hyz : y.SameAt z p) : x.SameAt z p := by
  cases p <;> exact Eq.trans hyz hxy

namespace Apart

theorem refl (o : Obj) (s : Waits) : Apart o s s :=
  ⟨fun p _ => by cases p <;> rfl, fun _ _ => rfl, fun _ _ => rfl, fun _ => .rfl⟩

theorem trans (ha : Apart o s s') (ha' : Apart o s' s'') : Apart o s s'' where
  objects p hp := Objects.SameAt.trans (ha.objects p hp) (ha'.objects p hp)
  list h hh := (ha'.list h hh).trans (ha.list h hh)
  waiter hc hf := (ha'.waiter ((ha.calls (c := .thread _) hf).2 hc) hf).trans (ha.waiter hc hf)
  calls hf := (ha'.calls hf).trans (ha.calls hf)

/-- A thread whose calls are about the object changes. -/
theorem modWaiter {g : Waiter → Waiter} (hc : About o (s.waiter t).calls) (hg : About o (g (s.waiter t)).calls) :
    Apart o s (s.modWaiter t g) := by
  refine ⟨fun p _ => by cases p <;> rfl, fun _ _ => rfl, fun {u f} hu hf => ?_, fun {c f} hf => ?_⟩
  · have hne : u ≠ t := by rintro rfl; exact hc.ne hf hu
    exact modWaiter_waiter_of_ne s t hne
  · cases c with
    | isr i => exact .rfl
    | thread u =>
      rw [calls_thread, calls_thread]
      by_cases e : u = t
      · subst e
        rw [modWaiter_waiter_self]
        exact iff_of_false (hg.ne hf) (hc.ne hf)
      · rw [modWaiter_waiter_of_ne _ _ e]

theorem setCalls (hc : About o (s.calls c)) (hfs : About o fs) : Apart o s (s.setCalls c fs) := by
  cases c with
  | thread t => exact modWaiter (g := fun x => { x with calls := fs }) hc hfs
  | isr i =>
    refine ⟨fun p _ => by cases p <;> rfl, fun _ _ => rfl, fun _ _ => rfl, fun {c f} hf => ?_⟩
    by_cases e : c = .isr i
    · subst e
      rw [calls_setCalls_self]
      exact iff_of_false (hfs.ne hf) (hc.ne hf)
    · rw [calls_setCalls_of_ne s e]

/-- A thread in a call about the object is woken. -/
theorem wake (hw : s.Waiting) (hc : (s.waiter t).calls = [f]) (hf : f.obj = some o) (e : RtErr) :
    Apart o s (s.wake t e) := by
  have ha : About o (s.waiter t).calls := by rw [hc]; exact .single hf
  have hlist (d : ListHead) (hd : d.obj ≠ some o) : t ∉ s.list d := fun hm => by
    obtain ⟨-, g, hg, hh⟩ := hw.linked hm
    obtain rfl := (List.cons.inj (hc.symm.trans hg)).1
    exact hd (by rw [← Frame.obj_of_head hh, hf])
  have h1 : Apart o s (s.unlink t) :=
    ⟨fun p _ => by cases p <;> rfl, fun d hd => Links.remove_of_notMem (hlist d hd), fun _ _ => rfl, fun _ => .rfl⟩
  exact h1.trans (modWaiter (s := s.unlink t) (g := fun x => { x with phase := .active, error := e }) ha ha)

theorem wakeFirst (hw : s.Waiting) (hh : h.obj = some o) : Apart o s (s.wakeFirst h) := by
  unfold Waits.wakeFirst
  split
  · exact refl o s
  · rename_i t ts hl
    obtain ⟨-, f, hf, hfh⟩ := hw.linked (h := h) (t := t) (by simp [hl])
    exact wake hw hf (by rw [Frame.obj_of_head hfh, hh]) _

theorem wakeAll (hw : s.Waiting) (hh : h.obj = some o) : Apart o s (s.wakeAll h) := by
  have hts : ∀ t ∈ s.list h, ∃ f, (s.waiter t).calls = [f] ∧ f.obj = some o := fun t ht => by
    obtain ⟨-, f, hf, hfh⟩ := hw.linked ht
    exact ⟨f, hf, by rw [Frame.obj_of_head hfh, hh]⟩
  unfold Waits.wakeAll
  generalize s.list h = ts at hts
  induction ts generalizing s with
  | nil => exact refl o s
  | cons t ts ih =>
    obtain ⟨f, hf, hfo⟩ := hts t (by simp)
    refine (wake hw hf hfo .error).trans (ih (hw.wake t .error) fun u hu => ?_)
    rw [(wake_request s t .error u).1]
    exact hts u (by simp [hu])

theorem setSem (i : SemId) (x : Semaphore) : Apart (.sem i) s (s.setSem i x) := by
  refine ⟨fun p hp => ?_, fun _ _ => rfl, fun _ _ => rfl, fun {c f} _ => by cases c <;> exact .rfl⟩
  cases p with
  | sem j =>
    have hj : j ≠ i := by rintro rfl; exact hp rfl
    exact Function.update_of_ne hj _ _
  | _ => rfl

theorem setEvent (i : EventId) (x : Event) : Apart (.event i) s (s.setEvent i x) := by
  refine ⟨fun p hp => ?_, fun _ _ => rfl, fun _ _ => rfl, fun {c f} _ => by cases c <;> exact .rfl⟩
  cases p with
  | event j =>
    have hj : j ≠ i := by rintro rfl; exact hp rfl
    exact Function.update_of_ne hj _ _
  | _ => rfl

theorem setMailbox (i : MailboxId) (x : Mailbox) : Apart (.mailbox i) s (s.setMailbox i x) := by
  refine ⟨fun p hp => ?_, fun _ _ => rfl, fun _ _ => rfl, fun {c f} _ => by cases c <;> exact .rfl⟩
  cases p with
  | mailbox j =>
    have hj : j ≠ i := by rintro rfl; exact hp rfl
    exact Function.update_of_ne hj _ _
  | _ => rfl

theorem setMq (i : MqId) (x : MessageQueue) : Apart (.mq i) s (s.setMq i x) := by
  refine ⟨fun p hp => ?_, fun _ _ => rfl, fun _ _ => rfl, fun {c f} _ => by cases c <;> exact .rfl⟩
  cases p with
  | mq j =>
    have hj : j ≠ i := by rintro rfl; exact hp rfl
    exact Function.update_of_ne hj _ _
  | _ => rfl

/-- The loop of `rt_event_send`. -/
theorem sendLoop (i : EventId) (ts : List ThreadId) (hw : s.Waiting)
    (hts : ∀ t ∈ ts, ∃ f, (s.waiter t).calls = [f] ∧ f.obj = some (.event i)) :
    Apart (.event i) s (Waits.sendLoop i ts s).1 := by
  induction ts generalizing s with
  | nil => exact refl _ s
  | cons t ts ih =>
    have hts' (u : ThreadId) (hu : u ∈ ts) := hts u (List.mem_cons_of_mem _ hu)
    obtain ⟨f, hf, hfo⟩ := hts t (by simp)
    -- a waiter whose request is satisfied
    have granted (got cleared : BitVec 32) : Apart (.event i) s (Waits.sendLoop i ts
        (((s.modWaiter t fun x => { x with eventSet := got }).setEvent i { s.objects.event i with
          set := cleared }).wake t .eok)).1 := by
      have ha : About (.event i) (s.waiter t).calls := by rw [hf]; exact .single hfo
      have h1 : Apart (.event i) s (s.modWaiter t fun x => { x with eventSet := got }) := modWaiter ha ha
      have h2 := h1.trans (setEvent i { s.objects.event i with set := cleared })
      have hw2 : ((s.modWaiter t fun x => { x with eventSet := got }).setEvent i { s.objects.event i with
          set := cleared }).Waiting :=
        (hw.request t (fun x => { x with eventSet := got }) fun _ => ⟨rfl, rfl, rfl⟩).setEvent i _
      have hc2 : (((s.modWaiter t fun x => { x with eventSet := got }).setEvent i { s.objects.event i with
          set := cleared }).waiter t).calls = [f] := by
        rw [setEvent_waiter, modWaiter_waiter_self]; exact hf
      refine (h2.trans (wake hw2 hc2 hfo .eok)).trans (ih (hw2.wake t .eok) fun u hu => ?_)
      rw [(wake_request _ t .eok u).1, setEvent_waiter]
      by_cases e : u = t
      · subst e; rw [modWaiter_waiter_self]; exact ⟨f, hf, hfo⟩
      · rw [modWaiter_waiter_of_ne _ _ e]; exact hts' u hu
    unfold Waits.sendLoop
    dsimp only
    split_ifs
    · exact refl _ s
    all_goals first | exact granted _ _ | exact ih hw hts'

end Apart

/-! ## Steps -/

theorem SemStep.apart {i : SemId} (hst : SemStep i s r s') (hw : s.Waiting) : Apart (.sem i) s s' := by
  cases hst with
  | take hc hv => exact .setSem i _
  | finish hc hl => exact .setCalls (by rw [calls_thread, hc]; exact .single rfl) .nil
  | @wake t ts hl =>
    obtain ⟨-, f, hf, hh⟩ := hw.linked (t := t) (h := .sem i) (by simp [hl])
    exact .wake hw hf (Frame.obj_of_head hh) _
  | release hl hv => exact .setSem i _

theorem EventStep.apart {i : EventId} (hst : EventStep i s r s') (hw : s.Waiting) : Apart (.event i) s s' := by
  cases hst with
  | recv hc hx hs =>
    exact (Apart.modWaiter (g := fun _ => _) (by rw [hc]; exact .nil) (by rw [hx]; exact .nil)).trans (.setEvent i _)
  | finish hc hl => exact .setCalls (by rw [calls_thread, hc]; exact .single rfl) .nil
  | send h0 hr =>
    rw [← hr]
    refine (Apart.setEvent i _).trans (.sendLoop i _ (hw.setEvent i _) fun t ht => ?_)
    obtain ⟨-, f, hf, hh⟩ := hw.linked ht
    exact ⟨f, hf, Frame.obj_of_head hh⟩

theorem MailboxStep.apart {i : MailboxId} (hst : MailboxStep i s r s') (hw : s.Waiting) : Apart (.mailbox i) s s' := by
  have enter {t : ThreadId} {h : ListHead} (hc : s.Enters (.thread t) h) (hh : h.obj = some (.mailbox i)) (x : Mailbox) :
      Apart (.mailbox i) s ((s.setCalls (.thread t) []).setMailbox i x) :=
    (Apart.setCalls (hc.about hh) .nil).trans (.setMailbox i x)
  cases hst with
  | send hc hn he => exact (enter hc rfl _).trans (.wakeFirst ((hw.leave_of_enters hc).setMailbox i _) rfl)
  | overflow hc hn he => exact enter hc rfl _
  | urgent hn => exact (Apart.setMailbox i _).trans (.wakeFirst (hw.setMailbox i _) rfl)
  | recv hc hn => exact (enter hc rfl _).trans (.wakeFirst ((hw.leave_of_enters hc).setMailbox i _) rfl)

theorem MqStep.apart {i : MqId} (hst : MqStep i s r s') (hw : s.Waiting) : Apart (.mq i) s s' := by
  have goOn {c : Context} {x : MessageQueue} {g : Frame} (hc : About (.mq i) (s.calls c)) (hg : g.obj = some (.mq i)) :
      Apart (.mq i) s ((s.setMq i x).setCalls c [g]) :=
    (Apart.setMq i x).trans (.setCalls (by rw [setMq_calls]; exact hc) (.single hg))
  have leave {c : Context} {f : Frame} (x : MessageQueue) (hc : s.calls c = [f]) (hf : f.obj = some (.mq i)) :
      Apart (.mq i) s ((s.setCalls c []).setMq i x) :=
    (Apart.setCalls (by rw [hc]; exact .single hf) .nil).trans (.setMq i x)
  have leaveWaiting {c : Context} {f : Frame} {x : MessageQueue} (hc : s.calls c = [f]) (hf : f.head = none)
      (hx : x.msgSize = (s.objects.mq i).msgSize) : ((s.setCalls c []).setMq i x).Waiting :=
    (hw.leave (hw.notMem_of_calls hc hf)).setMq i (by rw [setCalls_objects]; exact hx)
  cases hst with
  | take hc hf hs => exact goOn (hc.about rfl) rfl
  | copyIn hc => exact goOn (by rw [hc]; exact .single rfl) rfl
  | link hc he => exact (leave _ hc rfl).trans (.wakeFirst (leaveWaiting hc rfl (mqLinkMsg_msgSize _ _ _)) rfl)
  | overflow hc he => exact leave _ hc rfl
  | detach hc hn hh => exact goOn (hc.about rfl) rfl
  | copyOut hc => exact .setCalls (by rw [hc]; exact .single rfl) (.single rfl)
  | free hc => exact (leave _ hc rfl).trans (.wakeFirst (leaveWaiting hc rfl rfl) rfl)
  | reset hx =>
    exact ((Apart.wakeAll hw rfl).trans (.wakeAll (hw.wakeAll _) rfl)).trans (.setMq i _)

/-- A step on an object shows calls about it. -/
theorem SemStep.obj {i : SemId} (hst : SemStep i s r s') : ∀ x ∈ r, x.obj = some (.sem i) := by
  cases hst <;> simp

theorem EventStep.obj {i : EventId} (hst : EventStep i s r s') : ∀ x ∈ r, x.obj = some (.event i) := by
  cases hst <;> simp

theorem MailboxStep.obj {i : MailboxId} (hst : MailboxStep i s r s') : ∀ x ∈ r, x.obj = some (.mailbox i) := by
  cases hst <;> simp

theorem MqStep.obj {i : MqId} (hst : MqStep i s r s') : ∀ x ∈ r, x.obj = some (.mq i) := by
  cases hst <;> simp

/-- A thread that suspends itself, and one that returns with an error. -/
theorem apart_block {x : Waiter} {xs : List ThreadId} (hc : s.Enters (.thread t) h) (hf : f.head = some h)
    (hx : x.calls = [f]) (ho : h.obj = some o) : Apart o s (s.block t h x xs) := by
  have h1 : Apart o s (s.modWaiter t fun _ => x) :=
    .modWaiter (hc.about ho) (by rw [hx]; exact .single (by rw [Frame.obj_of_head hf, ho]))
  refine ⟨h1.objects, fun d hd => ?_, h1.waiter, h1.calls⟩
  have hne : d ≠ h := by rintro rfl; exact hd ho
  exact Function.update_of_ne hne _ _

theorem apart_fail {x : Waiter} (hc : (s.waiter t).calls = [f]) (hf : f.head = some h) (hx : x.calls = [])
    (ho : h.obj = some o) : Apart o s (s.modWaiter t fun _ => x) := by
  refine .modWaiter ?_ (by rw [hx]; exact .nil)
  rw [hc]
  exact .single (by rw [Frame.obj_of_head hf, ho])

end Waits

end RtThread
