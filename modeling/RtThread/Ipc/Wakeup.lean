import Mathlib.Data.Finset.Card
import RtThread.Ipc.MessageQueue

/-!
# No lost wake-up in mailboxes and message queues

A thread that waited in a mailbox or a message queue and was woken with `RT_EOK` is in flight until it runs. If threads
wait for a mail, there are as many receivers in flight as mails; if threads wait for room, as many senders as free places
(`Covered`). One thread comes into flight for every mail that comes in and for every place that becomes free, and one
leaves it for every mail or place it takes (`Covered.change`).
-/

namespace RtThread

namespace Waits

variable {s s' : Waits} {h h' : ListHead} {n n' : Nat} {t u : ThreadId} {c : Context} {o : Obj} {f : Frame}
  {fs : List Frame} {ev : Ev} {r : Option Ret}

/-- The thread waited in `h`, was woken with `RT_EOK`, and has not run yet. -/
def InFlight (s : Waits) (h : ListHead) (t : ThreadId) : Prop :=
  (s.waiter t).phase ≠ .closed ∧ (s.waiter t).error = .eok ∧ ∃ f, (s.waiter t).calls = [f] ∧ f.head = some h

/-- If a thread waits in `h`, then `n` threads are in flight. -/
def Covered (h : ListHead) (n : Nat) (s : Waits) : Prop :=
  ∃ F : Finset ThreadId, (∀ t, t ∈ F ↔ s.InFlight h t) ∧ (s.list h ≠ [] → n ≤ F.card)

theorem Covered.same (hc : Covered h n s) (hi : ∀ u, s'.InFlight h u ↔ s.InFlight h u)
    (hn : s'.list h ≠ [] → n' = 0 ∨ s.list h ≠ [] ∧ n' ≤ n) : Covered h n' s' := by
  obtain ⟨F, hF, hcard⟩ := hc
  refine ⟨F, fun u => by rw [hF, hi], fun hl => ?_⟩
  rcases hn hl with rfl | ⟨hs, hle⟩
  · exact Nat.zero_le _
  · exact hle.trans (hcard hs)

/-- The thread `t` runs. -/
theorem Covered.leave (hc : Covered h n s) (t : ThreadId) (hi : ∀ u, u ≠ t → (s'.InFlight h u ↔ s.InFlight h u))
    (ht : ¬s'.InFlight h t) (hn : s'.list h ≠ [] → n' = 0 ∨ s.list h ≠ [] ∧ n' ≤ n - 1) : Covered h n' s' := by
  obtain ⟨F, hF, hcard⟩ := hc
  refine ⟨F.erase t, fun u => ?_, fun hl => ?_⟩
  · rw [Finset.mem_erase, hF]
    constructor
    · rintro ⟨hne, hu⟩
      exact (hi u hne).2 hu
    · intro hu
      have hne : u ≠ t := by rintro rfl; exact ht hu
      exact ⟨hne, (hi u hne).1 hu⟩
  · rcases hn hl with rfl | ⟨hs, hle⟩
    · exact Nat.zero_le _
    · exact (hle.trans (Nat.sub_le_sub_right (hcard hs) 1)).trans Finset.pred_card_le_card_erase

/-- The thread `t` is woken. -/
theorem Covered.come (hc : Covered h n s) (t : ThreadId) (hi : ∀ u, u ≠ t → (s'.InFlight h u ↔ s.InFlight h u))
    (ht : ¬s.InFlight h t) (ht' : s'.InFlight h t) (hs : s.list h ≠ []) (hn : n' ≤ n + 1) : Covered h n' s' := by
  obtain ⟨F, hF, hcard⟩ := hc
  refine ⟨insert t F, fun u => ?_, fun _ => ?_⟩
  · rw [Finset.mem_insert, hF]
    constructor
    · rintro (rfl | hu)
      · exact ht'
      · have hne : u ≠ t := by rintro rfl; exact ht hu
        exact (hi u hne).2 hu
    · intro hu
      by_cases e : u = t
      · exact Or.inl e
      · exact Or.inr ((hi u e).1 hu)
  · rw [Finset.card_insert_of_notMem fun hm => ht ((hF t).1 hm)]
    exact hn.trans (Nat.add_le_add_right (hcard hs) 1)

theorem Covered.mono (hc : Covered h n s) (hn : n' ≤ n) : Covered h n' s :=
  hc.same (fun _ => Iff.rfl) fun hs => Or.inr ⟨hs, hn⟩

/-- Nobody waits. -/
theorem Covered.of_nil (hc : Covered h n s) (hs : s.list h = []) : Covered h n' s :=
  hc.same (fun _ => Iff.rfl) fun hne => absurd hs hne

/-! ## Writes -/

/-- The calls and the error code of a thread in another list. -/
theorem not_inFlight_of_head (hc : (s.waiter t).calls = [f]) (hf : f.head ≠ some h) : ¬s.InFlight h t := by
  rintro ⟨-, -, g, hg, hh⟩
  obtain rfl := (List.cons.inj (hc.symm.trans hg)).1
  exact hf hh

theorem not_inFlight_of_nil (hc : (s.waiter t).calls = []) : ¬s.InFlight h t := by
  rintro ⟨-, -, g, hg, -⟩
  rw [hc] at hg
  cases hg

theorem Waiting.not_inFlight (hw : s.Waiting) (ht : t ∈ s.list h') : ¬s.InFlight h t := by
  rintro ⟨-, he, -⟩
  exact (hw.linked ht).1 he

theorem inFlight_wake_of_ne (hu : u ≠ t) : (s.wake t .eok).InFlight h u ↔ s.InFlight h u := by
  unfold InFlight
  rw [wake_waiter_of_ne _ _ hu]

/-- The first thread of `h` is woken. -/
theorem Covered.wakeFirst (hc : Covered h n s) (hw : s.Waiting) (hn : n' ≤ n + 1) :
    Covered h n' (s.wakeFirst h) := by
  unfold Waits.wakeFirst
  split
  · exact hc.of_nil ‹_›
  · rename_i t ts hl
    have ht : t ∈ s.list h := by simp [hl]
    obtain ⟨-, f, hf, hh⟩ := hw.linked ht
    refine hc.come t (fun u hu => inFlight_wake_of_ne hu) (hw.not_inFlight ht) ?_ (by simp [hl]) hn
    refine ⟨?_, ?_, f, ?_, hh⟩
    · simp
    · simp
    · rw [wake_waiter_self]
      exact hf

/-- The first thread of another list is woken. -/
theorem Covered.wakeFirst_ne (hc : Covered h n s) (hw : s.Waiting) (hne : h' ≠ h) : Covered h n (s.wakeFirst h') := by
  unfold Waits.wakeFirst
  split
  · exact hc
  · rename_i t ts hl
    have ht : t ∈ s.list h' := by simp [hl]
    obtain ⟨-, f, hf, hh⟩ := hw.linked ht
    have hfne : f.head ≠ some h := by
      rw [hh]
      intro e
      exact hne (Option.some.inj e)
    refine hc.same (fun u => ?_) fun hs => Or.inr ⟨?_, le_rfl⟩
    · by_cases e : u = t
      · subst e
        refine iff_of_false (not_inFlight_of_head (f := f) ?_ hfne) (hw.not_inFlight ht)
        rw [wake_waiter_self]
        exact hf
      · exact inFlight_wake_of_ne e
    · intro hnil
      apply hs
      rw [wake_list, Links.remove, hnil]
      rfl

/-- All threads of some list are woken, with an error. -/
theorem Covered.wakeAll (hc : Covered h n s) (hw : s.Waiting) (h' : ListHead) : Covered h n (s.wakeAll h') := by
  have hts : ∀ t ∈ s.list h', ¬s.InFlight h t := fun t ht => hw.not_inFlight ht
  unfold Waits.wakeAll
  generalize s.list h' = ts at hts
  induction ts generalizing s with
  | nil => exact hc
  | cons t ts ih =>
    have hself : ¬(s.wake t .error).InFlight h t := by
      rintro ⟨-, he, -⟩
      rw [wake_waiter_self] at he
      cases he
    have hother {u : ThreadId} (hu : u ≠ t) : (s.wake t .error).InFlight h u ↔ s.InFlight h u := by
      unfold InFlight
      rw [wake_waiter_of_ne _ _ hu]
    apply ih
    · refine hc.same (fun u => ?_) fun hs => Or.inr ⟨?_, le_rfl⟩
      · by_cases e : u = t
        · subst e
          exact iff_of_false hself (hts u (by simp))
        · exact hother e
      · intro hnil
        apply hs
        rw [wake_list, Links.remove, hnil]
        rfl
    · exact hw.wake t .error
    · intro u hu
      by_cases e : u = t
      · subst e; exact hself
      · rw [hother e]
        exact hts u (by simp [hu])

theorem mem_list_wakeAll : u ∈ (s.wakeAll h').list h ↔ u ∈ s.list h ∧ u ∉ s.list h' := by
  unfold Waits.wakeAll
  generalize s.list h' = ts
  induction ts generalizing s with
  | nil => simp
  | cons t ts ih =>
    rw [List.foldl_cons, ih, wake_list, Links.mem_remove, List.mem_cons, not_or, and_assoc]

/-- The caller goes on with the object of `h`, or of another list. -/
theorem Covered.enters (hc : Covered h n s) (he : s.Enters c h) (hfs : ∀ f ∈ fs, f.head = none) (hn : n' ≤ n - 1) :
    Covered h n' (s.setCalls c fs) := by
  cases c with
  | isr i => exact hc.mono (hn.trans (Nat.sub_le _ _))
  | thread t =>
    refine hc.leave t (fun u hu => ?_) ?_ fun hs => Or.inr ⟨hs, hn⟩
    · unfold InFlight Waits.setCalls
      rw [modWaiter_waiter_of_ne _ _ hu]
    · rintro ⟨-, -, f, hf, hh⟩
      rw [← calls_thread, calls_setCalls_self] at hf
      rw [hfs f (by simp [hf])] at hh
      cases hh

theorem Covered.enters_ne (hc : Covered h n s) (ho : ∀ f, s.calls c = [f] → f.head ≠ some h)
    (hfs : ∀ f ∈ fs, f.head = none) : Covered h n (s.setCalls c fs) := by
  cases c with
  | isr i => exact hc
  | thread t =>
    refine hc.same (fun u => ?_) fun hs => Or.inr ⟨hs, le_rfl⟩
    by_cases e : u = t
    · subst e
      refine iff_of_false ?_ ?_
      · rintro ⟨-, -, f, hf, hh⟩
        rw [← calls_thread, calls_setCalls_self] at hf
        rw [hfs f (by simp [hf])] at hh
        cases hh
      · rintro ⟨-, -, f, hf, hh⟩
        exact ho f hf hh
    · unfold InFlight Waits.setCalls
      rw [modWaiter_waiter_of_ne _ _ e]

/-- The caller returns, having taken one of the `n`. -/
theorem Covered.enters_nil (hc : Covered h n s) (he : s.Enters c h) : Covered h (n - 1) (s.setCalls c []) :=
  hc.enters he (List.forall_mem_nil _) le_rfl

theorem Covered.enters_ne_nil (hc : Covered h n s) (ho : ∀ f, s.calls c = [f] → f.head ≠ some h) :
    Covered h n (s.setCalls c []) :=
  hc.enters_ne ho (List.forall_mem_nil _)

/-! ## Steps -/

/-- A thread that suspends itself, with nothing there for it. -/
theorem Covered.block {x : Waiter} {xs : List ThreadId} (hc : Covered h n s) (he : s.Enters (.thread t) h')
    (hxe : x.error ≠ .eok) (hn : h' = h → n = 0) :
    Covered h n (s.block t h' x xs) := by
  have hself : (s.block t h' x xs).waiter t = x := modWaiter_waiter_self s t fun _ => x
  have hother {u : ThreadId} (hu : u ≠ t) : (s.block t h' x xs).waiter u = s.waiter u :=
    modWaiter_waiter_of_ne s t (g := fun _ => x) hu
  have hout : ¬(s.block t h' x xs).InFlight h t := by
    rintro ⟨-, h1, -⟩
    rw [hself] at h1
    exact hxe h1
  have hiff (u : ThreadId) (hu : u ≠ t) : (s.block t h' x xs).InFlight h u ↔ s.InFlight h u := by
    unfold InFlight
    rw [hother hu]
  by_cases e : h' = h
  · exact hc.leave t hiff hout fun _ => Or.inl (hn e)
  · refine hc.same (fun u => ?_) fun hs => Or.inr ⟨?_, le_rfl⟩
    · by_cases hu : u = t
      · subst hu
        refine iff_of_false hout ?_
        rcases he with hc0 | ⟨-, v, g, hv, hg, hgh, -⟩
        · exact not_inFlight_of_nil hc0
        · obtain rfl := Context.thread.inj hv
          refine not_inFlight_of_head hg ?_
          rw [hgh]
          intro e'
          exact e (Option.some.inj e')
      · exact hiff u hu
    · have hlist : (s.block t h' x xs).list h = s.list h := Function.update_of_ne (Ne.symm e) _ _
      rwa [hlist] at hs

/-- A thread that waited returns with an error; if it was in flight there is nothing there for it. -/
theorem Covered.fail {x : Waiter} (hc : Covered h n s) (hcalls : (s.waiter t).calls = [f]) (hf : f.head = some h')
    (hx : x.calls = []) (hn : h' = h → (s.waiter t).error = .eok → n = 0) : Covered h n (s.modWaiter t fun _ => x) := by
  have hout : ¬(s.modWaiter t fun _ => x).InFlight h t := by
    apply not_inFlight_of_nil
    rw [modWaiter_waiter_self]
    exact hx
  have hiff (u : ThreadId) (hu : u ≠ t) : (s.modWaiter t fun _ => x).InFlight h u ↔ s.InFlight h u := by
    unfold InFlight
    rw [modWaiter_waiter_of_ne _ _ hu]
  by_cases hin : s.InFlight h t
  · obtain ⟨-, he, g, hg, hh⟩ := hin
    obtain rfl := (List.cons.inj (hcalls.symm.trans hg)).1
    exact hc.leave t hiff hout fun _ => Or.inl (hn (Option.some.inj (hf.symm.trans hh)) he)
  · refine hc.same (fun u => ?_) fun hs => Or.inr ⟨hs, le_rfl⟩
    by_cases e : u = t
    · subst e
      exact iff_of_false hout hin
    · exact hiff u e

/-- Something happens elsewhere, and no thread in flight is deleted. -/
theorem Covered.quiet (hc : Covered h n s) (hq : Quiet ev s s') (hev : ∀ t, ev = .delete t → ¬s.InFlight h t) :
    Covered h n s' := by
  refine hc.same (fun t => ?_) fun hs => Or.inr ⟨fun hnil => ?_, le_rfl⟩
  · constructor
    · rintro ⟨hp, he, f, hf, hh⟩
      have hf' := (hq.calls_eq (Frame.isSome_obj hh)).1 hf
      have he' := (hq.error hf' hh).1 he
      refine ⟨?_, he', f, hf', hh⟩
      rcases hq.phase hf' hh he' with h1 | ⟨-, h1⟩
      · rwa [h1] at hp
      · exact absurd h1 hp
    · intro hin
      obtain ⟨hp, he, f, hf, hh⟩ := id hin
      refine ⟨?_, (hq.error hf hh).2 he, f, (hq.calls_eq (Frame.isSome_obj hh)).2 hf, hh⟩
      rcases hq.phase hf hh he with h1 | ⟨h1, -⟩
      · rwa [h1]
      · exact absurd hin (hev t h1)
  · have hsub := hq.sub h
    rw [hnil] at hsub
    exact hs (List.sublist_nil.1 hsub)

/-- A step on another object. -/
theorem Covered.apart (hc : Covered h n s) (ha : Apart o s s') (ho : h.obj ≠ some o) : Covered h n s' := by
  refine hc.same (fun t => ?_) fun hs => Or.inr ⟨?_, le_rfl⟩
  · have hcalls {f : Frame} (hh : f.head = some h) : (s'.waiter t).calls = [f] ↔ (s.waiter t).calls = [f] :=
      ha.calls (c := .thread t) (by rw [Frame.obj_of_head hh]; exact ho)
    have hsame {f : Frame} (hh : f.head = some h) (hf : (s.waiter t).calls = [f]) : s'.waiter t = s.waiter t :=
      ha.waiter hf (by rw [Frame.obj_of_head hh]; exact ho)
    constructor
    · rintro ⟨hp, he, f, hf, hh⟩
      have hf' := (hcalls hh).1 hf
      rw [hsame hh hf'] at hp he
      exact ⟨hp, he, f, hf', hh⟩
    · rintro ⟨hp, he, f, hf, hh⟩
      have hw := hsame hh hf
      refine ⟨by rw [hw]; exact hp, by rw [hw]; exact he, f, (hcalls hh).2 hf, hh⟩
  · rw [ha.list h ho] at hs
    exact hs

/-- A step of the functions of the object `o`. -/
def On (o : Obj) (s : Waits) (r : Option Ret) (s' : Waits) : Prop :=
  match o with
  | .sem i => SemStep i s r s'
  | .event i => EventStep i s r s'
  | .mailbox i => MailboxStep i s r s'
  | .mq i => MqStep i s r s'

/-- The other steps leave the object alone, and the threads in flight in its lists. -/
theorem Covered.elsewhere (hc : Covered h n s) (hw : s.Waiting) (hst : Step s (ev, r) s') (hon : ¬On o s r s')
    (ho : h.obj = some o) (hh : h.retries) (hev : ∀ t h, ev = .delete t → h.retries → ¬s.InFlight h t)
    (hu : ∀ x, s.Unavailable h x → n = 0) : Covered h n s' := by
  have other {p : Obj} (ha : Apart p s s') (hp : On p s r s') : Covered h n s' := by
    refine hc.apart ha fun e => ?_
    cases ho.symm.trans e
    exact hon hp
  cases hst with
  | quiet hq hr => exact hc.quiet hq fun t ht => hev t h ht hh
  | block ev hent hf hun hx hs he hp hxs => exact hc.block hent he fun e => hu _ (e ▸ hun)
  | fail ev hcalls hf hh' hl hun hx ha hr => exact hc.fail hcalls hf hx fun e he => hu _ (e ▸ hun he)
  | sem ev hs => exact other (p := .sem _) (hs.apart hw) hs
  | event ev hs => exact other (p := .event _) (hs.apart hw) hs
  | mailbox ev hs => exact other (p := .mailbox _) (hs.apart hw) hs
  | mq ev hs => exact other (p := .mq _) (hs.apart hw) hs

theorem sameAt_of_not_on (hw : s.Waiting) (hst : Step s (ev, r) s') (hon : ¬On o s r s') :
    s.objects.SameAt s'.objects o := by
  have other {p : Obj} (ha : Apart p s s') (hp : On p s r s') : s.objects.SameAt s'.objects o := by
    refine ha.objects o fun e => ?_
    subst e
    exact hon hp
  cases hst with
  | quiet hq hr => rw [hq.objects]; cases o <;> rfl
  | block ev hent hf hun hx hs he hp hxs => cases o <;> rfl
  | fail ev hcalls hf hh' hl hun hx ha hr => cases o <;> rfl
  | sem ev hs => exact other (p := .sem _) (hs.apart hw) hs
  | event ev hs => exact other (p := .event _) (hs.apart hw) hs
  | mailbox ev hs => exact other (p := .mailbox _) (hs.apart hw) hs
  | mq ev hs => exact other (p := .mq _) (hs.apart hw) hs

/-! ## Mailboxes -/

/-- The threads in flight cover the mails and the free places. -/
structure MailServed (b : MailboxId) (size : Nat) (s : Waits) : Prop where
  size_eq : (s.objects.mailbox b).size = size
  le_size : (s.objects.mailbox b).entry ≤ size
  recv : Covered (.mbRecv b) (s.objects.mailbox b).entry s
  send : Covered (.mbSend b) (size - (s.objects.mailbox b).entry) s

variable {b : MailboxId} {size : Nat}

/-- Who goes on with one list is not in flight in another. -/
theorem Enters.head_ne (he : s.Enters c h') (hne : h' ≠ h) (hc : s.calls c = [f]) : f.head ≠ some h := by
  rcases he with hnil | ⟨-, u, g, rfl, hg, hgh, -⟩
  · rw [hnil] at hc
    cases hc
  · obtain rfl := (List.cons.inj (hg.symm.trans hc)).1
    rw [hgh]
    intro e
    exact hne (Option.some.inj e)

theorem MailServed.mailbox (hm : MailServed b size s) (hsize : size ≤ Kernel.mbEntryMax) (hw : s.Waiting)
    (hst : MailboxStep b s r s') : MailServed b size s' := by
  obtain ⟨hsz, hle, hrecv, hsend⟩ := hm
  cases hst with
  | @send t value hc hn he =>
    have hrs := hrecv.enters_ne_nil (fun f => hc.head_ne (by simp))
    have hss := hsend.enters_nil hc
    have hw' := (hw.leave_of_enters hc).setMailbox b { mailPut (s.objects.mailbox b) value with
      entry := (s.objects.mailbox b).entry + 1 }
    refine ⟨?_, ?_, ?_, ?_⟩
    · simpa [mailPut] using hsz
    · rw [wakeFirst_objects, setMailbox_mailbox]
      change (s.objects.mailbox b).entry + 1 ≤ size
      omega
    · rw [wakeFirst_objects, setMailbox_mailbox]
      exact Covered.wakeFirst (s := (s.setCalls (.thread t) []).setMailbox b _) hrs hw' le_rfl
    · rw [wakeFirst_objects, setMailbox_mailbox]
      refine Covered.wakeFirst_ne (s := (s.setCalls (.thread t) []).setMailbox b _) ?_ hw' (by simp)
      exact hss.mono (by change size - ((s.objects.mailbox b).entry + 1) ≤ _; omega)
  | overflow hc hn he => omega
  | @urgent value hn =>
    have hw' := hw.setMailbox b (mailUrgent (s.objects.mailbox b) value)
    refine ⟨?_, ?_, ?_, ?_⟩
    · simpa [mailUrgent] using hsz
    · rw [wakeFirst_objects, setMailbox_mailbox]
      change (s.objects.mailbox b).entry + 1 ≤ size
      omega
    · rw [wakeFirst_objects, setMailbox_mailbox]
      exact Covered.wakeFirst (s := s.setMailbox b _) hrecv hw' le_rfl
    · rw [wakeFirst_objects, setMailbox_mailbox]
      refine Covered.wakeFirst_ne (s := s.setMailbox b _) ?_ hw' (by simp)
      exact hsend.mono (by change size - ((s.objects.mailbox b).entry + 1) ≤ _; omega)
  | @recv t hc hn =>
    have hrs := hrecv.enters_nil hc
    have hss := hsend.enters_ne_nil (fun f => hc.head_ne (by simp))
    have hw' := (hw.leave_of_enters hc).setMailbox b (mailGet (s.objects.mailbox b))
    refine ⟨?_, ?_, ?_, ?_⟩
    · simpa [mailGet] using hsz
    · rw [wakeFirst_objects, setMailbox_mailbox]
      change (s.objects.mailbox b).entry - 1 ≤ size
      omega
    · rw [wakeFirst_objects, setMailbox_mailbox]
      exact Covered.wakeFirst_ne (s := (s.setCalls (.thread t) []).setMailbox b _) hrs hw' (by simp)
    · rw [wakeFirst_objects, setMailbox_mailbox]
      refine Covered.wakeFirst (s := (s.setCalls (.thread t) []).setMailbox b _) hss hw' ?_
      change size - ((s.objects.mailbox b).entry - 1) ≤ _
      omega

theorem MailServed.step (hm : MailServed b size s) (hsize : size ≤ Kernel.mbEntryMax) (hw : s.Waiting)
    (hst : Step s (ev, r) s') (hev : ∀ t h, ev = .delete t → h.retries → ¬s.InFlight h t) : MailServed b size s' := by
  by_cases hon : On (.mailbox b) s r s'
  · exact hm.mailbox hsize hw hon
  · have hsame : s'.objects.mailbox b = s.objects.mailbox b := sameAt_of_not_on hw hst hon
    obtain ⟨hsz, hle, hrecv, hsend⟩ := hm
    refine ⟨by rw [hsame]; exact hsz, by rw [hsame]; exact hle, ?_, ?_⟩
    · rw [hsame]
      exact hrecv.elsewhere hw hst hon rfl rfl hev fun x hx => hx
    · rw [hsame]
      refine hsend.elsewhere hw hst hon rfl rfl hev fun x hx => ?_
      have hfull : (s.objects.mailbox b).entry = (s.objects.mailbox b).size := hx
      omega

/-! ## Message queues -/

/-- The threads in flight cover the messages and the free buffers. -/
structure MqServed (q : MqId) (n : Nat) (s : Waits) : Prop where
  queued : ∃ m, Queued q n m s
  recv : Covered (.mqRecv q) (s.objects.mq q).entry s
  send : ∀ free, Singly.Chain (s.objects.mq q).next (s.objects.mq q).msgQueueFree free →
    Covered (.mqSend q) free.length s

variable {q : MqId} {msg : Nat} {x : MessageQueue}

/-- A caller between its two sections waits in no list. -/
theorem head_ne_of_calls {g : Frame} (hc : s.calls c = [g]) (hg : g.head = none) :
    ∀ f, s.calls c = [f] → f.head ≠ some h := by
  intro f hf
  obtain rfl := (List.cons.inj (hc.symm.trans hf)).1
  rw [hg]
  simp

theorem Enters.setMq (he : s.Enters c h) : (s.setMq q x).Enters c h := by
  cases c <;> exact he

/-- The receivers. -/
theorem MqServed.recv_mq (hm : MqServed q n s) (hw : s.Waiting) (hst : MqStep q s r s') :
    Covered (.mqRecv q) (s'.objects.mq q).entry s' := by
  have hrecv := hm.recv
  cases hst with
  | @take c msg buffer urgent hc hf hlen =>
    rw [setCalls_objects, setMq_mq]
    refine Covered.enters_ne (s := s.setMq q _) hrecv (fun f hcf => ?_) (by simp [Frame.head])
    exact hc.head_ne (by simp) hcf
  | @copyIn c msg buffer urgent hc =>
    rw [setCalls_objects, setMq_mq]
    refine Covered.enters_ne (s := s.setMq q _) hrecv (head_ne_of_calls (g := .mqCopyIn q msg buffer urgent) ?_ rfl)
      (by simp [Frame.head])
    exact hc
  | @link c msg buffer urgent hc he =>
    have hw' := (hw.leave (hw.notMem_of_calls hc rfl)).setMq q (x := { Kernel.mqLinkMsg (s.objects.mq q) msg urgent with
      entry := (s.objects.mq q).entry + 1 }) (by rw [setCalls_objects]; exact mqLinkMsg_msgSize _ _ _)
    have hrs := hrecv.enters_ne_nil (head_ne_of_calls hc rfl)
    rw [wakeFirst_objects, setMq_mq]
    exact Covered.wakeFirst (s := (s.setCalls _ []).setMq q _) hrs hw' le_rfl
  | overflow hc he =>
    have hrs := hrecv.enters_ne_nil (head_ne_of_calls hc rfl)
    rw [setMq_mq]
    refine hrs.mono (le_of_eq ?_)
    unfold Kernel.mqLinkMsg
    split <;> rfl
  | @detach c msg size hc hne hh =>
    rw [setCalls_objects, setMq_mq]
    exact Covered.enters (s := s.setMq q _) hrecv hc.setMq (by simp [Frame.head]) le_rfl
  | copyOut hc =>
    rw [setCalls_objects]
    exact hrecv.enters_ne (head_ne_of_calls hc rfl) (by simp [Frame.head])
  | @free c msg buffer hc =>
    have hw' := (hw.leave (hw.notMem_of_calls hc rfl)).setMq q (x := mqFreed (s.objects.mq q) msg)
      (by rw [setCalls_objects]; rfl)
    have hrs := hrecv.enters_ne_nil (head_ne_of_calls hc rfl)
    rw [wakeFirst_objects, setMq_mq]
    exact Covered.wakeFirst_ne (s := (s.setCalls _ []).setMq q _) hrs hw' (by simp)
  | reset hx =>
    rw [setMq_mq]
    exact ((hrecv.wakeAll hw _).wakeAll (hw.wakeAll _) _).mono (Nat.zero_le _)

/-- The senders. -/
theorem MqServed.send_mq (hm : MqServed q n s) (hn : n ≤ Kernel.mqEntryMax) (hw : s.Waiting) (hst : MqStep q s r s')
    {free' : List Nat} (hf' : Singly.Chain (s'.objects.mq q).next (s'.objects.mq q).msgQueueFree free') :
    Covered (.mqSend q) free'.length s' := by
  obtain ⟨m, hs, free, bufs, hkept⟩ := hm.queued
  have hsend := hm.send free hkept.lists.free
  cases hst with
  | @take c msg buffer urgent hc hf hlen =>
    obtain ⟨free1, rfl, h1⟩ := hkept.take urgent hc.inHand hf hlen
    rw [setCalls_objects, setMq_mq] at hf'
    rw [← h1.lists.free.unique hf']
    exact Covered.enters (s := s.setMq q _) hsend hc.setMq (by simp [Frame.head]) (by simp)
  | @copyIn c msg buffer urgent hc =>
    rw [setCalls_objects, setMq_mq] at hf'
    rw [← (hkept.copyIn hc).lists.free.unique hf']
    refine Covered.enters_ne (s := s.setMq q _) hsend (head_ne_of_calls (g := .mqCopyIn q msg buffer urgent) ?_ rfl)
      (by simp [Frame.head])
    exact hc
  | @link c msg buffer urgent hc he =>
    have hw' := (hw.leave (hw.notMem_of_calls hc rfl)).setMq q (x := { Kernel.mqLinkMsg (s.objects.mq q) msg urgent with
      entry := (s.objects.mq q).entry + 1 }) (by rw [setCalls_objects]; exact mqLinkMsg_msgSize _ _ _)
    have hss := hsend.enters_ne_nil (head_ne_of_calls hc rfl)
    rw [wakeFirst_objects, setMq_mq] at hf'
    rw [← (hkept.link hc).lists.free.unique hf']
    exact Covered.wakeFirst_ne (s := (s.setCalls _ []).setMq q _) hss hw' (by simp)
  | @overflow c msg buffer urgent hc he =>
    have hhand : RtThread.inHand q (s.calls c) = some msg := by
      rw [hc, inHand_single]
      exact if_pos rfl
    have hlt := hkept.parted.length_lt (c := c) hhand
    have hentry := hkept.lists.entry
    rw [List.length_append] at hlt
    omega
  | @detach c msg size hc hne hh =>
    rw [setCalls_objects, setMq_mq] at hf'
    rw [← hkept.lists.free.unique hf']
    refine Covered.enters_ne (s := s.setMq q _) hsend (fun f hcf => ?_) (by simp [Frame.head])
    exact hc.head_ne (by simp) hcf
  | copyOut hc =>
    rw [setCalls_objects] at hf'
    rw [← hkept.lists.free.unique hf']
    exact hsend.enters_ne (head_ne_of_calls hc rfl) (by simp [Frame.head])
  | @free c msg buffer hc =>
    obtain ⟨m', -, -, h1⟩ := hkept.giveBack hs hc
    have hw' := (hw.leave (hw.notMem_of_calls hc rfl)).setMq q (x := mqFreed (s.objects.mq q) msg)
      (by rw [setCalls_objects]; rfl)
    have hss := hsend.enters_ne_nil (head_ne_of_calls hc rfl)
    rw [wakeFirst_objects, setMq_mq] at hf'
    rw [← h1.lists.free.unique hf']
    exact Covered.wakeFirst (s := (s.setCalls _ []).setMq q _) hss hw' le_rfl
  | reset hx =>
    have hall := (hsend.wakeAll hw (.mqRecv q)).wakeAll (hw.wakeAll _) (.mqSend q)
    refine Covered.of_nil (s := ((s.wakeAll (.mqRecv q)).wakeAll (.mqSend q)).setMq q _) hall ?_
    apply List.eq_nil_iff_forall_not_mem.2
    intro u hu
    exact (mem_list_wakeAll.1 hu).2 (mem_list_wakeAll.1 hu).1

theorem MqServed.step (hm : MqServed q n s) (hn : n ≤ Kernel.mqEntryMax) (hw : s.Waiting) (hst : Step s (ev, r) s')
    (hev : ∀ t h, ev = .delete t → h.retries → ¬s.InFlight h t) : MqServed q n s' := by
  have hq : ∃ m, Queued q n m s' := by
    obtain ⟨m, hm⟩ := hm.queued
    obtain ⟨m', -, hm'⟩ := hm.step hn hw hst
    exact ⟨m', hm'⟩
  by_cases hon : On (.mq q) s r s'
  · exact ⟨hq, hm.recv_mq hw hon, fun free hf => hm.send_mq hn hw hon hf⟩
  · have hsame : s'.objects.mq q = s.objects.mq q := sameAt_of_not_on hw hst hon
    refine ⟨hq, ?_, fun free hf => ?_⟩
    · rw [hsame]
      exact hm.recv.elsewhere hw hst hon rfl rfl hev fun x hx => hx
    · rw [hsame] at hf
      refine (hm.send free hf).elsewhere hw hst hon rfl rfl hev fun x hx => ?_
      have hnone : (s.objects.mq q).msgQueueFree = none := hx
      rw [hnone] at hf
      cases free with
      | nil => rfl
      | cons y ys => cases hf.1

end Waits

/-! ## Runs -/

namespace Kernel

variable {k0 k : Kernel} {ls : List (Ev × Option Ret)} {h : ListHead} {t : ThreadId} {n : Nat}

/-- The thread waited in `h`, was resumed with `RT_EOK`, and has not run yet. -/
def Resumed (k : Kernel) (h : ListHead) (t : ThreadId) : Prop :=
  (k.thread t).stat ≠ .close ∧ (k.thread t).error = .eok ∧ ∃ f ∈ (k.thread t).cont, f.head = some h

/-- No thread is deleted between being resumed and running. -/
def NoneDeleted (k : Kernel) (ev : Ev) : Prop := ∀ t h, ev = .delete t → h.retries → ¬k.Resumed h t

/-- If threads wait in `h`, then `n` at most are there to be had, as many as threads have been resumed for them. -/
structure Served (k : Kernel) (h : ListHead) (n : Nat) : Prop where
  counted : ∃ F : Finset ThreadId, (∀ t, t ∈ F ↔ k.Resumed h t) ∧ (k.tlist h ≠ [] → n ≤ F.card)
  idle : (∀ t, ¬k.Resumed h t) → k.tlist h ≠ [] → n = 0

theorem IpcInv.resumed_iff (I : k.IpcInv) : k.Resumed h t ↔ k.waits.InFlight h t := by
  have hphase : (k.waits.waiter t).phase ≠ .closed ↔ (k.thread t).stat ≠ .close := not_congr Stat.phase_eq_closed
  constructor
  · rintro ⟨hs, he, f, hf, hh⟩
    refine ⟨hphase.2 hs, he, f, ?_, hh⟩
    have hmem : f ∈ k.waits.calls (.thread t) := by
      rw [waits_calls, List.mem_filter]
      exact ⟨hf, by cases f <;> first | rfl | cases hh⟩
    have hle := I.waiting.calls_le (.thread t)
    match hcalls : k.waits.calls (.thread t), hle with
    | [], _ => rw [hcalls] at hmem; cases hmem
    | [g], _ =>
      rw [hcalls, List.mem_singleton] at hmem
      rw [hmem]
      exact hcalls
  · rintro ⟨hs, he, f, hf, hh⟩
    refine ⟨hphase.1 hs, he, f, ?_, hh⟩
    have hmem : f ∈ k.waits.calls (.thread t) := by
      rw [Waits.calls_thread, hf]
      simp
    rw [waits_calls, List.mem_filter] at hmem
    exact hmem.1

theorem IpcInv.served (I : k.IpcInv) (hh : h.obj.isSome) (hc : Waits.Covered h n k.waits) : k.Served h n := by
  obtain ⟨F, hF, hcard⟩ := hc
  rw [waits_list hh] at hcard
  have hF' (t : ThreadId) : t ∈ F ↔ k.Resumed h t := by rw [hF, I.resumed_iff]
  refine ⟨⟨F, hF', hcard⟩, fun hnone hl => ?_⟩
  have hempty : F = ∅ := Finset.eq_empty_of_forall_notMem fun t ht => hnone t ((hF' t).1 ht)
  have hle := hcard hl
  rw [hempty] at hle
  exact Nat.le_zero.1 hle

/-- No lost wake-up: while threads wait for mails, messages or room, everything that is there is covered by threads that
were resumed and have not run yet. -/
theorem no_lost_wakeup (hb : Boot k0) (hr : KRun NoneDeleted k0 ls k) :
    (∀ b flag msgPool size, k0.mailbox b = rtMbInit flag msgPool size → size ≤ 65535 →
      k.Served (.mbRecv b) (k.mailbox b).entry ∧ k.Served (.mbSend b) ((k.mailbox b).size - (k.mailbox b).entry)) ∧
    ∀ q flag msgSize maxMsgs, k0.mq q = rtMqInit flag msgSize maxMsgs → maxMsgs ≤ 65535 →
      k.Served (.mqRecv q) (k.mq q).entry ∧
      ∃ free, Singly.Chain (k.mq q).next (k.mq q).msgQueueFree free ∧ k.Served (.mqSend q) free.length := by
  have hcalls (c : Context) : k0.waits.calls c = [] := by
    rw [waits_calls]
    cases c with
    | thread t => rw [frames, hb.cont]; rfl
    | isr i => rw [frames, hb.isrCont]; rfl
  have hcover (h : ListHead) (n : Nat) : Waits.Covered h n k0.waits := by
    refine ⟨∅, fun t => ?_, fun hl => absurd ?_ hl⟩
    · refine iff_of_false (by simp) (Waits.not_inFlight_of_nil ?_)
      exact hcalls (.thread t)
    · change (if h.obj.isSome then k0.tlist h else []) = []
      rw [hb.tlist, ite_self]
  have hdelete (k : Kernel) (ev : Ev) (I : k.IpcInv) (hok : NoneDeleted k ev) :
      ∀ t h, ev = .delete t → h.retries → ¬k.waits.InFlight h t := by
    intro t h ht hh hin
    exact hok t h ht hh (I.resumed_iff.2 hin)
  constructor
  · intro b flag msgPool size hm hsize
    have h0 : Waits.MailServed b size k0.waits := by
      refine ⟨?_, ?_, hcover _ _, hcover _ _⟩
      · change (k0.mailbox b).size = size
        rw [hm]; rfl
      · change (k0.mailbox b).entry ≤ size
        rw [hm]; exact Nat.zero_le _
    obtain ⟨I, hserved⟩ := hr.waits_invariant (J := Waits.MailServed b size) hb h0
      fun k ev r s' I hJ hok hst => hJ.step hsize I.waiting hst (hdelete k ev I hok)
    have hsz : (k.mailbox b).size = size := hserved.size_eq
    refine ⟨I.served rfl hserved.recv, ?_⟩
    rw [hsz]
    exact I.served rfl hserved.send
  · intro q flag msgSize maxMsgs hm hmax
    have h0 : Waits.MqServed q maxMsgs k0.waits :=
      ⟨⟨_, .init flag msgSize hcalls hm⟩, hcover _ _, fun _ _ => hcover _ _⟩
    obtain ⟨I, hserved⟩ := hr.waits_invariant (J := Waits.MqServed q maxMsgs) hb h0
      fun k ev r s' I hJ hok hst => hJ.step hmax I.waiting hst (hdelete k ev I hok)
    obtain ⟨m, -, free, bufs, hkept⟩ := hserved.queued
    refine ⟨I.served rfl hserved.recv, free, hkept.lists.free, ?_⟩
    exact I.served rfl (hserved.send free hkept.lists.free)

/-- Two threads wait for a mail, and an interrupt handler sends one. -/
def wakeupEvents : List Ev :=
  [.startup true 0, .startup true 1, .schedulerStart, .mbRecv 0 0xffffffff#32 .uninterruptible, .cont,
    .mbRecv 0 0xffffffff#32 .uninterruptible, .mbUrgent true 0 7#64]

theorem no_lost_wakeup_oneMail :
    (after 2 (boot 32 fun _ => 10) wakeupEvents).Served (.mbRecv 0) 1 ∧
      (after 2 (boot 32 fun _ => 10) wakeupEvents).tlist (.mbRecv 0) ≠ [] := by
  have hrun : KRun NoneDeleted (boot 32 fun _ => 10) (labels 2 (boot 32 fun _ => 10) wakeupEvents)
      (after 2 (boot 32 fun _ => 10) wakeupEvents) := by
    refine KRun.of_exec 2 _ wakeupEvents (by decide) fun e he k t h hd => ?_
    subst hd
    simp [wakeupEvents] at he
  have h := (no_lost_wakeup (boot_boot (by decide) fun _ => by decide) hrun).1 0 .fifo (fun _ => 0#64) 4 rfl (by decide)
  have hentry : ((after 2 (boot 32 fun _ => 10) wakeupEvents).mailbox 0).entry = 1 := by decide +kernel
  exact ⟨h.1, by decide +kernel⟩

end Kernel

end RtThread
