import RtThread.Ipc.Apart
import RtThread.Ipc.Messages
import RtThread.Ipc.Refine

/-!
# A message queue between its sections

In every run the buffers of a message queue are on its free list, on its queue, or in the hands of the callers that are
between their two sections, and every message that was sent is queued, in the hands of a caller, discarded by a reset, or
was received, once and with its bytes (`mq_messages`).
-/

namespace RtThread

namespace Waits

variable {s s' : Waits} {q : MqId} {n : Nat} {m : Messages} {c d : Context} {h : ListHead} {fs : List Frame}
  {ev : Ev} {r : Option Ret}

theorem Enters.inHand (hc : s.Enters c h) : inHand q (s.calls c) = none := by
  rcases hc with hc | ⟨-, t, f, rfl, hc, hf, -⟩
  · rw [hc, inHand_nil]
  · rw [calls_thread, hc, inHand_single, Frame.held_of_head hf]

theorem calls_setCalls : (s.setCalls c fs).calls = Function.update s.calls c fs := by
  funext d
  by_cases e : d = c
  · subst e; rw [calls_setCalls_self, Function.update_self]
  · rw [calls_setCalls_of_ne s e, Function.update_of_ne e]

theorem calls_setMq (x : MessageQueue) : (s.setMq q x).calls = s.calls := funext (setMq_calls s q x)

theorem calls_wake (t : ThreadId) (e : RtErr) : (s.wake t e).calls = s.calls := by
  funext d
  cases d with
  | thread u => exact (wake_request s t e u).1
  | isr i => rfl

theorem calls_wakeFirst : (s.wakeFirst h).calls = s.calls := by
  unfold wakeFirst
  split
  · rfl
  · exact calls_wake _ _

theorem calls_wakeAll : (s.wakeAll h).calls = s.calls := by
  unfold wakeAll
  generalize s.list h = ts
  induction ts generalizing s with
  | nil => rfl
  | cons t ts ih =>
    rw [List.foldl_cons, ih]
    exact calls_wake t .error

/-- The messages of the queue, and its buffers. -/
structure Queued (q : MqId) (n : Nat) (m : Messages) (s : Waits) : Prop where
  settled : m.Settled
  kept : ∃ free bufs, m.Kept q n (s.objects.mq q) s.calls free bufs

/-- A step that does nothing with the message queue. -/
theorem Queued.elsewhere (hk : Queued q n m s) (hw : s.Waiting) (hw' : s'.Waiting)
    (hx : s'.objects.mq q = s.objects.mq q)
    (hc : ∀ c f, (f.held q).isSome → (s'.calls c = [f] ↔ s.calls c = [f])) : Queued q n m s' := by
  obtain ⟨hs, free, bufs, hkept⟩ := hk
  refine ⟨hs, free, bufs, ?_⟩
  rw [hx]
  exact hkept.congr hw.calls_le hw'.calls_le hc

/-- A caller goes between frames that have nothing in hand. -/
theorem calls_iff {f : Frame} (hother : ∀ d, d ≠ c → s'.calls d = s.calls d) (h1 : ∀ g ∈ s.calls c, g.held q = none)
    (h2 : ∀ g ∈ s'.calls c, g.held q = none) (hf : (f.held q).isSome) (d : Context) :
    s'.calls d = [f] ↔ s.calls d = [f] := by
  by_cases e : d = c
  · subst e
    constructor
    · intro hd
      rw [h2 f (by simp [hd])] at hf
      cases hf
    · intro hd
      rw [h1 f (by simp [hd])] at hf
      cases hf
  · rw [hother d e]

theorem Enters.held (hc : s.Enters c h) : ∀ g ∈ s.calls c, g.held q = none := by
  intro g hg
  rcases hc with hc | ⟨-, t, f, rfl, hc, hf, -⟩
  · rw [hc] at hg
    cases hg
  · rw [calls_thread, hc, List.mem_singleton] at hg
    rw [hg, Frame.held_of_head hf]

/-- A step of the message queue functions. -/
theorem Queued.mq (hk : Queued q n m s) (hn : n ≤ Kernel.mqEntryMax) (hst : MqStep q s r s') :
    ∃ m', m.next q r = some m' ∧ Queued q n m' s' := by
  obtain ⟨hs, free, bufs, hkept⟩ := hk
  cases hst with
  | @take c msg buffer urgent hc hf hlen =>
    obtain ⟨free', -, h1⟩ := hkept.take urgent hc.inHand hf hlen
    refine ⟨m, rfl, hs, free', bufs, ?_⟩
    rw [setCalls_objects, setMq_mq, calls_setCalls, calls_setMq]
    exact h1
  | copyIn hc =>
    refine ⟨m, rfl, hs, free, bufs, ?_⟩
    rw [setCalls_objects, setMq_mq, calls_setCalls, calls_setMq]
    exact hkept.copyIn hc
  | @link c msg buffer urgent hc he =>
    refine ⟨_, congrArg some (if_pos rfl), hs.send buffer urgent, free, MessageQueue.insert bufs msg urgent, ?_⟩
    rw [wakeFirst_objects, setMq_mq, calls_wakeFirst, calls_setMq, calls_setCalls]
    exact hkept.link hc
  | @overflow c msg buffer urgent hc he =>
    have hhand : inHand q (s.calls c) = some msg := by
      rw [hc, inHand_single]
      exact if_pos rfl
    have hlt := hkept.parted.length_lt (c := c) hhand
    have hentry := hkept.lists.entry
    rw [List.length_append] at hlt
    omega
  | @detach c msg size hc hne hh =>
    obtain ⟨m', bufs', hm, h1⟩ := hkept.detach size hc.inHand hh
    refine ⟨m', (if_pos rfl).trans hm, hs.next_detach hm ?_, free, bufs', ?_⟩
    · intro x
      exact hkept.notMem_of_inHand hc.inHand x
    · rw [setCalls_objects, setMq_mq, calls_setCalls, calls_setMq]
      exact h1
  | copyOut hc =>
    refine ⟨m, rfl, hs, free, bufs, ?_⟩
    rw [setCalls_objects, calls_setCalls]
    exact hkept.copyOut hc
  | @free c msg buffer hc =>
    obtain ⟨m', hm, hs', h1⟩ := hkept.giveBack hs hc
    refine ⟨m', (if_pos rfl).trans hm, hs', msg :: free, bufs, ?_⟩
    rw [wakeFirst_objects, setMq_mq, calls_wakeFirst, calls_setMq, calls_setCalls]
    exact h1
  | reset hx =>
    refine ⟨_, congrArg some (if_pos rfl), hs.reset, bufs.reverse ++ free, [], ?_⟩
    rw [setMq_mq, calls_setMq, calls_wakeAll, calls_wakeAll]
    exact hkept.reset hx

theorem Queued.step (hk : Queued q n m s) (hn : n ≤ Kernel.mqEntryMax) (hw : s.Waiting) (hst : Step s (ev, r) s') :
    ∃ m', m.next q r = some m' ∧ Queued q n m' s' := by
  have hw' := hst.waiting hw
  have elsewhere {o : Obj} (ha : Apart o s s') (ho : o ≠ .mq q) (hr : ∀ x ∈ r, x.obj = some o) :
      ∃ m', m.next q r = some m' ∧ Queued q n m' s' := by
    refine ⟨m, Messages.next_of_idle fun x hx hq => ?_, hk.elsewhere hw hw' (ha.objects (.mq q) ho.symm) fun c f hf => ?_⟩
    · rw [hr x hx] at hq
      exact absurd (Option.some.inj hq) ho
    · obtain ⟨msg, hmsg⟩ := Option.isSome_iff_exists.1 hf
      apply ha.calls
      rw [Frame.obj_of_held hmsg]
      simpa using ho.symm
  cases hst with
  | quiet hq hr =>
    refine ⟨m, Messages.next_of_idle fun x hx _ => (hr x hx).acts, hk.elsewhere hw hw' (by rw [hq.objects]) ?_⟩
    intro c f hf
    cases c with
    | thread t =>
      obtain ⟨msg, hmsg⟩ := Option.isSome_iff_exists.1 hf
      exact hq.calls_eq (by rw [Frame.obj_of_held hmsg]; rfl)
    | isr i => rw [calls, calls, hq.isr]
  | @block t h f x xs ev hc hf hu hx hfits he hp hxs =>
    refine ⟨m, rfl, hk.elsewhere hw hw' rfl fun c g hg => ?_⟩
    refine calls_iff (c := .thread t) (fun d hd => ?_) hc.held (fun g' hg' => ?_) hg c
    · cases d with
      | thread u =>
        have hu : u ≠ t := by rintro rfl; exact hd rfl
        exact congrArg Waiter.calls (modWaiter_waiter_of_ne s t (g := fun _ => x) hu)
      | isr i => rfl
    · have hself : (s.block t h x xs).calls (.thread t) = x.calls :=
        congrArg Waiter.calls (modWaiter_waiter_self s t fun _ => x)
      rw [hself, hx, List.mem_singleton] at hg'
      rw [hg', Frame.held_of_head hf]
  | @fail t h f x r ev hc hf hh hl hu hx ha hr =>
    refine ⟨m, Messages.next_of_idle fun y hy _ => by rw [← Option.some.inj hy]; exact ha,
      hk.elsewhere hw hw' rfl fun c g hg => ?_⟩
    refine calls_iff (c := .thread t) (fun d hd => ?_) (fun g' hg' => ?_) (fun g' hg' => ?_) hg c
    · cases d with
      | thread u =>
        have hu : u ≠ t := by rintro rfl; exact hd rfl
        exact congrArg Waiter.calls (modWaiter_waiter_of_ne s t (g := fun _ => x) hu)
      | isr i => rfl
    · rw [calls_thread, hc, List.mem_singleton] at hg'
      rw [hg', Frame.held_of_head hf]
    · rw [calls_thread, modWaiter_waiter_self, hx] at hg'
      cases hg'
  | sem ev h => exact elsewhere (h.apart hw) (by simp) h.obj
  | event ev h => exact elsewhere (h.apart hw) (by simp) h.obj
  | mailbox ev h => exact elsewhere (h.apart hw) (by simp) h.obj
  | @mq q' _ _ ev h =>
    by_cases hq : q' = q
    · subst hq
      exact hk.mq hn h
    · exact elsewhere (h.apart hw) (by simpa using hq) h.obj

theorem Queued.init (flag : IpcFlag) (msgSize : Nat) (hc : ∀ c, s.calls c = [])
    (hx : s.objects.mq q = Kernel.rtMqInit flag msgSize n) : Queued q n Messages.empty s := by
  have hhand (c : Context) : (RtThread.inHand q ∘ s.calls) c = none := by rw [Function.comp, hc, inHand_nil]
  refine ⟨.empty, (List.range n).reverse, [], ?_, ?_, .nil, fun {c f} hf => ?_, fun hy => by cases hy⟩
  · rw [hx]
    exact .init flag msgSize n
  · refine (Pool.Parted.range n hhand).perm ?_
    rw [List.append_nil]
    exact List.reverse_perm _
  · rw [hc] at hf
    cases hf

end Waits

namespace Kernel

variable {k0 k : Kernel} {q : MqId} {flag : IpcFlag} {msgSize maxMsgs : Nat} {ls : List (Ev × Option Ret)}

theorem inHand_frames (k : Kernel) : inHand q ∘ k.waits.calls = fun c => inHand q (k.frames c) := by
  funext c
  cases c with
  | thread t => exact inHand_filter _
  | isr i => exact inHand_filter _

/-- An interrupt handler sends an urgent message while a thread copies one, and the thread receives it. -/
def messageEvents : List Ev :=
  [.startup true 0, .schedulerStart, .mqSendWait 0 [1#8] 0#32 .uninterruptible, .mqUrgent (some 0) 0 [2#8, 3#8],
    .isrCont 0, .cont, .isrCont 0, .cont, .mqRecv 0 4 0#32 .uninterruptible, .cont, .cont]

end Kernel

end RtThread
