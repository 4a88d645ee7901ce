import RtThread.Ipc.Apart
import RtThread.Ipc.Refine
import RtThread.Lib.Circular
import RtThread.Lib.Deque

/-!
# A mailbox is a bounded double-ended queue

The labels of a run say which mails were sent and received; `Mails.replay` reads them as the operations of a bounded
double-ended queue, and fails where a call returns `RT_EOK` that the queue does not allow. No run fails, and the ring of
the mailbox holds the queue (`mailbox_deque`).
-/

namespace RtThread

/-- What was done with one mailbox; the mails that were taken are the ones received. -/
abbrev Mails := Deque.Log (BitVec 64)

namespace Mails

/-- A mail is sent: `rt_mb_send_wait` puts it at the end, `rt_mb_urgent` at the front. -/
def send (m : Mails) (size : Nat) (value : BitVec 64) (urgent : Bool) : Option Mails :=
  if m.queue.length < size then some (Deque.Log.send m value urgent) else none

/-- The first mail is received. -/
def recv (m : Mails) (value : BitVec 64) : Option Mails :=
  match m.take with
  | none => none
  | some (x, m') => if x.value = value then some m' else none

/-- The double-ended queue of the mailbox `b` after a step; a call that returns an error does nothing. -/
def next (b : MailboxId) (size : Nat) (m : Mails) : Option Ret → Option Mails
  | some (.mbSendWait _ b' value .eok) => if b' = b then m.send size value false else some m
  | some (.mbUrgent b' value .eok) => if b' = b then m.send size value true else some m
  | some (.mbRecv _ b' .eok value) => if b' = b then m.recv value else some m
  | _ => some m

/-- The double-ended queue after a run. -/
def replay (b : MailboxId) (size : Nat) (ls : List (Ev × Option Ret)) : Option Mails :=
  ls.foldlM (fun m l => m.next b size l.2) Deque.Log.empty

variable {b : MailboxId} {size : Nat} {m m' m'' : Mails} {value : BitVec 64} {urgent : Bool} {r : Option Ret}
  {ls ls' : List (Ev × Option Ret)}

theorem replay_snoc {l : Ev × Option Ret} :
    replay b size (ls ++ [l]) = (replay b size ls).bind fun m => m.next b size l.2 := by
  simp [replay, List.foldlM_append]

theorem send_eq_some (hs : m.send size value urgent = some m') :
    m.queue.length < size ∧ m' = Deque.Log.send m value urgent := by
  unfold send at hs
  split at hs
  · exact ⟨‹_›, (Option.some.inj hs).symm⟩
  · cases hs

theorem recv_eq_some (hr : m.recv value = some m') : ∃ x, x.value = value ∧ m.take = some (x, m') := by
  unfold recv at hr
  split at hr
  · cases hr
  · rename_i x m1 ht
    split at hr
    · cases hr
      exact ⟨x, ‹_›, ht⟩
    · cases hr

/-- The three ways a step changes the queue. -/
theorem next_cases (hn : m.next b size r = some m') :
    m' = m ∨ (∃ value urgent, m.send size value urgent = some m') ∨ ∃ value, m.recv value = some m' := by
  unfold next at hn
  split at hn
  · split at hn
    · exact Or.inr (Or.inl ⟨_, _, hn⟩)
    · exact Or.inl (Option.some.inj hn).symm
  · split at hn
    · exact Or.inr (Or.inl ⟨_, _, hn⟩)
    · exact Or.inl (Option.some.inj hn).symm
  · split at hn
    · exact Or.inr (Or.inr ⟨_, hn⟩)
    · exact Or.inl (Option.some.inj hn).symm
  · exact Or.inl (Option.some.inj hn).symm

theorem order_next (hn : m.next b size r = some m') : m.order.Sublist m'.order := by
  rcases next_cases hn with rfl | ⟨value, urgent, hs⟩ | ⟨value, hr⟩
  · exact List.Sublist.refl _
  · rw [(send_eq_some hs).2]
    exact Deque.Log.order_send
  · obtain ⟨x, -, ht⟩ := recv_eq_some hr
    rw [Deque.Log.order_take ht]

theorem order_foldlM (hm : ls.foldlM (fun m l => m.next b size l.2) m = some m') : m.order.Sublist m'.order := by
  induction ls generalizing m with
  | nil =>
    cases hm
    exact List.Sublist.refl _
  | cons l ls ih =>
    obtain ⟨m1, h1, h2⟩ := Option.bind_eq_some_iff.1 hm
    exact (order_next h1).trans (ih h2)

/-- A mail is received where it stood when it was sent. -/
theorem order_replay (hm : replay b size (ls ++ ls') = some m'') :
    ∃ m, replay b size ls = some m ∧ m.order.Sublist m''.order := by
  unfold replay at hm
  rw [List.foldlM_append] at hm
  obtain ⟨m, h1, h2⟩ := Option.bind_eq_some_iff.1 hm
  exact ⟨m, h1, order_foldlM h2⟩

/-! ## The ring -/

/-- The ring of the mailbox holds the queue. -/
structure Stored (m : Mails) (x : Mailbox) : Prop where
  length : x.entry = m.queue.length
  le_size : x.entry ≤ x.size
  outOffset_lt : x.outOffset < x.size
  inOffset_eq : x.inOffset = (x.outOffset + x.entry) % x.size
  content : m.queue.map Deque.Item.value = Circular.content x.msgPool x.size x.outOffset x.entry

variable {x : Mailbox}

theorem Stored.init (flag : IpcFlag) (msgPool : Nat → BitVec 64) (hs : 0 < size) :
    Stored Deque.Log.empty (Kernel.rtMbInit flag msgPool size) where
  length := rfl
  le_size := Nat.zero_le _
  outOffset_lt := hs
  inOffset_eq := (Nat.zero_mod _).symm
  content := rfl

theorem Stored.put (hx : m.Stored x) (hn : x.entry ≠ x.size) (value : BitVec 64) :
    ∃ m', m.send x.size value false = some m' ∧
      m'.Stored { Waits.mailPut x value with entry := x.entry + 1 } := by
  have hlt : x.entry < x.size := lt_of_le_of_ne hx.le_size hn
  refine ⟨_, if_pos (by rw [← hx.length]; exact hlt), ?_⟩
  have hin : x.inOffset < x.size := by
    rw [hx.inOffset_eq]
    exact Nat.mod_lt _ (Nat.zero_lt_of_lt hlt)
  constructor
  · simp [Deque.Log.send, hx.length]
  · exact hlt
  · exact hx.outOffset_lt
  · change (if x.size ≤ x.inOffset + 1 then 0 else x.inOffset + 1) = (x.outOffset + (x.entry + 1)) % x.size
    rw [Circular.succ_mod hin, hx.inOffset_eq, Nat.mod_add_mod, Nat.add_assoc]
  · change List.map Deque.Item.value (m.queue ++ [_]) =
      Circular.content (Function.update x.msgPool x.inOffset value) x.size x.outOffset (x.entry + 1)
    rw [hx.inOffset_eq, Circular.content_push hx.outOffset_lt hlt, List.map_append, hx.content]
    rfl

theorem Stored.putUrgent (hx : m.Stored x) (hn : x.entry ≠ x.size) (value : BitVec 64) :
    ∃ m', m.send x.size value true = some m' ∧ m'.Stored (Waits.mailUrgent x value) := by
  have hlt : x.entry < x.size := lt_of_le_of_ne hx.le_size hn
  refine ⟨_, if_pos (by rw [← hx.length]; exact hlt), ?_⟩
  obtain ⟨hout, hsucc⟩ := Circular.pred_succ_mod hx.outOffset_lt
  constructor
  · simp [Deque.Log.send, Waits.mailUrgent, hx.length]
  · exact hlt
  · exact hout
  · change x.inOffset = ((if 0 < x.outOffset then x.outOffset - 1 else x.size - 1) + (x.entry + 1)) % x.size
    rw [Nat.add_comm x.entry 1, ← Nat.add_assoc, ← Nat.mod_add_mod, hsucc]
    exact hx.inOffset_eq
  · change List.map Deque.Item.value (_ :: m.queue) = Circular.content
      (Function.update x.msgPool (if 0 < x.outOffset then x.outOffset - 1 else x.size - 1) value) x.size
      (if 0 < x.outOffset then x.outOffset - 1 else x.size - 1) (x.entry + 1)
    rw [Circular.content_unshift hout hsucc hlt, List.map_cons, hx.content]
    rfl

theorem Stored.get (hx : m.Stored x) (hn : x.entry ≠ 0) :
    ∃ m', m.recv (x.msgPool x.outOffset) = some m' ∧ m'.Stored (Waits.mailGet x) := by
  obtain ⟨n, hcount⟩ := Nat.exists_eq_succ_of_ne_zero hn
  have hmap := hx.content
  rw [hcount, Nat.succ_eq_add_one, Circular.content_pop hx.outOffset_lt] at hmap
  obtain ⟨y, ys, hq, hy, hys⟩ := List.map_eq_cons_iff.1 hmap
  refine ⟨{ m with queue := ys, taken := m.taken ++ [y] }, by simp [recv, Deque.Log.take, hq, hy], ?_⟩
  have hle := hx.le_size
  constructor
  · have hlen := hx.length
    simp only [hq, List.length_cons] at hlen
    change x.entry - 1 = ys.length
    omega
  · change x.entry - 1 ≤ x.size
    omega
  · change (if x.size ≤ x.outOffset + 1 then 0 else x.outOffset + 1) < x.size
    rw [Circular.succ_mod hx.outOffset_lt]
    exact Nat.mod_lt _ (Nat.zero_lt_of_lt hx.outOffset_lt)
  · change x.inOffset = ((if x.size ≤ x.outOffset + 1 then 0 else x.outOffset + 1) + (x.entry - 1)) % x.size
    rw [Circular.succ_mod hx.outOffset_lt, Nat.mod_add_mod, hx.inOffset_eq]
    congr 1
    omega
  · change List.map Deque.Item.value ys = Circular.content x.msgPool x.size
      (if x.size ≤ x.outOffset + 1 then 0 else x.outOffset + 1) (x.entry - 1)
    rw [Circular.succ_mod hx.outOffset_lt, hys, hcount]
    rfl

/-! ## Steps -/

/-- A step that does nothing with the mailbox is no operation of the queue. -/
theorem next_of_idle (hr : ∀ x ∈ r, x.obj = some (.mailbox b) → x.acts = false) : m.next b size r = some m := by
  unfold next
  split
  · rw [if_neg fun hb => by simpa [Ret.acts] using hr _ rfl (by simp [hb])]
  · rw [if_neg fun hb => by simpa [Ret.acts] using hr _ rfl (by simp [hb])]
  · rw [if_neg fun hb => by simpa [Ret.acts] using hr _ rfl (by simp [hb])]
  · rfl

theorem ordered_send (ho : m.Ordered) (hs : m.send size value urgent = some m') : m'.Ordered := by
  rw [(send_eq_some hs).2]
  exact ho.send value urgent

theorem ordered_recv (ho : m.Ordered) (hr : m.recv value = some m') : m'.Ordered := by
  obtain ⟨x, -, ht⟩ := recv_eq_some hr
  exact ho.take ht

/-- The queue, and the ring with it. -/
structure Deque (b : MailboxId) (size : Nat) (m : Mails) (s : Waits) : Prop where
  ordered : m.Ordered
  stored : m.Stored (s.objects.mailbox b)
  size_eq : (s.objects.mailbox b).size = size

variable {s s' : Waits} {ev : Ev}

theorem Deque.of_eq (hd : m.Deque b size s) (he : s'.objects.mailbox b = s.objects.mailbox b) :
    m.Deque b size s' :=
  ⟨hd.ordered, by rw [he]; exact hd.stored, by rw [he]; exact hd.size_eq⟩

/-- A step of the mailbox functions: the queue allows it, and if it does nothing the ring is the same. -/
theorem Deque.mailbox (hd : m.Deque b size s) (hsize : size ≤ Kernel.mbEntryMax) (hst : Waits.MailboxStep b s r s') :
    (∃ m', m.next b size r = some m' ∧ m'.Deque b size s') ∧ ∃ x ∈ r, x.obj = some (.mailbox b) ∧ x.acts = true := by
  have hsz := hd.size_eq
  cases hst with
  | @send t value hc hn he =>
    obtain ⟨m', hm, hs⟩ := hd.stored.put hn value
    rw [hsz] at hm
    refine ⟨⟨m', (if_pos rfl).trans hm, ordered_send hd.ordered hm, ?_, ?_⟩, _, rfl, rfl, by simp [Ret.acts]⟩
    · simpa using hs
    · simpa [Waits.mailPut] using hsz
  | overflow hc hn he =>
    have hlt := lt_of_le_of_ne hd.stored.le_size hn
    omega
  | @urgent value hn =>
    obtain ⟨m', hm, hs⟩ := hd.stored.putUrgent hn value
    rw [hsz] at hm
    refine ⟨⟨m', (if_pos rfl).trans hm, ordered_send hd.ordered hm, ?_, ?_⟩, _, rfl, rfl, by simp [Ret.acts]⟩
    · simpa using hs
    · simpa [Waits.mailUrgent] using hsz
  | recv hc hn =>
    obtain ⟨m', hm, hs⟩ := hd.stored.get hn
    refine ⟨⟨m', (if_pos rfl).trans hm, ordered_recv hd.ordered hm, ?_, ?_⟩, _, rfl, rfl, by simp [Ret.acts]⟩
    · simpa using hs
    · simpa [Waits.mailGet] using hsz

/-- Every other step leaves the mailbox alone, and is no operation of the queue. -/
theorem mailbox_cases (hw : s.Waiting) (hst : Waits.Step s (ev, r) s') :
    Waits.MailboxStep b s r s' ∨
      s'.objects.mailbox b = s.objects.mailbox b ∧ ∀ x ∈ r, x.obj = some (.mailbox b) → x.acts = false := by
  have elsewhere {o : Obj} (ha : Waits.Apart o s s') (ho : o ≠ .mailbox b) (hr : ∀ x ∈ r, x.obj = some o) :
      s'.objects.mailbox b = s.objects.mailbox b ∧ ∀ x ∈ r, x.obj = some (.mailbox b) → x.acts = false := by
    refine ⟨ha.objects (.mailbox b) ho.symm, fun x hx hb => ?_⟩
    rw [hr x hx] at hb
    exact absurd (Option.some.inj hb) ho
  cases hst with
  | quiet hq hr => exact Or.inr ⟨by rw [hq.objects], fun x hx _ => (hr x hx).acts⟩
  | block ev hc hf hu hx hs he hp hxs => exact Or.inr ⟨rfl, by simp⟩
  | fail ev hc hf hh hl hu hx ha hr => exact Or.inr ⟨rfl, fun y hy _ => by rw [← Option.some.inj hy]; exact ha⟩
  | sem ev h => exact Or.inr (elsewhere (h.apart hw) (by simp) h.obj)
  | event ev h => exact Or.inr (elsewhere (h.apart hw) (by simp) h.obj)
  | @mailbox b' _ _ ev h =>
    by_cases hb : b' = b
    · subst hb; exact Or.inl h
    · exact Or.inr (elsewhere (h.apart hw) (by simpa using hb) h.obj)
  | mq ev h => exact Or.inr (elsewhere (h.apart hw) (by simp) h.obj)

theorem Deque.step (hd : m.Deque b size s) (hsize : size ≤ Kernel.mbEntryMax) (hw : s.Waiting)
    (hst : Waits.Step s (ev, r) s') : ∃ m', m.next b size r = some m' ∧ m'.Deque b size s' := by
  rcases mailbox_cases (b := b) hw hst with h | ⟨he, hr⟩
  · exact (hd.mailbox hsize h).1
  · exact ⟨m, next_of_idle hr, hd.of_eq he⟩

end Mails

namespace Kernel

variable {k0 k k' : Kernel} {t : ThreadId} {b : MailboxId} {size : Nat} {value : BitVec 64}
  {timeout tickDelta : BitVec 32} {flag : SuspendFlag} {ev : Ev} {r : Option Ret} {ls : List (Ev × Option Ret)}

/-! ## Calls that succeed -/

/-- A call that sends `value`, or goes on after `rt_schedule` and was woken without an error. -/
inductive Sends (k : Kernel) (b : MailboxId) (value : BitVec 64) : Ev → (urgent : Bool) → Prop
  | sendWait {timeout : BitVec 32} {flag : SuspendFlag} : Sends k b value (.mbSendWait b value timeout flag) false
  | urgent {isr : Bool} : Sends k b value (.mbUrgent isr b value) true
  | wake {t : ThreadId} {timeout tickDelta : BitVec 32} {flag : SuspendFlag} {fs : List Frame}
      (ht : k.currentThread = some t) (hc : (k.thread t).cont = .mbSendWait b value timeout tickDelta flag :: fs)
      (he : (k.thread t).error = .eok) : Sends k b value .cont false

/-- The same for a call that receives. -/
inductive Receives (k : Kernel) (b : MailboxId) : Ev → Prop
  | recv {timeout : BitVec 32} {flag : SuspendFlag} : Receives k b (.mbRecv b timeout flag)
  | wake {t : ThreadId} {timeout tickDelta : BitVec 32} {flag : SuspendFlag} {fs : List Frame}
      (ht : k.currentThread = some t) (hc : (k.thread t).cont = .mbRecv b timeout tickDelta flag :: fs)
      (he : (k.thread t).error = .eok) : Receives k b .cont

theorem mbSendWaitLoop_room (hn : (k.mailbox b).entry ≠ (k.mailbox b).size) (hm : (k.mailbox b).entry < mbEntryMax) :
    (k.mbSendWaitLoop t b value timeout tickDelta flag).2.1 = some .eok := by
  simp only [mbSendWaitLoop, if_neg hn, if_pos hm]
  split <;> rfl

theorem mbRecvLoop_mail (hn : (k.mailbox b).entry ≠ 0) :
    (k.mbRecvLoop t b timeout tickDelta flag).2.1 =
      some (.eok, (k.mailbox b).msgPool (k.mailbox b).outOffset) := by
  simp only [mbRecvLoop, if_neg hn]
  split <;> rfl

/-- With room every such call sends its mail. -/
theorem Sends.next {m : Mails} {urgent : Bool} (h : k.Sends b value ev urgent) (hk : k.Step (ev, r) k')
    (hn : (k.mailbox b).entry ≠ (k.mailbox b).size) (hm : (k.mailbox b).entry < mbEntryMax) :
    m.next b size r = m.send size value urgent := by
  obtain ⟨fuel, hk⟩ := hk
  cases h with
  | sendWait =>
    obtain ⟨t, -, hk⟩ := Option.bind_eq_some_iff.1 hk
    cases hk
    rw [rtMbSendWait, if_neg fun h => hn h.1, mbSendWaitLoop_room hn hm]
    exact if_pos rfl
  | urgent =>
    simp only [step] at hk
    split at hk
    · cases hk
      simp only [rtMbUrgent, if_neg hn]
      split <;> exact if_pos rfl
    · cases hk
  | wake ht hc he =>
    simp only [step, ht, hc, reduceCtorEq, false_or] at hk
    split at hk
    · cases hk
      rw [rtMbSendWaitWake, if_neg (by simpa [setCont] using he), mbSendWaitLoop_room (k := k.setCont _ _) hn hm]
      exact if_pos rfl
    · cases hk

/-- With a mail every such call receives the first one. -/
theorem Receives.next {m : Mails} (h : k.Receives b ev) (hk : k.Step (ev, r) k') (hn : (k.mailbox b).entry ≠ 0) :
    m.next b size r = m.recv ((k.mailbox b).msgPool (k.mailbox b).outOffset) := by
  obtain ⟨fuel, hk⟩ := hk
  cases h with
  | recv =>
    obtain ⟨t, -, hk⟩ := Option.bind_eq_some_iff.1 hk
    cases hk
    rw [rtMbRecv, if_neg fun h => hn h.1, mbRecvLoop_mail hn]
    exact if_pos rfl
  | wake ht hc he =>
    simp only [step, ht, hc, reduceCtorEq, false_or] at hk
    split at hk
    · cases hk
      rw [rtMbRecvWake, if_neg (by simpa [setCont] using he), mbRecvLoop_mail (k := k.setCont _ _) hn]
      exact if_pos rfl
    · cases hk

/-- In every run a mailbox is a bounded double-ended queue: the calls that return `RT_EOK` are operations of the queue,
its ring holds the queue, every mail is in it or received once, an urgent one before those queued when it was sent, a
call that finds room, or a mail, succeeds, and the other steps leave the mailbox alone. -/
theorem mailbox_deque {flag : IpcFlag} {msgPool : Nat → BitVec 64} (hb : Boot k0)
    (hm : k0.mailbox b = rtMbInit flag msgPool size) (hsize : 1 ≤ size ∧ size ≤ 65535)
    (hr : KRun (fun _ _ => True) k0 ls k) :
    (∃ m, Mails.replay b size ls = some m ∧ m.Ordered ∧ m.Stored (k.mailbox b) ∧ (k.mailbox b).size = size ∧
      (∀ ls1 ls2 ev value, ls = ls1 ++ (ev, some (.mbUrgent b value .eok)) :: ls2 →
        ∃ m1, Mails.replay b size ls1 = some m1 ∧
          (m1.taken ++ m1.item value true :: m1.queue).Sublist m.order) ∧
      ∀ ev r k', k.Step (ev, r) k' →
        (∀ value urgent, k.Sends b value ev urgent → m.queue.length < size →
          m.next b size r = m.send size value urgent) ∧
        (k.Receives b ev → m.queue ≠ [] → m.next b size r = m.take.map Prod.snd)) ∧
    ∀ ev r k', k.Step (ev, r) k' → (∀ x ∈ r, x.obj = some (.mailbox b) → x.acts = false) →
      k'.mailbox b = k.mailbox b := by
  have h0 : ∃ m, Mails.replay b size [] = some m ∧ m.Deque b size k0.waits := by
    refine ⟨Deque.Log.empty, rfl, .empty, ?_, ?_⟩
    · change Mails.Stored _ (k0.mailbox b)
      rw [hm]
      exact .init flag msgPool hsize.1
    · change (k0.mailbox b).size = size
      rw [hm]; rfl
  obtain ⟨I, m, hrep, hd⟩ := hr.waits_history (J := fun ls s => ∃ m, Mails.replay b size ls = some m ∧ m.Deque b size s)
    hb h0 fun ls k ev r s' I hJ _ hst => by
      obtain ⟨m, hrep, hd⟩ := hJ
      obtain ⟨m', hnext, hd'⟩ := hd.step hsize.2 I.waiting hst
      refine ⟨m', ?_, hd'⟩
      rw [Mails.replay_snoc, hrep]
      exact hnext
  refine ⟨⟨m, hrep, hd.ordered, hd.stored, hd.size_eq, fun ls1 ls2 ev value hls => ?_,
    fun ev r k' hk => ⟨fun value urgent hev hroom => ?_, fun hev hmail => ?_⟩⟩, fun ev r k' ⟨fuel, hk⟩ hidle => ?_⟩
  · rw [hls, List.append_cons] at hrep
    obtain ⟨m2, h2, hsub⟩ := Mails.order_replay hrep
    rw [Mails.replay_snoc] at h2
    obtain ⟨m1, h1, hnext⟩ := Option.bind_eq_some_iff.1 h2
    obtain ⟨-, rfl⟩ := Mails.send_eq_some ((if_pos rfl).symm.trans hnext)
    exact ⟨m1, h1, hsub⟩
  · have hlt : (k.mailbox b).entry < size := hd.stored.length.trans_lt hroom
    exact hev.next hk (hlt.trans_eq hd.size_eq.symm).ne (hlt.trans_le hsize.2)
  · have hn : (k.mailbox b).entry ≠ 0 := fun h0 => hmail (List.length_eq_zero_iff.1 (hd.stored.length.symm.trans h0))
    obtain ⟨m', hrecv, -⟩ := hd.stored.get hn
    obtain ⟨x, -, htake⟩ := Mails.recv_eq_some hrecv
    rw [htake]
    exact (hev.next hk hn).trans hrecv
  · rcases Mails.mailbox_cases (b := b) I.waiting (step_waits I hk) with h | ⟨he, -⟩
    · obtain ⟨-, x, hx, hobj, hacts⟩ := hd.mailbox hsize.2 h
      rw [hidle x hx hobj] at hacts
      cases hacts
    · exact he

/-- A thread waits for a mail, is woken by the first of two mails, and receives the urgent one. -/
def mailEvents : List Ev :=
  [.startup true 0, .schedulerStart, .mbRecv 0 0xffffffff#32 .uninterruptible, .mbUrgent true 0 1#64,
    .mbUrgent true 0 2#64, .cont, .cont, .mbSendWait 0 3#64 0#32 .uninterruptible]

theorem mailbox_deque_urgent :
    ∃ m, Mails.replay 0 4 (labels 2 (boot 32 fun _ => 10) mailEvents) = some m ∧ m.Ordered ∧
      m.Stored ((after 2 (boot 32 fun _ => 10) mailEvents).mailbox 0) := by
  have hrun : KRun (fun _ _ => True) (boot 32 fun _ => 10) (labels 2 (boot 32 fun _ => 10) mailEvents)
      (after 2 (boot 32 fun _ => 10) mailEvents) :=
    KRun.of_exec 2 _ mailEvents (by decide) fun _ _ _ => trivial
  have hm : (boot 32 fun _ => 10).mailbox 0 = rtMbInit .fifo (fun _ => 0#64) 4 := rfl
  obtain ⟨⟨m, hrep, hord, hst, -, -, -⟩, -⟩ :=
    mailbox_deque (boot_boot (by decide) fun _ => by decide) hm (by decide) hrun
  exact ⟨m, hrep, hord, hst⟩

end Kernel

end RtThread
