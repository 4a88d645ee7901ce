import Mathlib.Data.List.Nodup
import RtThread.Lwp.Channel

/-!
# The protocol of IPC channels

A channel without the pool: messages with their contents in place of the slots (`Protocol`). Its invariant has three parts:
who waits for what (`Shape`), the numbers of the messages from their acceptance to their reception (`Numbers`), and whose
replies are whose (`Replies`). Here is what keeps it: `enqueue`, `handOff`, `leaveReply`, `leaveQueue` and so on, one for
each thing that a section does.
-/

namespace RtThread.LwpIpc

open Function (update update_of_ne update_self)

/-- A message with its number. -/
structure Entry (δ : Type) where
  sender : Option Nat
  needReply : Bool
  data : δ
  number : Nat

structure ProtocolThread (δ : Type) where
  error : Int
  ret : Option (Entry δ)
  wakeup : Option Wakeup
  timer : Option ChannelTimer
  pc : ChannelPc
  request : Nat

structure Protocol (δ : Type) where
  stat : ChannelStat
  reply : Option Nat
  queue : List (Entry δ)
  waitThread : List Nat
  suspendThread : List Nat
  thread : Nat → ProtocolThread δ
  accepted : List (Nat × Bool × δ)
  received : List (Nat × δ)
  replies : List (Option Nat × Nat × δ)
  returned : List (Nat × Nat × δ)

/-- The sender of a message, if it waits for a reply. -/
def Entry.waits {δ : Type} (e : Entry δ) : Option Nat := if e.needReply then e.sender else none

/-- The senders of messages that need a reply. -/
def senders {δ : Type} (queue : List (Entry δ)) : List Nat := queue.filterMap Entry.waits

namespace Protocol

variable {δ : Type} {server t : Nat} {p p' : Protocol δ} {x : ProtocolThread δ} {e : Entry δ} {data : δ} {error : Int}

/-- What holds of a thread by itself. -/
def ThreadOk (server t : Nat) (x : ProtocolThread δ) : Prop :=
  match x.pc with
  | .user => x.ret = none ∧ x.timer = none
  | .send => t ≠ server ∧ x.ret = none ∧ x.error = RT_EOK ∧ x.timer ≠ some .receiver ∧
    (x.wakeup = some .senderWaitRecv ∨ x.wakeup = some .senderWaitReply)
  | .sendResumed => t ≠ server ∧ x.timer = none ∧ (x.error = RT_EOK ↔ x.ret ≠ none)
  | .sendFree => t ≠ server ∧ x.timer = none ∧ x.ret ≠ none
  | .recv => t = server ∧ x.ret = none ∧ x.error = RT_EOK ∧ x.timer ≠ some .sender ∧ x.wakeup = some .receiver
  | .recvResumed => t = server ∧ x.timer = none ∧ (x.error = RT_EOK ↔ x.ret ≠ none)

theorem ThreadOk.at {x : ProtocolThread δ} {pc : _} (h : ThreadOk server t x) (hpc : x.pc = pc) :
    ThreadOk server t { x with pc := pc } := hpc ▸ h

theorem ThreadOk.of {x : ProtocolThread δ} {pc : _} (hpc : x.pc = pc) (h : ThreadOk server t { x with pc := pc }) :
    ThreadOk server t x := by
  subst hpc
  exact h

/-- Who waits for what. -/
structure Shape (server : Nat) (p : Protocol δ) : Prop where
  thread : ∀ t, ThreadOk server t (p.thread t)
  send_iff : ∀ t, (p.thread t).pc = .send ↔ p.reply = some t ∨ t ∈ senders p.queue
  disjoint : ∀ t, p.reply = some t → t ∉ senders p.queue
  nodup : (senders p.queue).Nodup
  waitReply : ∀ t, (p.thread t).pc = .send → (p.thread t).wakeup = some .senderWaitReply → p.reply = some t
  wait_iff : p.stat = .wait ↔ (p.thread server).pc = .recv
  active_iff : p.stat = .active ↔ p.reply ≠ none
  suspend : p.suspendThread = if p.stat = .wait then [server] else []
  empty : p.stat = .wait → p.queue = []
  waitThread : ∃ pre, p.waitThread = pre ++ senders p.queue ∧ (pre = [] ∨ ∃ t, p.reply = some t ∧ pre = [t])

/-- The messages that the server has not seen yet. -/
def pending (server : Nat) (p : Protocol δ) : List (Entry δ) := (p.thread server).ret.toList ++ p.queue

/-- The numbers of the messages in the order in which the server gets them. -/
def line (server : Nat) (p : Protocol δ) : List Nat := (p.received.map Prod.fst).reverse ++ (p.pending server).map Entry.number

structure Numbers (server : Nat) (p : Protocol δ) : Prop where
  entry : ∀ e ∈ p.pending server, ∃ t, e.sender = some t ∧ p.accepted[e.number]? = some (t, e.needReply, e.data)
  received : ∀ k d, (k, d) ∈ p.received → ∃ t needReply, p.accepted[k]? = some (t, needReply, d)
  line : (p.line server).Pairwise (· < ·)

/-- The message that the server works on: the last one received, or the one that it is about to get. -/
def current (server : Nat) (p : Protocol δ) : Option Nat :=
  match (p.thread server).ret with
  | some e => some e.number
  | none => p.received.head?.map Prod.fst

structure Replies (server : Nat) (p : Protocol δ) : Prop where
  request : ∀ t, (p.thread t).pc = .send → ∃ d, p.accepted[(p.thread t).request]? = some (t, true, d)
  number : ∀ e ∈ p.queue, e.needReply = true → ∀ t, e.sender = some t → (p.thread t).request = e.number
  current : ∀ t, p.reply = some t → p.current server = some (p.thread t).request
  replies : ∀ k t d, (k, t, d) ∈ p.replies → ∃ n d', k = some n ∧ p.accepted[n]? = some (t, true, d')
  resumed : ∀ t e, (p.thread t).pc = .sendResumed → (p.thread t).ret = some e →
    (some (p.thread t).request, t, e.data) ∈ p.replies
  returned : ∀ n t d, (n, t, d) ∈ p.returned → (some n, t, d) ∈ p.replies
  delivered : ∀ n t d, (some n, t, d) ∈ p.replies → (n, t, d) ∈ p.returned ∨
    (p.thread t).pc = .sendResumed ∧ (p.thread t).request = n ∧ ∃ e, (p.thread t).ret = some e ∧ e.data = d

structure Inv (server : Nat) (p : Protocol δ) : Prop where
  shape : Shape server p
  numbers : Numbers server p
  replies : Replies server p

/-! ## The numbers -/

theorem getElem?_append {xs : List (Nat × Bool × δ)} {i : Nat} {a b : Nat × Bool × δ} (h : xs[i]? = some a) :
    (xs ++ [b])[i]? = some a := by
  obtain ⟨hi, -⟩ := List.getElem?_eq_some_iff.1 h
  rw [List.getElem?_append_left hi]
  exact h

namespace Numbers

/-- Every number in the line is that of an accepted message. -/
theorem lt_of_mem_line (h : Numbers server p) {n : Nat} (hn : n ∈ p.line server) : n < p.accepted.length := by
  rw [Protocol.line, List.mem_append, List.mem_reverse] at hn
  rcases hn with hn | hn
  · obtain ⟨⟨k, d⟩, hkd, rfl⟩ := List.mem_map.1 hn
    obtain ⟨t, needReply, hk⟩ := h.received k d hkd
    exact (List.getElem?_eq_some_iff.1 hk).1
  · obtain ⟨e, he, rfl⟩ := List.mem_map.1 hn
    obtain ⟨t, -, hk⟩ := h.entry e he
    exact (List.getElem?_eq_some_iff.1 hk).1

/-- A message is accepted, into the queue or by the waiting server. -/
theorem push (h : Numbers server p) (hsender : e.sender = some t) (hnumber : e.number = p.accepted.length)
    (hpending : p'.pending server = p.pending server ++ [e])
    (haccepted : p'.accepted = p.accepted ++ [(t, e.needReply, e.data)]) (hreceived : p'.received = p.received) :
    Numbers server p' := by
  refine ⟨fun e' he' => ?_, fun k d hkd => ?_, ?_⟩
  · rw [hpending, List.mem_append, List.mem_singleton] at he'
    rw [haccepted]
    rcases he' with he' | rfl
    · obtain ⟨t', ht', hk⟩ := h.entry e' he'
      exact ⟨t', ht', getElem?_append hk⟩
    · refine ⟨t, hsender, ?_⟩
      rw [hnumber]
      simp
  · rw [hreceived] at hkd
    rw [haccepted]
    obtain ⟨t', needReply, hk⟩ := h.received k d hkd
    exact ⟨t', needReply, getElem?_append hk⟩
  · have hline : p'.line server = p.line server ++ [p.accepted.length] := by
      rw [Protocol.line, Protocol.line, hpending, hreceived, List.map_append, List.append_assoc, List.map_singleton, hnumber]
    rw [hline, List.pairwise_append]
    refine ⟨h.line, List.pairwise_singleton _ _, fun a ha b hb => ?_⟩
    rw [List.mem_singleton.1 hb]
    exact h.lt_of_mem_line ha

/-- Messages are lost, or nothing changes. -/
theorem sub (h : Numbers server p) (hpending : (p'.pending server).Sublist (p.pending server))
    (haccepted : p'.accepted = p.accepted) (hreceived : p'.received = p.received) : Numbers server p' := by
  refine ⟨fun e' he' => ?_, ?_, ?_⟩
  · rw [haccepted]
    exact h.entry e' (hpending.subset he')
  · rw [haccepted, hreceived]
    exact h.received
  · rw [Protocol.line, hreceived]
    exact h.line.sublist ((hpending.map _).append_left _)

/-- The first message is received. -/
theorem take (h : Numbers server p) (hpending : p.pending server = e :: p'.pending server)
    (haccepted : p'.accepted = p.accepted) (hreceived : p'.received = (e.number, e.data) :: p.received) :
    Numbers server p' := by
  have he := h.entry e (by rw [hpending]; exact List.mem_cons_self)
  refine ⟨fun e' he' => ?_, fun k d hkd => ?_, ?_⟩
  · rw [haccepted]
    exact h.entry e' (by rw [hpending]; exact List.mem_cons_of_mem e he')
  · rw [haccepted]
    rw [hreceived, List.mem_cons] at hkd
    rcases hkd with heq | hkd
    · cases heq
      obtain ⟨t, -, hk⟩ := he
      exact ⟨t, _, hk⟩
    · exact h.received k d hkd
  · have hline : p'.line server = p.line server := by
      rw [Protocol.line, Protocol.line, hpending, hreceived, List.map_cons, List.map_cons, List.reverse_cons, List.append_assoc]
      rfl
    rw [hline]
    exact h.line

end Numbers

/-! ## Who waits for what -/

theorem senders_append (q : List (Entry δ)) (e : Entry δ) : senders (q ++ [e]) = senders q ++ e.waits.toList := by
  cases h : e.waits <;> simp [senders, h]

theorem senders_cons (e : Entry δ) (q : List (Entry δ)) : senders (e :: q) = e.waits.toList ++ senders q := by
  cases h : e.waits <;> simp [senders, h]

namespace Shape

section

variable (h : Shape server p)

include h

theorem not_mem_senders (hpc : (p.thread t).pc ≠ .send) : t ∉ senders p.queue :=
  fun ht => hpc ((h.send_iff t).2 (.inr ht))

theorem reply_ne (hpc : (p.thread t).pc ≠ .send) : p.reply ≠ some t :=
  fun ht => hpc ((h.send_iff t).2 (.inl ht))

/-- Without a thread to reply to, those that wait are the senders in the queue. -/
theorem waitThread_eq (hreply : p.reply = none) : p.waitThread = senders p.queue := by
  obtain ⟨pre, heq, rfl | ⟨t, ht, -⟩⟩ := h.waitThread
  · exact heq
  · rw [hreply] at ht
    cases ht

theorem reply_eq_none (hstat : p.stat ≠ .active) : p.reply = none :=
  not_not.1 fun hne => hstat (h.active_iff.2 hne)

theorem thread_update (hok : ThreadOk server t x) (t' : Nat) :
    ThreadOk server t' (update p.thread t x t') := by
  by_cases htt : t' = t
  · subst htt
    rw [update_self]
    exact hok
  · rw [update_of_ne htt]
    exact h.thread t'

/-- A thread that waits for nothing, before and after. -/
theorem go (hpc : (p.thread t).pc ≠ .send ∧ (p.thread t).pc ≠ .recv) (hx : x.pc ≠ .send ∧ x.pc ≠ .recv)
    (hok : ThreadOk server t x) (hstat : p'.stat = p.stat) (hreply : p'.reply = p.reply)
    (hsenders : senders p'.queue = senders p.queue) (hempty : p.stat = .wait → p'.queue = [])
    (hwaitThread : p'.waitThread = p.waitThread) (hsuspend : p'.suspendThread = p.suspendThread)
    (hthread : p'.thread = update p.thread t x) : Shape server p' := by
  refine ⟨fun t' => ?_, fun t' => ?_, ?_, ?_, fun t' => ?_, ?_, ?_, ?_, ?_, ?_⟩
  · rw [hthread]
    exact h.thread_update hok t'
  · rw [hthread, hreply, hsenders, ← h.send_iff t']
    by_cases htt : t' = t
    · subst htt
      rw [update_self]
      exact iff_of_false hx.1 hpc.1
    · rw [update_of_ne htt]
  · rw [hreply, hsenders]
    exact h.disjoint
  · rw [hsenders]
    exact h.nodup
  · rw [hthread, hreply]
    by_cases htt : t' = t
    · subst htt
      rw [update_self]
      exact fun e => absurd e hx.1
    · rw [update_of_ne htt]
      exact h.waitReply t'
  · rw [hstat, hthread, h.wait_iff]
    by_cases htt : server = t
    · subst htt
      rw [update_self]
      exact iff_of_false hpc.2 hx.2
    · rw [update_of_ne htt]
  · rw [hstat, hreply]
    exact h.active_iff
  · rw [hstat, hsuspend]
    exact h.suspend
  · rw [hstat]
    exact hempty
  · rw [hwaitThread, hsenders, hreply]
    exact h.waitThread

/-- A sender waits for its message to be received. -/
theorem enqueue (hpc : (p.thread t).pc = .user) (hstat : p.stat ≠ .wait) (hwaits : e.waits = some t)
    (hx : x.pc = .send) (hwakeup : x.wakeup = some .senderWaitRecv) (hok : ThreadOk server t x)
    (hstat' : p'.stat = p.stat) (hreply : p'.reply = p.reply) (hqueue : p'.queue = p.queue ++ [e])
    (hwaitThread : p'.waitThread = p.waitThread ++ [t]) (hsuspend : p'.suspendThread = p.suspendThread)
    (hthread : p'.thread = update p.thread t x) : Shape server p' := by
  have hne : (p.thread t).pc ≠ .send := by rw [hpc]; exact nofun
  have hnot := h.not_mem_senders hne
  have hsenders : senders p'.queue = senders p.queue ++ [t] := by
    rw [hqueue, senders_append, hwaits]
    rfl
  have hserver : server ≠ t := Ne.symm (hok.at hx).1
  refine ⟨fun t' => ?_, fun t' => ?_, fun t' ht' => ?_, ?_, fun t' => ?_, ?_, ?_, ?_, fun e => ?_, ?_⟩
  · rw [hthread]
    exact h.thread_update hok t'
  · rw [hthread, hreply, hsenders, List.mem_append, List.mem_singleton]
    by_cases htt : t' = t
    · subst htt
      rw [update_self]
      exact iff_of_true hx (.inr (.inr rfl))
    · rw [update_of_ne htt, h.send_iff t', or_iff_left htt]
  · rw [hreply] at ht'
    rw [hsenders, List.mem_append, List.mem_singleton, not_or]
    refine ⟨h.disjoint t' ht', ?_⟩
    rintro rfl
    exact h.reply_ne hne ht'
  · rw [hsenders, List.nodup_append]
    refine ⟨h.nodup, List.pairwise_singleton _ _, fun a ha b hb => ?_⟩
    rintro rfl
    exact hnot (List.mem_singleton.1 hb ▸ ha)
  · rw [hthread, hreply]
    by_cases htt : t' = t
    · subst htt
      rw [update_self, hwakeup]
      exact fun _ e => nomatch e
    · rw [update_of_ne htt]
      exact h.waitReply t'
  · rw [hstat', hthread, update_of_ne hserver]
    exact h.wait_iff
  · rw [hstat', hreply]
    exact h.active_iff
  · rw [hstat', hsuspend]
    exact h.suspend
  · exact absurd (hstat'.symm.trans e) hstat
  · obtain ⟨pre, heq, hpre⟩ := h.waitThread
    refine ⟨pre, ?_, by rw [hreply]; exact hpre⟩
    rw [hwaitThread, heq, hsenders, List.append_assoc]

/-- The waiting server is resumed. -/
theorem leaveRecv (hstat : p.stat = .wait) (hx : x.pc = .recvResumed) (hok : ThreadOk server server x)
    (hstat' : p'.stat = .idle) (hreply : p'.reply = p.reply) (hqueue : p'.queue = p.queue)
    (hwaitThread : p'.waitThread = p.waitThread) (hsuspend : p'.suspendThread = p.suspendThread.erase server)
    (hthread : p'.thread = update p.thread server x) : Shape server p' := by
  have hnone := h.reply_eq_none (by rw [hstat]; exact nofun)
  have hserver := h.wait_iff.1 hstat
  refine ⟨fun t' => ?_, fun t' => ?_, ?_, ?_, fun t' => ?_, ?_, ?_, ?_, ?_, ?_⟩
  · rw [hthread]
    exact h.thread_update hok t'
  · rw [hthread, hreply, hqueue, ← h.send_iff t']
    by_cases htt : t' = server
    · rw [htt, update_self, hx, hserver]
      exact iff_of_false (nofun) nofun
    · rw [update_of_ne htt]
  · rw [hreply, hqueue]
    exact h.disjoint
  · rw [hqueue]
    exact h.nodup
  · rw [hthread, hreply]
    by_cases htt : t' = server
    · subst htt
      rw [update_self, hx]
      exact nofun
    · rw [update_of_ne htt]
      exact h.waitReply t'
  · rw [hstat', hthread, update_self, hx]
    exact iff_of_false (nofun) nofun
  · rw [hstat', hreply, hnone]
    exact iff_of_false (nofun) fun e => e rfl
  · rw [hstat', hsuspend, h.suspend, if_pos hstat, List.erase_cons_head]
    rfl
  · rw [hstat']
    exact nofun
  · rw [hwaitThread, hqueue, hreply]
    exact h.waitThread

/-- A sender, the only one, waits for a reply. -/
theorem ask (hpc : (p.thread t).pc = .user) (hstat : p.stat = .idle) (hempty : p.queue = [])
    (hx : x.pc = .send) (hok : ThreadOk server t x) (hstat' : p'.stat = .active) (hreply : p'.reply = some t)
    (hqueue : p'.queue = p.queue) (hwaitThread : p'.waitThread = p.waitThread ++ [t])
    (hsuspend : p'.suspendThread = p.suspendThread) (hthread : p'.thread = update p.thread t x) : Shape server p' := by
  have hnone := h.reply_eq_none (by rw [hstat]; exact nofun)
  have hwait := h.waitThread_eq hnone
  rw [hempty] at hqueue hwait
  have hserver : server ≠ t := Ne.symm (hok.at hx).1
  have hsend : ∀ t', (p.thread t').pc ≠ .send := by
    intro t' ht'
    have hor := (h.send_iff t').1 ht'
    rw [hnone, hempty] at hor
    rcases hor with e | e
    · cases e
    · cases e
  refine ⟨fun t' => ?_, fun t' => ?_, ?_, ?_, fun t' => ?_, ?_, ?_, ?_, ?_, ⟨[t], ?_, .inr ⟨t, hreply, rfl⟩⟩⟩
  · rw [hthread]
    exact h.thread_update hok t'
  · rw [hthread, hreply, hqueue]
    by_cases htt : t' = t
    · subst htt
      rw [update_self]
      exact iff_of_true hx (.inl rfl)
    · rw [update_of_ne htt]
      refine iff_of_false (hsend t') ?_
      rintro (e | e)
      · exact htt (Option.some.inj e).symm
      · cases e
  · rw [hqueue]
    exact fun _ _ e => nomatch e
  · rw [hqueue]
    exact List.nodup_nil
  · rw [hthread, hreply]
    by_cases htt : t' = t
    · rw [htt]
      exact fun _ _ => rfl
    · rw [update_of_ne htt]
      exact fun e => absurd e (hsend t')
  · rw [hstat', hthread, update_of_ne hserver, ← h.wait_iff, hstat]
    exact iff_of_false (nofun) nofun
  · rw [hstat', hreply]
    exact iff_of_true rfl (Option.some_ne_none t)
  · rw [hstat', hsuspend, h.suspend, hstat]
    rfl
  · rw [hstat']
    exact nofun
  · rw [hwaitThread, hwait, hqueue]
    rfl

/-- The sender that waits for its reply is resumed. -/
theorem leaveReply (hr : p.reply = some t) (hx : x.pc = .sendResumed) (hok : ThreadOk server t x)
    (hstat' : p'.stat = .idle) (hreply : p'.reply = none) (hqueue : p'.queue = p.queue)
    (hwaitThread : p'.waitThread = p.waitThread.erase t) (hsuspend : p'.suspendThread = p.suspendThread.erase t)
    (hthread : p'.thread = update p.thread t x) : Shape server p' := by
  have hstat : p.stat = .active := h.active_iff.2 (by rw [hr]; exact Option.some_ne_none t)
  have hnot := h.disjoint t hr
  have hserver : server ≠ t := Ne.symm (hok.at hx).1
  refine ⟨fun t' => ?_, fun t' => ?_, ?_, ?_, fun t' => ?_, ?_, ?_, ?_, ?_, ⟨[], ?_, .inl rfl⟩⟩
  · rw [hthread]
    exact h.thread_update hok t'
  · rw [hthread, hreply, hqueue]
    by_cases htt : t' = t
    · subst htt
      rw [update_self, hx]
      refine iff_of_false (nofun) ?_
      rintro (e | e)
      · cases e
      · exact hnot e
    · rw [update_of_ne htt, h.send_iff t', hr]
      refine or_congr_left ⟨fun e => absurd (Option.some.inj e).symm htt, nofun⟩
  · rw [hreply]
    exact fun _ e => nomatch e
  · rw [hqueue]
    exact h.nodup
  · rw [hthread]
    by_cases htt : t' = t
    · subst htt
      rw [update_self, hx]
      exact nofun
    · rw [update_of_ne htt]
      intro hsend hwakeup
      have heq := h.waitReply t' hsend hwakeup
      exact absurd (Option.some.inj (heq.symm.trans hr)) htt
  · rw [hstat', hthread, update_of_ne hserver, ← h.wait_iff, hstat]
    exact iff_of_false (nofun) nofun
  · rw [hstat', hreply]
    exact iff_of_false (nofun) fun e => e rfl
  · rw [hstat', hsuspend, h.suspend, hstat]
    rfl
  · rw [hstat']
    exact nofun
  · obtain ⟨pre, heq, hpre⟩ := h.waitThread
    rw [hwaitThread, heq, hqueue]
    rcases hpre with rfl | ⟨t', ht', rfl⟩
    · exact List.erase_of_not_mem hnot
    · obtain rfl := Option.some.inj (ht'.symm.trans hr)
      show (t' :: senders p.queue).erase t' = senders p.queue
      rw [List.erase_cons_head]

/-- A sender whose message was not received is resumed, and its message is lost. -/
theorem leaveQueue (hr : p.reply ≠ some t) (ht : t ∈ senders p.queue) (hx : x.pc = .sendResumed)
    (hok : ThreadOk server t x) (hstat' : p'.stat = p.stat) (hreply : p'.reply = p.reply)
    (hqueue : senders p'.queue = (senders p.queue).erase t) (hwaitThread : p'.waitThread = p.waitThread.erase t)
    (hsuspend : p'.suspendThread = p.suspendThread.erase t) (hthread : p'.thread = update p.thread t x) :
    Shape server p' := by
  have hstat : p.stat ≠ .wait := by
    intro e
    rw [h.empty e] at ht
    cases ht
  have hserver : server ≠ t := Ne.symm (hok.at hx).1
  refine ⟨fun t' => ?_, fun t' => ?_, fun t' ht' => ?_, ?_, fun t' => ?_, ?_, ?_, ?_, fun e => ?_, ?_⟩
  · rw [hthread]
    exact h.thread_update hok t'
  · rw [hthread, hreply, hqueue, h.nodup.mem_erase_iff]
    by_cases htt : t' = t
    · subst htt
      rw [update_self, hx]
      refine iff_of_false (nofun) ?_
      rintro (e | e)
      · exact hr e
      · exact e.1 rfl
    · rw [update_of_ne htt, h.send_iff t']
      exact or_congr_right ⟨fun e => ⟨htt, e⟩, fun e => e.2⟩
  · rw [hreply] at ht'
    rw [hqueue]
    exact fun e => h.disjoint t' ht' (List.mem_of_mem_erase e)
  · rw [hqueue]
    exact h.nodup.erase t
  · rw [hthread, hreply]
    by_cases htt : t' = t
    · subst htt
      rw [update_self, hx]
      exact nofun
    · rw [update_of_ne htt]
      exact h.waitReply t'
  · rw [hstat', hthread, update_of_ne hserver]
    exact h.wait_iff
  · rw [hstat', hreply]
    exact h.active_iff
  · rw [hstat', hsuspend, h.suspend, if_neg hstat]
    rfl
  · exact absurd (hstat'.symm.trans e) hstat
  · obtain ⟨pre, heq, hpre⟩ := h.waitThread
    refine ⟨pre, ?_, by rw [hreply]; exact hpre⟩
    have hnot : t ∉ pre := by
      rcases hpre with rfl | ⟨t', ht', rfl⟩
      · exact List.not_mem_nil
      · rintro hm
        rw [List.mem_singleton.1 hm] at hr
        exact hr ht'
    rw [hwaitThread, heq, hqueue, List.erase_append_right _ hnot]

/-- The server takes a message that needs a reply. -/
theorem take (hstat : p.stat = .idle) {rest : List (Entry δ)} (hq : p.queue = e :: rest)
    (hwaits : e.waits = some t) (hstat' : p'.stat = .active) (hreply : p'.reply = some t) (hqueue : p'.queue = rest)
    (hwaitThread : p.waitThread = t :: p'.waitThread) (hsuspend : p'.suspendThread = p.suspendThread)
    (hthread : p'.thread = p.thread) : Shape server p' := by
  have hnone := h.reply_eq_none (by rw [hstat]; exact nofun)
  have hwait := h.waitThread_eq hnone
  have hsenders : senders p.queue = t :: senders rest := by
    rw [hq, senders_cons, hwaits]
    rfl
  have hnd := h.nodup
  have hsend := h.send_iff
  rw [hsenders] at hnd hsend hwait
  refine ⟨?_, fun t' => ?_, fun t' ht' => ?_, ?_, fun t' ht' hw => ?_, ?_, ?_, ?_, ?_, ⟨[], ?_, .inl rfl⟩⟩
  · rw [hthread]
    exact h.thread
  · rw [hthread, hsend t', hreply, hqueue, hnone, List.mem_cons, Option.some_inj, eq_comm (a := t)]
    exact ⟨fun e => e.resolve_left (nofun), .inr⟩
  · rw [hreply] at ht'
    cases ht'
    rw [hqueue]
    exact (List.nodup_cons.1 hnd).1
  · rw [hqueue]
    exact (List.nodup_cons.1 hnd).2
  · rw [hthread] at ht' hw
    have heq := h.waitReply t' ht' hw
    rw [hnone] at heq
    cases heq
  · rw [hstat', hthread, ← h.wait_iff, hstat]
    exact iff_of_false (nofun) nofun
  · rw [hstat', hreply]
    exact iff_of_true rfl (Option.some_ne_none t)
  · rw [hstat', hsuspend, h.suspend, hstat]
    rfl
  · rw [hstat']
    exact nofun
  · rw [hqueue]
    exact (List.cons.inj (hwaitThread.symm.trans hwait)).2

/-- The server waits for a message. -/
theorem suspendRecv (hpc : (p.thread server).pc = .user) (hstat : p.stat = .idle) (hempty : p.queue = [])
    (hx : x.pc = .recv) (hok : ThreadOk server server x) (hstat' : p'.stat = .wait) (hreply : p'.reply = p.reply)
    (hqueue : p'.queue = p.queue) (hwaitThread : p'.waitThread = p.waitThread)
    (hsuspend : p'.suspendThread = p.suspendThread ++ [server]) (hthread : p'.thread = update p.thread server x) :
    Shape server p' := by
  have hnone := h.reply_eq_none (by rw [hstat]; exact nofun)
  refine ⟨fun t' => ?_, fun t' => ?_, ?_, ?_, fun t' => ?_, ?_, ?_, ?_, ?_, ?_⟩
  · rw [hthread]
    exact h.thread_update hok t'
  · rw [hthread, hreply, hqueue, ← h.send_iff t']
    by_cases htt : t' = server
    · rw [htt, update_self, hx, hpc]
      exact iff_of_false (nofun) nofun
    · rw [update_of_ne htt]
  · rw [hreply, hqueue]
    exact h.disjoint
  · rw [hqueue]
    exact h.nodup
  · rw [hthread, hreply]
    by_cases htt : t' = server
    · rw [htt, update_self, hx]
      exact nofun
    · rw [update_of_ne htt]
      exact h.waitReply t'
  · rw [hstat', hthread, update_self]
    exact iff_of_true rfl hx
  · rw [hstat', hreply, hnone]
    exact iff_of_false (nofun) fun e => e rfl
  · rw [hstat', hsuspend, h.suspend, hstat]
    rfl
  · rw [hqueue]
    exact fun _ => hempty
  · rw [hwaitThread, hqueue, hreply]
    exact h.waitThread

end

end Shape

/-! ## The replies -/

namespace Replies

/-- The thread that is replied to gets on with the reply. -/
theorem reply (h : Replies server p) (hs : Shape server p) (hserver : (p.thread server).ret = none) (hr : p.reply = some t)
    (hx : x.pc = .sendResumed) (hxr : x.request = (p.thread t).request) (hret : x.ret = some e)
    (hreply : p'.reply = none) (hqueue : p'.queue = p.queue)
    (haccepted : p'.accepted = p.accepted) (hreplies : p'.replies = (p.received.head?.map Prod.fst, t, e.data) :: p.replies)
    (hreturned : p'.returned = p.returned) (hthread : p'.thread = update p.thread t x) : Replies server p' := by
  have hsend := hs.send_iff t
  have hpc := hsend.2 (.inl hr)
  have hcurrent := h.current t hr
  rw [Protocol.current, hserver] at hcurrent
  dsimp only at hcurrent
  have hold : ∀ t', (p.thread t').pc = .sendResumed → t' ≠ t := by
    rintro t' ht' rfl
    rw [hpc] at ht'
    cases ht'
  refine ⟨fun t' => ?_, fun e' he' hw t' ht' => ?_, ?_, fun k t' d hk => ?_, fun t' e' ht' he' => ?_, ?_, fun n t' d hk => ?_⟩
  · rw [hthread, haccepted]
    by_cases htt : t' = t
    · subst htt
      rw [update_self, hx]
      exact nofun
    · rw [update_of_ne htt]
      exact h.request t'
  · rw [hqueue] at he'
    rw [hthread]
    by_cases htt : t' = t
    · subst htt
      rw [update_self, hxr]
      exact h.number e' he' hw t' ht'
    · rw [update_of_ne htt]
      exact h.number e' he' hw t' ht'
  · rw [hreply]
    exact fun _ e => nomatch e
  · rw [haccepted]
    rw [hreplies, List.mem_cons] at hk
    rcases hk with heq | hk
    · obtain ⟨rfl, rfl, -⟩ : k = p.received.head?.map Prod.fst ∧ t' = t ∧ d = e.data := by simpa using heq
      obtain ⟨d', hd'⟩ := h.request t' hpc
      exact ⟨_, d', hcurrent, hd'⟩
    · exact h.replies k t' d hk
  · rw [hthread] at ht' he' ⊢
    rw [hreplies]
    by_cases htt : t' = t
    · subst htt
      rw [update_self] at he' ⊢
      cases hret.symm.trans he'
      rw [hxr, hcurrent]
      exact List.mem_cons_self
    · rw [update_of_ne htt] at ht' he' ⊢
      exact List.mem_cons_of_mem _ (h.resumed t' e' ht' he')
  · rw [hreturned, hreplies]
    exact fun n t' d hn => List.mem_cons_of_mem _ (h.returned n t' d hn)
  · rw [hreplies, List.mem_cons] at hk
    rw [hreturned, hthread]
    rcases hk with heq | hk
    · obtain ⟨hn, rfl, rfl⟩ : some n = p.received.head?.map Prod.fst ∧ t' = t ∧ d = e.data := by simpa using heq
      rw [update_self]
      refine .inr ⟨hx, ?_, e, hret, rfl⟩
      rw [hxr]
      exact (Option.some.inj (hn.trans hcurrent)).symm
    · refine (h.delivered n t' d hk).imp_right fun hpend => ?_
      rw [update_of_ne (hold t' hpend.1)]
      exact hpend

/-- A sender in the queue waits. -/
theorem pc_of_mem (hs : Shape server p) (he : e ∈ p.queue) (hw : e.needReply = true) (ht : e.sender = some t) :
    (p.thread t).pc = .send := by
  refine (hs.send_iff t).2 (.inr (List.mem_filterMap.2 ⟨e, he, ?_⟩))
  rw [Entry.waits, if_pos hw]
  exact ht

/-- A thread goes on that did not wait for a reply, and does not. -/
theorem go (h : Replies server p) (hs : Shape server p) (hpc : (p.thread t).pc ≠ .send)
    (hx : x.pc ≠ .send ∧ x.pc ≠ .sendResumed) (hqueue : ∀ e ∈ p'.queue, e ∈ p.queue)
    (hreply : ∀ t', p'.reply = some t' → p.reply = some t' ∧ p'.current server = p.current server)
    (haccepted : p'.accepted = p.accepted) (hreplies : p'.replies = p.replies)
    (hreturned : ∀ r ∈ p'.returned, r ∈ p.returned ∨
      ∃ e, (p.thread t).pc = .sendResumed ∧ (p.thread t).ret = some e ∧ r = ((p.thread t).request, t, e.data))
    (hold : ∀ r ∈ p.returned, r ∈ p'.returned)
    (hnew : ∀ e, (p.thread t).pc = .sendResumed → (p.thread t).ret = some e →
      ((p.thread t).request, t, e.data) ∈ p'.returned)
    (hthread : p'.thread = update p.thread t x) : Replies server p' := by
  have hne : ∀ t', (p.thread t').pc = .send → t' ≠ t := by
    rintro t' ht' rfl
    exact hpc ht'
  refine ⟨fun t' => ?_, fun e' he' hw t' ht' => ?_, fun t' ht' => ?_, ?_, fun t' e' ht' he' => ?_, fun n t' d hn => ?_,
    fun n t' d hk => ?_⟩
  · rw [hthread, haccepted]
    by_cases htt : t' = t
    · subst htt
      rw [update_self]
      exact fun e => absurd e hx.1
    · rw [update_of_ne htt]
      exact h.request t'
  · have hsend := pc_of_mem hs (hqueue e' he') hw ht'
    rw [hthread, update_of_ne (hne t' hsend)]
    exact h.number e' (hqueue e' he') hw t' ht'
  · obtain ⟨hr, hcurrent⟩ := hreply t' ht'
    rw [hcurrent, hthread, update_of_ne (hne t' ((hs.send_iff t').2 (.inl hr)))]
    exact h.current t' hr
  · rw [haccepted, hreplies]
    exact h.replies
  · rw [hthread] at ht' he' ⊢
    rw [hreplies]
    by_cases htt : t' = t
    · subst htt
      rw [update_self] at ht'
      exact absurd ht' hx.2
    · rw [update_of_ne htt] at ht' he' ⊢
      exact h.resumed t' e' ht' he'
  · rw [hreplies]
    rcases hreturned _ hn with hn | ⟨e', ht', he', heq⟩
    · exact h.returned n t' d hn
    · obtain ⟨rfl, rfl, rfl⟩ : n = (p.thread t).request ∧ t' = t ∧ d = e'.data := by simpa using heq
      exact h.resumed t' e' ht' he'
  · rw [hreplies] at hk
    rcases h.delivered n t' d hk with hn | ⟨ht', rfl, e', he', rfl⟩
    · exact .inl (hold _ hn)
    · by_cases htt : t' = t
      · subst htt
        exact .inl (hnew e' ht' he')
      · rw [hthread, update_of_ne htt]
        exact .inr ⟨ht', rfl, e', he', rfl⟩

/-- A message is accepted. -/
theorem send (h : Replies server p) (hs : Shape server p) (hpc : (p.thread t).pc = .user) {needReply : Bool}
    (hx : x.pc = .user ∨ x.pc = .send ∧ needReply = true) (hxr : x.request = p.accepted.length)
    (hqueue : ∀ e ∈ p'.queue, e ∈ p.queue ∨ e.number = p.accepted.length ∧ e.sender = some t)
    (hreply : ∀ t', p'.reply = some t' → p.reply = some t' ∧ p'.current server = p.current server ∨
      t' = t ∧ p'.current server = some p.accepted.length)
    (haccepted : p'.accepted = p.accepted ++ [(t, needReply, data)]) (hreplies : p'.replies = p.replies)
    (hreturned : p'.returned = p.returned) (hthread : p'.thread = update p.thread t x) : Replies server p' := by
  have hne : ∀ t', (p.thread t').pc ≠ .user → t' ≠ t := by
    rintro t' ht' rfl
    exact ht' hpc
  have hx' : x.pc ≠ .sendResumed := by
    rcases hx with hx | ⟨hx, -⟩
    · rw [hx]
      exact nofun
    · rw [hx]
      exact nofun
  refine ⟨fun t' ht' => ?_, fun e' he' hw t' ht' => ?_, fun t' ht' => ?_, fun k t' d hk => ?_, fun t' e' ht' he' => ?_, ?_,
    fun n t' d hk => ?_⟩
  · rw [hthread] at ht' ⊢
    rw [haccepted]
    by_cases htt : t' = t
    · subst htt
      rw [update_self] at ht' ⊢
      rcases hx with hx | ⟨-, rfl⟩
      · rw [hx] at ht'
        cases ht'
      · refine ⟨data, ?_⟩
        rw [hxr]
        simp
    · rw [update_of_ne htt] at ht' ⊢
      obtain ⟨d, hd⟩ := h.request t' ht'
      exact ⟨d, getElem?_append hd⟩
  · rw [hthread]
    rcases hqueue e' he' with he' | ⟨hn, hsender⟩
    · have hsend := pc_of_mem hs he' hw ht'
      rw [update_of_ne (hne t' (by rw [hsend]; exact nofun))]
      exact h.number e' he' hw t' ht'
    · cases hsender.symm.trans ht'
      rw [update_self, hxr, hn]
  · rw [hthread]
    rcases hreply t' ht' with ⟨hr, hcurrent⟩ | ⟨rfl, hcurrent⟩
    · have hsend := (hs.send_iff t').2 (.inl hr)
      rw [hcurrent, update_of_ne (hne t' (by rw [hsend]; exact nofun))]
      exact h.current t' hr
    · rw [hcurrent, update_self, hxr]
  · rw [hreplies] at hk
    rw [haccepted]
    obtain ⟨n, d', rfl, hd'⟩ := h.replies k t' d hk
    exact ⟨n, d', rfl, getElem?_append hd'⟩
  · rw [hthread] at ht' he' ⊢
    rw [hreplies]
    by_cases htt : t' = t
    · subst htt
      rw [update_self] at ht'
      exact absurd ht' hx'
    · rw [update_of_ne htt] at ht' he' ⊢
      exact h.resumed t' e' ht' he'
  · rw [hreturned, hreplies]
    exact h.returned
  · rw [hreplies] at hk
    rw [hreturned, hthread]
    refine (h.delivered n t' d hk).imp_right fun hpend => ?_
    rw [update_of_ne (hne t' (by rw [hpend.1]; exact nofun))]
    exact hpend

/-- A sender gets on without a reply. -/
theorem leave (h : Replies server p) (hpc : (p.thread t).pc = .send) (hx : x.pc = .sendResumed) (hret : x.ret = none)
    (hxr : x.request = (p.thread t).request) (hqueue : ∀ e ∈ p'.queue, e ∈ p.queue)
    (hreply : ∀ t', p'.reply = some t' → p.reply = some t' ∧ t' ≠ t) (hcurrent : p'.current server = p.current server)
    (haccepted : p'.accepted = p.accepted) (hreplies : p'.replies = p.replies) (hreturned : p'.returned = p.returned)
    (hthread : p'.thread = update p.thread t x) : Replies server p' := by
  refine ⟨fun t' => ?_, fun e' he' hw t' ht' => ?_, fun t' ht' => ?_, ?_, fun t' e' ht' he' => ?_, ?_, fun n t' d hk => ?_⟩
  · rw [hthread, haccepted]
    by_cases htt : t' = t
    · subst htt
      rw [update_self, hx]
      exact nofun
    · rw [update_of_ne htt]
      exact h.request t'
  · have hn := h.number e' (hqueue e' he') hw t' ht'
    rw [hthread]
    by_cases htt : t' = t
    · subst htt
      rw [update_self, hxr]
      exact hn
    · rw [update_of_ne htt]
      exact hn
  · obtain ⟨hr, htt⟩ := hreply t' ht'
    rw [hcurrent, hthread, update_of_ne htt]
    exact h.current t' hr
  · rw [haccepted, hreplies]
    exact h.replies
  · rw [hthread] at ht' he' ⊢
    rw [hreplies]
    by_cases htt : t' = t
    · subst htt
      rw [update_self, hret] at he'
      cases he'
    · rw [update_of_ne htt] at ht' he' ⊢
      exact h.resumed t' e' ht' he'
  · rw [hreturned, hreplies]
    exact h.returned
  · rw [hreplies] at hk
    rw [hreturned, hthread]
    refine (h.delivered n t' d hk).imp_right fun hpend => ?_
    have htt : t' ≠ t := by
      rintro rfl
      rw [hpc] at hpend
      cases hpend.1
    rw [update_of_ne htt]
    exact hpend

/-- The server takes a message that needs a reply. -/
theorem take (h : Replies server p) {rest : List (Entry δ)} (hq : p.queue = e :: rest) (hneed : e.needReply = true)
    (hsender : e.sender = some t) (hreply : p'.reply = some t) (hqueue : p'.queue = rest)
    (hcurrent : p'.current server = some e.number) (haccepted : p'.accepted = p.accepted)
    (hreplies : p'.replies = p.replies) (hreturned : p'.returned = p.returned) (hthread : p'.thread = p.thread) :
    Replies server p' := by
  refine ⟨?_, fun e' he' => ?_, fun t' ht' => ?_, ?_, ?_, ?_, ?_⟩
  · rw [hthread, haccepted]
    exact h.request
  · rw [hthread]
    refine h.number e' ?_
    rw [hqueue] at he'
    rw [hq]
    exact List.mem_cons_of_mem e he'
  · rw [hreply] at ht'
    cases ht'
    rw [hcurrent, hthread, h.number e (by rw [hq]; exact List.mem_cons_self) hneed t hsender]
  · rw [haccepted, hreplies]
    exact h.replies
  · rw [hthread, hreplies]
    exact h.resumed
  · rw [hreturned, hreplies]
    exact h.returned
  · rw [hreplies, hreturned, hthread]
    exact h.delivered

end Replies

end Protocol

end RtThread.LwpIpc
