import RtThread.Lib.Runs
import RtThread.Lwp.ChannelCode

/-!
# Runs of IPC channels

Whatever the clients and the server do, and whoever is woken up or times out: the state of the channel says who waits, every
message is in one place, messages are received in order, and replies get to the sender of the message received last
(`channel_run`).
-/

namespace RtThread.LwpIpc

open Function (update)
open Places (Placed)
open Runs (Run)
open Singly (Chain)

namespace Channel

variable {δ : Type} {max server : Nat} {s : Channel δ} {evs : List (ChannelEv δ)}

/-- The message with the number was received, or given to the server. -/
def Taken (server : Nat) (s : Channel δ) (n : Nat) : Prop :=
  n ∈ s.received.map Prod.fst ∨ (s.thread server).msgRet.map s.number = some n

instance (server : Nat) (s : Channel δ) (n : Nat) : Decidable (s.Taken server n) := inferInstanceAs (Decidable (_ ∨ _))

/-- A section can begin. -/
def Enabled (server : Nat) (s : Channel δ) : ChannelEv δ → Prop
  | .send t _ _ _ _ => t ≠ server ∧ (s.thread t).pc = .user
  | .sendResumed t => (s.thread t).pc = .sendResumed
  | .sendFree t => (s.thread t).pc = .sendFree
  | .reply _ | .recv _ _ => (s.thread server).pc = .user
  | .recvResumed => (s.thread server).pc = .recvResumed
  | .wakeup t => (s.thread t).pc = .send ∨ (s.thread t).pc = .recv
  | .timeout t => (s.thread t).timer ≠ none

/-- What holds of a channel. -/
structure Consistent (max server : Nat) (s : Channel δ) : Prop where
  /-- It waits iff the server is suspended on it. -/
  wait_iff : s.stat = .wait ↔ (s.thread server).pc = .recv
  suspendThread : s.suspendThread = if s.stat = .wait then [server] else []
  /-- It is active iff there is a sender to reply to, which is suspended, and whose message was taken. -/
  active_iff : s.stat = .active ↔ ∃ t, s.reply = some t ∧ (s.thread t).pc = .send ∧ s.Taken server (s.thread t).request
  reply_iff : s.stat = .active ↔ s.reply ≠ none
  /-- The messages in the queue that need a reply are those of the waiting senders whose messages were not taken. -/
  waitThread : (s.waitMsg.filter fun m => (s.msg m).needReply).map (fun m => ((s.msg m).sender, s.number m)) =
    (s.waitThread.filter fun t => ¬s.Taken server (s.thread t).request).map fun t => (some t, (s.thread t).request)
  nodup : s.waitThread.Nodup
  /-- The sender of a message in the queue that needs a reply is suspended. -/
  waitMsg : ∀ m ∈ s.waitMsg, (s.msg m).needReply = true → ∃ t, (s.msg m).sender = some t ∧ (s.thread t).pc = .send
  /-- Every message is in one place. -/
  places : ∃ free, Chain (fun i => (s.msg i).sender) s.msgFreeList free ∧ Placed max (s.items max free [])
  /-- Messages are received at most once, and in the order of their acceptance. -/
  order : (s.received.map Prod.fst).Pairwise (· > ·)
  received : ∀ n d, (n, d) ∈ s.received → ∃ t needReply, s.accepted[n]? = some (t, needReply, d)
  /-- A reply is for the sender of the message received last, -/
  replies : ∀ k t d, (k, t, d) ∈ s.replies → ∃ n d', k = some n ∧ s.accepted[n]? = some (t, true, d')
  /-- and gets there: its call returned it, or has it. -/
  delivered : ∀ n t d, (some n, t, d) ∈ s.replies → (n, t, d) ∈ s.returned ∨
    (s.thread t).pc = .sendResumed ∧ (s.thread t).request = n ∧ ∃ m, (s.thread t).msgRet = some m ∧ (s.msg m).data = d
  returned : ∀ n t d, (n, t, d) ∈ s.returned → (some n, t, d) ∈ s.replies
  /-- No assertion fails in a section that can begin. -/
  goes : ∀ ev, Enabled server s ev → ∃ s', Step max server s ev s'

theorem good_init (msg : Nat → IpcMsg δ) : Good max server (init msg) := by
  refine ⟨⟨Nat.zero_le _, [], rfl, ?_⟩, ?_, ?_, ?_⟩
  · refine Placed.single (p := .unused) ?_ fun q hq => ?_
    · show (List.range' 0 (max - 0)).Perm (List.range max)
      rw [Nat.sub_zero, List.range_eq_range']
    · cases q with
      | unused => exact absurd rfl hq
      | _ => rfl
  · exact ⟨fun _ => ⟨rfl, rfl⟩, fun _ => iff_of_false nofun nofun, fun _ e => (nomatch e), List.nodup_nil,
      fun _ e => (nomatch e), iff_of_false nofun nofun, iff_of_false nofun fun e => e rfl, rfl, fun _ => rfl,
      [], rfl, .inl rfl⟩
  · exact ⟨fun _ e => (nomatch e), fun _ _ e => (nomatch e), List.Pairwise.nil⟩
  · exact ⟨fun _ e => (nomatch e), fun _ e => (nomatch e), fun _ e => (nomatch e), fun _ _ _ e => (nomatch e),
      fun _ _ e => (nomatch e), fun _ _ _ e => (nomatch e), fun _ _ _ e => (nomatch e)⟩

namespace Good

variable {s' : Channel δ} {ev : ChannelEv δ}

section

variable (h : Good max server s)

include h

theorem step (hs : Step max server s ev s') : Good max server s' := by
  cases hs with
  | send hne ht hr =>
    obtain ⟨s2, heq, hgood⟩ := h.sendRecvTimeout hne ht _ _ _ _
    rw [heq] at hr
    exact Option.some.inj hr ▸ hgood
  | sendResumed ht hr =>
    obtain ⟨s2, heq, hgood⟩ := h.sendResumed ht
    rw [heq] at hr
    exact Option.some.inj hr ▸ hgood
  | sendFree ht hr =>
    obtain ⟨s2, heq, hgood⟩ := h.sendFree ht
    rw [heq] at hr
    exact Option.some.inj hr ▸ hgood
  | reply data ht => exact h.rawChannelReply ht data
  | recv ht hr =>
    obtain ⟨s2, heq, hgood⟩ := h.recvTimeout ht _ _
    rw [heq] at hr
    exact Option.some.inj hr ▸ hgood
  | recvResumed ht hr =>
    obtain ⟨s2, heq, hgood⟩ := h.recvResumed ht
    rw [heq] at hr
    exact Option.some.inj hr ▸ hgood
  | wakeup ht hr =>
    obtain ⟨s2, heq, hgood⟩ := h.threadWakeup ht
    rw [heq] at hr
    exact Option.some.inj hr ▸ hgood
  | timeout ht => exact h.threadTimeout ht

theorem goes (he : Enabled server s ev) : ∃ s', Step max server s ev s' := by
  cases ev with
  | send t data needReply time pending =>
    obtain ⟨s', heq, -⟩ := h.sendRecvTimeout he.1 he.2 data needReply time pending
    exact ⟨s', .send he.1 he.2 heq⟩
  | sendResumed t =>
    obtain ⟨s', heq, -⟩ := h.sendResumed he
    exact ⟨s', .sendResumed he heq⟩
  | sendFree t =>
    obtain ⟨s', heq, -⟩ := h.sendFree he
    exact ⟨s', .sendFree he heq⟩
  | reply data => exact ⟨_, .reply data he⟩
  | recv time pending =>
    obtain ⟨s', heq, -⟩ := h.recvTimeout he time pending
    exact ⟨s', .recv he heq⟩
  | recvResumed =>
    obtain ⟨s', heq, -⟩ := h.recvResumed he
    exact ⟨s', .recvResumed he heq⟩
  | wakeup t =>
    obtain ⟨s', heq, -⟩ := h.threadWakeup he
    exact ⟨s', .wakeup he heq⟩
  | timeout t =>
    obtain ⟨timer, ht⟩ := Option.ne_none_iff_exists'.1 he
    exact ⟨_, .timeout ht⟩

/-! ## What it says of the channel -/

/-- The message of the thread that is replied to was taken. -/
theorem taken_of_reply {t : Nat} (hreply : s.reply = some t) : s.Taken server (s.thread t).request := by
  have hcurrent := h.inv.replies.current t hreply
  rw [Protocol.current] at hcurrent
  cases hret : (s.thread server).msgRet with
  | some m =>
    rw [show (s.prot.thread server).ret = some (s.entry m) from congrArg (Option.map s.entry) hret] at hcurrent
    right
    rw [hret]
    exact hcurrent
  | none =>
    rw [show (s.prot.thread server).ret = none from congrArg (Option.map s.entry) hret] at hcurrent
    left
    obtain ⟨⟨n, d⟩, hhead, hn⟩ := Option.map_eq_some_iff.1 hcurrent
    exact List.mem_map.2 ⟨_, List.mem_of_head? hhead, hn⟩

/-- A message in the queue was not taken. -/
theorem not_taken {m : Nat} (hm : m ∈ s.waitMsg) : ¬s.Taken server (s.number m) := by
  have hline := h.inv.numbers.line
  rw [Protocol.line, Protocol.pending, List.map_append, ← List.append_assoc, List.pairwise_append] at hline
  obtain ⟨-, -, hlt⟩ := hline
  have hmem : s.number m ∈ s.prot.queue.map Entry.number :=
    List.mem_map.2 ⟨s.entry m, List.mem_map.2 ⟨m, hm, rfl⟩, rfl⟩
  rintro (htaken | htaken)
  · have hlt' := hlt (s.number m) (List.mem_append_left _ (List.mem_reverse.2 htaken)) _ hmem
    exact Nat.lt_irrefl _ hlt'
  · obtain ⟨i, hi, hn⟩ := Option.map_eq_some_iff.1 htaken
    have hlt' := hlt (s.number m) (List.mem_append_right _ ?_) _ hmem
    · exact Nat.lt_irrefl _ hlt'
    · rw [show (s.prot.thread server).ret = some (s.entry i) from congrArg (Option.map s.entry) hi]
      exact List.mem_map.2 ⟨s.entry i, List.mem_singleton_self _, hn⟩

/-- The sender of a message in the queue that needs a reply. -/
theorem sender_of_mem {m : Nat} (hm : m ∈ s.waitMsg) (hneed : (s.msg m).needReply = true) :
    ∃ t, (s.msg m).sender = some t ∧ (s.thread t).pc = .send ∧ (s.thread t).request = s.number m := by
  have hmem : s.entry m ∈ s.prot.queue := List.mem_map.2 ⟨m, hm, rfl⟩
  obtain ⟨t, hsender, -⟩ := h.inv.numbers.entry (s.entry m) (List.mem_append_right _ hmem)
  exact ⟨t, hsender, Protocol.Replies.pc_of_mem h.inv.shape hmem hneed hsender,
    h.inv.replies.number (s.entry m) hmem hneed t hsender⟩

/-- The senders of messages, with their numbers. -/
theorem senders_map {ms : List Nat} (hms : ∀ m ∈ ms, m ∈ s.waitMsg) :
    (ms.filter fun m => (s.msg m).needReply).map (fun m => ((s.msg m).sender, s.number m)) =
      (senders (ms.map s.entry)).map fun t => (some t, (s.thread t).request) := by
  induction ms with
  | nil => rfl
  | cons m ms ih =>
    have ih := ih fun i hi => hms i (List.mem_cons_of_mem m hi)
    rw [List.map_cons, Protocol.senders_cons, Entry.waits]
    show _ = List.map _ ((if (s.msg m).needReply = true then (s.msg m).sender else none).toList ++ _)
    by_cases hneed : (s.msg m).needReply = true
    · obtain ⟨t, hsender, -, hrequest⟩ := h.sender_of_mem (hms m List.mem_cons_self) hneed
      rw [List.filter_cons_of_pos (p := fun m => (s.msg m).needReply) hneed, if_pos hneed, hsender, List.map_cons, ih, hsender, ← hrequest]
      rfl
    · rw [List.filter_cons_of_neg (p := fun m => (s.msg m).needReply) hneed, if_neg hneed, ih]
      rfl

/-- The waiting senders whose messages were not taken. -/
theorem waitThread_filter :
    (s.waitThread.filter fun t => ¬s.Taken server (s.thread t).request) = senders s.prot.queue := by
  obtain ⟨pre, heq, hpre⟩ := h.inv.shape.waitThread
  have hsenders : (senders s.prot.queue).filter (fun t => ¬s.Taken server (s.thread t).request) = senders s.prot.queue := by
    refine List.filter_eq_self.2 fun t ht => decide_eq_true ?_
    obtain ⟨e, he, hwaits⟩ := List.mem_filterMap.1 ht
    obtain ⟨m, hm, rfl⟩ := List.mem_map.1 he
    have hnumber : (s.thread t).request = s.number m := by
      rw [Entry.waits] at hwaits
      split at hwaits
      next hneed => exact h.inv.replies.number (s.entry m) he hneed t hwaits
      next => cases hwaits
    rw [hnumber]
    exact h.not_taken hm
  rw [show s.waitThread = pre ++ senders s.prot.queue from heq, List.filter_append, hsenders]
  rcases hpre with rfl | ⟨t, hreply, rfl⟩
  · rfl
  · rw [List.filter_cons_of_neg]
    · rfl
    · exact fun hnot => of_decide_eq_true hnot (h.taken_of_reply hreply)

theorem consistent : Consistent max server s where
  wait_iff := h.inv.shape.wait_iff
  suspendThread := h.inv.shape.suspend
  active_iff := by
    refine h.inv.shape.active_iff.trans ⟨fun hne => ?_, ?_⟩
    · obtain ⟨t, hreply⟩ := Option.ne_none_iff_exists'.1 hne
      exact ⟨t, hreply, (h.inv.shape.send_iff t).2 (.inl hreply), h.taken_of_reply hreply⟩
    · rintro ⟨t, hreply, -⟩ hnone
      cases hreply.symm.trans hnone
  reply_iff := h.inv.shape.active_iff
  waitThread := by
    rw [h.waitThread_filter]
    exact h.senders_map fun m hm => hm
  nodup := by
    obtain ⟨pre, heq, hpre⟩ := h.inv.shape.waitThread
    rw [show s.waitThread = pre ++ senders s.prot.queue from heq]
    rcases hpre with rfl | ⟨t, hreply, rfl⟩
    · exact h.inv.shape.nodup
    · exact List.nodup_cons.2 ⟨h.inv.shape.disjoint t hreply, h.inv.shape.nodup⟩
  waitMsg m hm hneed := by
    obtain ⟨t, hsender, hpc, -⟩ := h.sender_of_mem hm hneed
    exact ⟨t, hsender, hpc⟩
  places := h.pool.placed
  order := by
    have hline := (List.pairwise_append.1 h.inv.numbers.line).1
    exact List.pairwise_reverse.1 hline
  received := h.inv.numbers.received
  replies := h.inv.replies.replies
  delivered n t d hr := by
    refine (h.inv.replies.delivered n t d hr).imp_right ?_
    rintro ⟨hpc, hrequest, e, he, hd⟩
    obtain ⟨m, hm, rfl⟩ := Option.map_eq_some_iff.1 he
    exact ⟨hpc, hrequest, m, hm, hd⟩
  returned := h.inv.replies.returned
  goes _ he := h.goes he

end

end Good

theorem channel_run {msg : Nat → IpcMsg δ} (hr : Run (Step max server) (init msg) evs s) : Consistent max server s :=
  (hr.invariant (I := Good max server) (good_init msg) fun _ _ _ h hs => h.step hs).consistent

/-- Two clients send; the server replies to the first, and then takes the message of the second. -/
theorem channel_run_two : ∃ s : Channel Nat, Consistent 4 0 s ∧ s.returned = [(0, 1, 20)] ∧ s.reply = some 2 ∧
    s.received = [(1, 11), (0, 10)] ∧ s.waitThread = [] := by
  let msg : Nat → IpcMsg Nat := fun _ => ⟨none, false, 0⟩
  have h0 : Run (Step 4 0) (init msg) [] (init msg) := .nil
  have h1 : Run (Step 4 0) (init msg) (_ ++ [.send 1 10 true (-1) false]) _ := h0.snoc (.send (by decide) rfl rfl)
  have h2 : Run (Step 4 0) (init msg) (_ ++ [.recv (-1) false]) _ := h1.snoc (.recv rfl rfl)
  have h3 : Run (Step 4 0) (init msg) (_ ++ [.send 2 11 true 5 false]) _ := h2.snoc (.send (by decide) rfl rfl)
  have h4 : Run (Step 4 0) (init msg) (_ ++ [.reply 20]) _ := h3.snoc (.reply 20 rfl)
  have h5 : Run (Step 4 0) (init msg) (_ ++ [.sendResumed 1]) _ := h4.snoc (.sendResumed rfl rfl)
  have h6 : Run (Step 4 0) (init msg) (_ ++ [.sendFree 1]) _ := h5.snoc (.sendFree rfl rfl)
  have h7 : Run (Step 4 0) (init msg) (_ ++ [.recv (-1) false]) _ := h6.snoc (.recv rfl rfl)
  exact ⟨_, channel_run h7, rfl, rfl, rfl, rfl⟩

end Channel

end RtThread.LwpIpc
