import RtThread.Lwp.ChannelProtocol

/-!
# The sections of IPC channels

What the sections do with a channel as a protocol, and that it keeps the invariant.
-/

namespace RtThread.LwpIpc

open Function (update update_comm update_of_ne update_self)

namespace Protocol

variable {δ : Type} {server t : Nat} {p p' : Protocol δ} {x y : ProtocolThread δ} {e : Entry δ}

theorem ret_update (h : t = server → x.ret = (p.thread t).ret) :
    (update p.thread t x server).ret = (p.thread server).ret := by
  by_cases hts : server = t
  · subst hts
    rw [update_self]
    exact h rfl
  · rw [update_of_ne hts]

theorem pending_eq (hret : (p'.thread server).ret = (p.thread server).ret) (hqueue : p'.queue = p.queue) :
    p'.pending server = p.pending server := by rw [pending, pending, hret, hqueue]

theorem current_eq (hret : (p'.thread server).ret = (p.thread server).ret) (hreceived : p'.received = p.received) :
    p'.current server = p.current server := by rw [current, current, hret, hreceived]

theorem Numbers.same (h : Numbers server p) (hret : (p'.thread server).ret = (p.thread server).ret) (hqueue : p'.queue = p.queue)
    (haccepted : p'.accepted = p.accepted) (hreceived : p'.received = p.received) : Numbers server p' :=
  h.sub (by rw [pending_eq hret hqueue]) haccepted hreceived

namespace Inv

/-- A thread goes on, and nothing else happens. -/
theorem go (h : Inv server p) (hpc : (p.thread t).pc ≠ .send ∧ (p.thread t).pc ≠ .recv)
    (hx : x.pc ≠ .send ∧ x.pc ≠ .recv ∧ x.pc ≠ .sendResumed) (hok : ThreadOk server t x)
    (hret : t = server → x.ret = (p.thread t).ret) (hnot : (p.thread t).pc = .sendResumed → (p.thread t).ret = none) :
    Inv server { p with thread := update p.thread t x } := by
  have hret' := ret_update hret
  refine ⟨h.shape.go hpc ⟨hx.1, hx.2.1⟩ hok rfl rfl rfl h.shape.empty rfl rfl rfl, ?_, ?_⟩
  · exact h.numbers.same hret' rfl rfl rfl
  · refine h.replies.go h.shape hpc.1 ⟨hx.1, hx.2.2⟩ (fun _ he => he) (fun _ ht' => ⟨ht', current_eq hret' rfl⟩) rfl rfl
      (fun _ hr => .inl hr) (fun _ hr => hr) ?_ rfl
    intro e' ht' he'
    rw [hnot ht'] at he'
    cases he'

/-- A sender reads its reply. -/
theorem read (h : Inv server p) (hpc : (p.thread t).pc = .sendResumed) (he : (p.thread t).ret = some e)
    (hx : x.pc = .sendFree) (hok : ThreadOk server t x) :
    Inv server { p with
      thread := update p.thread t x
      returned := ((p.thread t).request, t, e.data) :: p.returned } := by
  have hts : t ≠ server := ((h.shape.thread t).at hpc).1
  have hret' : (update p.thread t x server).ret = (p.thread server).ret := ret_update fun e => absurd e hts
  have hpc' : (p.thread t).pc ≠ .send ∧ (p.thread t).pc ≠ .recv := by
    rw [hpc]
    exact ⟨nofun, nofun⟩
  refine ⟨h.shape.go hpc' ?_ hok rfl rfl rfl h.shape.empty rfl rfl rfl, ?_, ?_⟩
  · rw [hx]
    exact ⟨nofun, nofun⟩
  · exact h.numbers.same hret' rfl rfl rfl
  · refine h.replies.go h.shape hpc'.1 ?_ (fun _ he => he) (fun _ ht' => ⟨ht', current_eq hret' rfl⟩) rfl rfl ?_ ?_ ?_ rfl
    · rw [hx]
      exact ⟨nofun, nofun⟩
    · intro r hr
      exact (List.mem_cons.1 hr).symm.imp_right fun heq => ⟨e, hpc, he, heq⟩
    · exact fun r hr => List.mem_cons_of_mem _ hr
    · intro e' _ he'
      cases he.symm.trans he'
      exact List.mem_cons_self

/-- A message is accepted into the queue, and its sender waits for nothing. -/
theorem post (h : Inv server p) (hts : t ≠ server) (hpc : (p.thread t).pc = .user) (hstat : p.stat ≠ .wait)
    (hsender : e.sender = some t) (hneed : e.needReply = false) (hnumber : e.number = p.accepted.length)
    (hx : x.pc = .user) (hxr : x.request = p.accepted.length) (hok : ThreadOk server t x) :
    Inv server { p with
      accepted := p.accepted ++ [(t, false, e.data)]
      thread := update p.thread t x
      queue := p.queue ++ [e] } := by
  have hret' : (update p.thread t x server).ret = (p.thread server).ret := ret_update fun e => absurd e hts
  have hwaits : e.waits = none := by
    rw [Entry.waits, hneed]
    rfl
  refine ⟨h.shape.go (t := t) (x := x) ?_ ?_ hok rfl rfl ?_ (fun e => absurd e hstat) rfl rfl rfl, ?_, ?_⟩
  · rw [hpc]
    exact ⟨by simp, by simp⟩
  · rw [hx]
    exact ⟨by simp, by simp⟩
  · rw [senders_append, hwaits]
    exact List.append_nil _
  · refine h.numbers.push hsender hnumber ?_ (by rw [hneed]) rfl
    rw [pending, pending, hret']
    exact (List.append_assoc ..).symm
  · refine h.replies.send h.shape hpc (.inl hx) hxr ?_ (fun t' ht' => .inl ⟨ht', current_eq hret' rfl⟩) rfl rfl rfl rfl
    intro e' he'
    rw [List.mem_append, List.mem_singleton] at he'
    refine he'.imp_right ?_
    rintro rfl
    exact ⟨hnumber, hsender⟩

/-- A message is accepted into the queue, and its sender waits. -/
theorem enqueue (h : Inv server p) (hts : t ≠ server) (hpc : (p.thread t).pc = .user) (hstat : p.stat ≠ .wait)
    (hsender : e.sender = some t) (hneed : e.needReply = true) (hnumber : e.number = p.accepted.length)
    (hx : x.pc = .send) (hwakeup : x.wakeup = some .senderWaitRecv) (hxr : x.request = p.accepted.length)
    (hok : ThreadOk server t x) :
    Inv server { p with
      accepted := p.accepted ++ [(t, true, e.data)]
      thread := update p.thread t x
      waitThread := p.waitThread ++ [t]
      queue := p.queue ++ [e] } := by
  have hret' : (update p.thread t x server).ret = (p.thread server).ret := ret_update fun e => absurd e hts
  have hwaits : e.waits = some t := by
    rw [Entry.waits, hneed]
    exact hsender
  refine ⟨h.shape.enqueue hpc hstat hwaits hx hwakeup hok rfl rfl rfl rfl rfl rfl, ?_, ?_⟩
  · refine h.numbers.push hsender hnumber ?_ (by rw [hneed]) rfl
    rw [pending, pending, hret']
    exact (List.append_assoc ..).symm
  · refine h.replies.send h.shape hpc (.inr ⟨hx, rfl⟩) hxr ?_ (fun t' ht' => .inl ⟨ht', current_eq hret' rfl⟩) rfl rfl rfl rfl
    intro e' he'
    rw [List.mem_append, List.mem_singleton] at he'
    refine he'.imp_right ?_
    rintro rfl
    exact ⟨hnumber, hsender⟩

/-- What the waiting server has before it gets a message. -/
theorem server_wait (h : Inv server p) (hstat : p.stat = .wait) :
    (p.thread server).pc = .recv ∧ (p.thread server).ret = none ∧ p.queue = [] ∧ p.reply = none := by
  have hpc := h.shape.wait_iff.1 hstat
  have hok := (h.shape.thread server).at hpc
  exact ⟨hpc, hok.2.1, h.shape.empty hstat, h.shape.reply_eq_none (by rw [hstat]; exact nofun)⟩

/-- The waiting server gets on, with a message or not. -/
theorem leaveRecv (h : Inv server p) (hstat : p.stat = .wait) (hy : y.pc = .recvResumed) (hoky : ThreadOk server server y)
    (hp : p' = { p with
      thread := update p.thread server y
      stat := .idle
      suspendThread := p.suspendThread.erase server }) : Shape server p' ∧ Replies server p' := by
  subst hp
  obtain ⟨hserver, -, -, hreply⟩ := h.server_wait hstat
  refine ⟨h.shape.leaveRecv hstat hy hoky rfl rfl rfl rfl rfl rfl, ?_⟩
  refine h.replies.go h.shape (t := server) (x := y) ?_ ?_ (fun _ he => he) (fun t' ht' => ?_) rfl rfl
    (fun _ hr => .inl hr) (fun _ hr => hr) (fun e' ht' => ?_) rfl
  · rw [hserver]
    exact nofun
  · rw [hy]
    exact ⟨nofun, nofun⟩
  · rw [hreply] at ht'
    cases ht'
  · rw [hserver] at ht'
    cases ht'

/-- The waiting server gets a message, and its sender waits for nothing. -/
theorem hand (h : Inv server p) (hts : t ≠ server) (hpc : (p.thread t).pc = .user) (hstat : p.stat = .wait)
    (hsender : e.sender = some t) (hneed : e.needReply = false) (hnumber : e.number = p.accepted.length)
    (hx : x.pc = .user) (hxr : x.request = p.accepted.length) (hok : ThreadOk server t x)
    (hy : y.pc = .recvResumed) (hyret : y.ret = some e) (hoky : ThreadOk server server y) :
    Inv server { p with
      accepted := p.accepted ++ [(t, false, e.data)]
      thread := update (update p.thread t x) server y
      stat := .idle
      suspendThread := p.suspendThread.erase server } := by
  obtain ⟨-, hret, hqueue, hreply⟩ := h.server_wait hstat
  let p1 : Protocol δ := { p with
    thread := update p.thread server y
    stat := .idle
    suspendThread := p.suspendThread.erase server }
  obtain ⟨h1, hr1⟩ : Shape server p1 ∧ Replies server p1 := h.leaveRecv hstat hy hoky rfl
  have hp1 : p1.thread t = p.thread t := update_of_ne hts ..
  have hswap : update (update p.thread t x) server y = update p1.thread t x := update_comm hts x y p.thread
  rw [hswap]
  refine ⟨h1.go (t := t) (x := x) ?_ ?_ hok rfl rfl rfl (nofun) rfl rfl rfl, ?_, ?_⟩
  · rw [hp1, hpc]
    exact ⟨nofun, nofun⟩
  · rw [hx]
    exact ⟨nofun, nofun⟩
  · refine h.numbers.push hsender hnumber ?_ (by rw [hneed]) rfl
    rw [pending, pending, hret, hqueue]
    dsimp only
    rw [← hswap, update_self, hyret]
    rfl
  · refine hr1.send h1 (by rw [hp1]; exact hpc) (.inl hx) hxr (fun e' he' => .inl he') (fun t' ht' => ?_) rfl rfl rfl rfl
    rw [show p.reply = some t' from ht'] at hreply
    cases hreply

/-- The waiting server gets a message that needs a reply. -/
theorem handAsk (h : Inv server p) (hts : t ≠ server) (hpc : (p.thread t).pc = .user) (hstat : p.stat = .wait)
    (hsender : e.sender = some t) (hneed : e.needReply = true) (hnumber : e.number = p.accepted.length)
    (hx : x.pc = .send) (hxr : x.request = p.accepted.length) (hok : ThreadOk server t x)
    (hy : y.pc = .recvResumed) (hyret : y.ret = some e) (hoky : ThreadOk server server y) :
    Inv server { p with
      accepted := p.accepted ++ [(t, true, e.data)]
      thread := update (update p.thread t x) server y
      stat := .active
      reply := some t
      waitThread := p.waitThread ++ [t]
      suspendThread := p.suspendThread.erase server } := by
  obtain ⟨-, hret, hqueue, hreply⟩ := h.server_wait hstat
  let p1 : Protocol δ := { p with
    thread := update p.thread server y
    stat := .idle
    suspendThread := p.suspendThread.erase server }
  obtain ⟨h1, hr1⟩ : Shape server p1 ∧ Replies server p1 := h.leaveRecv hstat hy hoky rfl
  have hp1 : p1.thread t = p.thread t := update_of_ne hts ..
  have hswap : update (update p.thread t x) server y = update p1.thread t x := update_comm hts x y p.thread
  have hpc1 : (p1.thread t).pc = .user := by
    rw [hp1]
    exact hpc
  rw [hswap]
  refine ⟨h1.ask hpc1 rfl hqueue hx hok rfl rfl rfl rfl rfl rfl, ?_, ?_⟩
  · refine h.numbers.push hsender hnumber ?_ (by rw [hneed]) rfl
    rw [pending, pending, hret, hqueue]
    dsimp only
    rw [← hswap, update_self, hyret]
    rfl
  · refine hr1.send h1 hpc1 (.inr ⟨hx, rfl⟩) hxr (fun e' he' => .inl he') (fun t' ht' => .inr ?_) rfl rfl rfl rfl
    refine ⟨(Option.some.inj ht').symm, ?_⟩
    rw [current]
    dsimp only
    rw [← hswap, update_self, hyret]
    exact congrArg some hnumber

/-- The server replies. -/
theorem reply (h : Inv server p) (hret : (p.thread server).ret = none) (hr : p.reply = some t) (hx : x.pc = .sendResumed)
    (hxr : x.request = (p.thread t).request) (hxret : x.ret = some e) (hok : ThreadOk server t x) :
    Inv server { p with
      thread := update p.thread t x
      stat := .idle
      reply := none
      waitThread := p.waitThread.erase t
      suspendThread := p.suspendThread.erase t
      replies := (p.received.head?.map Prod.fst, t, e.data) :: p.replies } := by
  have hts : t ≠ server := (hok.at hx).1
  refine ⟨h.shape.leaveReply hr hx hok rfl rfl rfl rfl rfl rfl, ?_, ?_⟩
  · exact h.numbers.same (ret_update fun e => absurd e hts) rfl rfl rfl
  · exact h.replies.reply h.shape hret hr hx hxr hxret rfl rfl rfl rfl rfl rfl

/-- The sender whose message was received gets on without a reply. -/
theorem giveUp (h : Inv server p) (hr : p.reply = some t) (hx : x.pc = .sendResumed)
    (hxr : x.request = (p.thread t).request) (hxret : x.ret = none) (hok : ThreadOk server t x) :
    Inv server { p with
      thread := update p.thread t x
      stat := .idle
      reply := none
      waitThread := p.waitThread.erase t
      suspendThread := p.suspendThread.erase t } := by
  have hts : t ≠ server := (hok.at hx).1
  have hret' : (update p.thread t x server).ret = (p.thread server).ret := ret_update fun e => absurd e hts
  refine ⟨h.shape.leaveReply hr hx hok rfl rfl rfl rfl rfl rfl, ?_, ?_⟩
  · exact h.numbers.same hret' rfl rfl rfl
  · exact h.replies.leave ((h.shape.send_iff t).2 (.inl hr)) hx hxret hxr (fun _ he => he) (fun _ e => nomatch e)
      (current_eq hret' rfl) rfl rfl rfl rfl

/-- A sender takes its message back. -/
theorem takeBack {xs ys : List (Entry δ)} (h : Inv server p) (hr : p.reply ≠ some t) (hq : p.queue = xs ++ e :: ys)
    (hwaits : e.waits = some t) (hx : x.pc = .sendResumed) (hxr : x.request = (p.thread t).request) (hxret : x.ret = none)
    (hok : ThreadOk server t x) :
    Inv server { p with
      thread := update p.thread t x
      queue := xs ++ ys
      waitThread := p.waitThread.erase t
      suspendThread := p.suspendThread.erase t } := by
  have hts : t ≠ server := (hok.at hx).1
  have hret' : (update p.thread t x server).ret = (p.thread server).ret := ret_update fun e => absurd e hts
  have hsenders : senders p.queue = senders xs ++ t :: senders ys := by
    rw [hq, senders, List.filterMap_append, List.filterMap_cons, hwaits]
    rfl
  have ht : t ∈ senders p.queue := by
    rw [hsenders]
    exact List.mem_append_right _ List.mem_cons_self
  have hnd := h.shape.nodup
  rw [hsenders, List.nodup_middle, List.nodup_cons, List.mem_append, not_or] at hnd
  have herase : senders (xs ++ ys) = (senders p.queue).erase t := by
    rw [hsenders, List.erase_append_right _ hnd.1.1, List.erase_cons_head]
    exact List.filterMap_append
  refine ⟨h.shape.leaveQueue hr ht hx hok rfl rfl herase rfl rfl rfl, ?_, ?_⟩
  · refine h.numbers.sub ?_ rfl rfl
    rw [pending, pending, hret', hq]
    exact ((List.sublist_cons_self e ys).append_left xs).append_left _
  · refine h.replies.leave ((h.shape.send_iff t).2 (.inr ht)) hx hxret hxr (fun e' he' => ?_) (fun t' ht' => ⟨ht', ?_⟩)
      (current_eq hret' rfl) rfl rfl rfl rfl
    · rw [hq]
      exact ((List.sublist_cons_self e ys).append_left xs).subset he'
    · rintro rfl
      exact hr ht'

/-- The server takes a message that needs a reply. -/
theorem take {rest : List (Entry δ)} {ws : List Nat} (h : Inv server p) (hret : (p.thread server).ret = none)
    (hstat : p.stat = .idle) (hq : p.queue = e :: rest) (hneed : e.needReply = true) (hsender : e.sender = some t)
    (hw : p.waitThread = t :: ws) :
    Inv server { p with
      stat := .active
      reply := some t
      queue := rest
      waitThread := ws
      received := (e.number, e.data) :: p.received } := by
  have hwaits : e.waits = some t := by
    rw [Entry.waits, hneed]
    exact hsender
  refine ⟨h.shape.take hstat hq hwaits rfl rfl rfl hw rfl rfl, ?_, ?_⟩
  · refine h.numbers.take ?_ rfl rfl
    rw [pending, pending, hret, hq]
    rfl
  · refine h.replies.take hq hneed hsender rfl rfl ?_ rfl rfl rfl rfl
    rw [current, hret]
    rfl

/-- The server takes a message from the queue that needs no reply. -/
theorem takePost {rest : List (Entry δ)} (h : Inv server p) (hpc : (p.thread server).pc = .user) (hstat : p.stat = .idle)
    (hq : p.queue = e :: rest) (hneed : e.needReply = false) :
    Inv server { p with
      queue := rest
      received := (e.number, e.data) :: p.received } := by
  have hok := h.shape.thread server
  have hret := hok.at hpc
  have hreply := h.shape.reply_eq_none (by simp [hstat])
  have hself : p.thread = update p.thread server (p.thread server) := (Function.update_eq_self ..).symm
  have hsenders : senders rest = senders p.queue := by
    rw [hq, senders_cons, Entry.waits, hneed]
    rfl
  have hpc' : (p.thread server).pc ≠ .send ∧ (p.thread server).pc ≠ .recv := by
    rw [hpc]
    exact ⟨by simp, by simp⟩
  refine ⟨h.shape.go hpc' hpc' hok rfl rfl hsenders ?_ rfl rfl hself, ?_, ?_⟩
  · simp [hstat]
  · refine h.numbers.take ?_ rfl rfl
    rw [pending, pending, hret.1, hq]
    rfl
  · refine h.replies.go h.shape hpc'.1 ⟨hpc'.1, by simp [hpc]⟩ (fun e' he' => ?_) (fun t' ht' => ?_) rfl rfl
      (fun _ hr => .inl hr) (fun _ hr => hr) (fun e' ht' => ?_) hself
    · rw [hq]
      exact List.mem_cons_of_mem e he'
    · rw [hreply] at ht'
      cases ht'
    · rw [hpc] at ht'
      cases ht'

/-- The server reads the message that it was handed. -/
theorem recvRead (h : Inv server p) (hpc : (p.thread server).pc = .recvResumed) (he : (p.thread server).ret = some e)
    (hx : x.pc = .user) (hxret : x.ret = none) (hok : ThreadOk server server x) :
    Inv server { p with
      thread := update p.thread server x
      received := (e.number, e.data) :: p.received } := by
  have hpc' : (p.thread server).pc ≠ .send ∧ (p.thread server).pc ≠ .recv := by
    rw [hpc]
    exact ⟨nofun, nofun⟩
  refine ⟨h.shape.go hpc' ?_ hok rfl rfl rfl h.shape.empty rfl rfl rfl, ?_, ?_⟩
  · rw [hx]
    exact ⟨nofun, nofun⟩
  · refine h.numbers.take ?_ rfl rfl
    rw [pending, pending, he]
    dsimp only
    rw [update_self, hxret]
    rfl
  · refine h.replies.go h.shape hpc'.1 ?_ (fun _ he => he) (fun t' ht' => ⟨ht', ?_⟩) rfl rfl
      (fun _ hr => .inl hr) (fun _ hr => hr) (fun e' ht' => ?_) rfl
    · rw [hx]
      exact ⟨nofun, nofun⟩
    · rw [current, current, he]
      dsimp only
      rw [update_self, hxret]
      rfl
    · rw [hpc] at ht'
      cases ht'

/-- The server waits. -/
theorem wait (h : Inv server p) (hpc : (p.thread server).pc = .user) (hstat : p.stat = .idle) (hq : p.queue = [])
    (hx : x.pc = .recv) (hxret : x.ret = none) (hok : ThreadOk server server x) :
    Inv server { p with
      thread := update p.thread server x
      stat := .wait
      suspendThread := p.suspendThread ++ [server] } := by
  have hret := (h.shape.thread server).at hpc
  have hret' : (update p.thread server x server).ret = (p.thread server).ret := ret_update fun _ => hxret.trans hret.1.symm
  refine ⟨h.shape.suspendRecv hpc hstat hq hx hok rfl rfl rfl rfl rfl rfl, ?_, ?_⟩
  · exact h.numbers.same hret' rfl rfl rfl
  · refine h.replies.go h.shape ?_ ?_ (fun _ he => he) (fun t' ht' => ⟨ht', current_eq hret' rfl⟩) rfl rfl
      (fun _ hr => .inl hr) (fun _ hr => hr) (fun e' ht' => ?_) rfl
    · rw [hpc]
      exact nofun
    · rw [hx]
      exact ⟨nofun, nofun⟩
    · rw [hpc] at ht'
      cases ht'

/-- The server gets on without a message. -/
theorem leave (h : Inv server p) (hstat : p.stat = .wait) (hx : x.pc = .recvResumed) (hxret : x.ret = none)
    (hok : ThreadOk server server x) :
    Inv server { p with
      thread := update p.thread server x
      stat := .idle
      suspendThread := p.suspendThread.erase server } := by
  obtain ⟨-, hret, -, -⟩ := h.server_wait hstat
  have hret' : (update p.thread server x server).ret = (p.thread server).ret := ret_update fun _ => hxret.trans hret.symm
  obtain ⟨hshape, hreplies⟩ := h.leaveRecv hstat hx hok rfl
  exact ⟨hshape, h.numbers.same hret' rfl rfl rfl, hreplies⟩

end Inv

end Protocol

end RtThread.LwpIpc
