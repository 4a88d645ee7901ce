import RtThread.Lwp.ChannelPool
import RtThread.Lwp.ChannelSections

/-!
# The code of IPC channels

Every section of the code that can run has a result, with the messages in their places and the invariant of the protocol
(`Good`).
-/

namespace RtThread.LwpIpc

open Function (update)

namespace Channel

variable {δ : Type} {max server m t : Nat} {s s' : Channel δ} {data : δ} {time : Int} {needReply pending : Bool}

structure Good (max server : Nat) (s : Channel δ) : Prop where
  pool : Pool max [] s
  inv : s.prot.Inv server

variable {x : ChannelThread}

theorem setThread_setThread {y : ChannelThread} : (s.setThread t x).setThread t y = s.setThread t y := by
  rw [setThread, setThread, setThread]
  rw [Function.update_idem]

theorem resume_send (hpc : x.pc = .send) : (s.setThread t x).resume t =
    { s with waitThread := s.waitThread.erase t, suspendThread := s.suspendThread.erase t }.setThread t
      { x with wakeup := none, timer := none, pc := .sendResumed } := by
  rw [resume, setThread_self, if_pos (.inl hpc), hpc]
  exact setThread_setThread (s := { s with
    waitThread := s.waitThread.erase t
    suspendThread := s.suspendThread.erase t })

theorem resume_recv (hpc : x.pc = .recv) : (s.setThread t x).resume t =
    { s with waitThread := s.waitThread.erase t, suspendThread := s.suspendThread.erase t }.setThread t
      { x with wakeup := none, timer := none, pc := .recvResumed } := by
  rw [resume, setThread_self, if_pos (.inr hpc), hpc]
  exact setThread_setThread (s := { s with
    waitThread := s.waitThread.erase t
    suspendThread := s.suspendThread.erase t })

theorem accept_setError {error : Int} : (s.setError t error).accept t m needReply data =
    { s with
      accepted := s.accepted ++ [(t, needReply, data)]
      number := update s.number m s.accepted.length }.setThread t
        { s.thread t with error := error, request := s.accepted.length } := by
  rw [accept, setError, setThread_self]
  exact setThread_setThread (s := { s with
    accepted := s.accepted ++ [(t, needReply, data)]
    number := update s.number m s.accepted.length })

theorem suspendSender_setThread {wakeup : Wakeup} : (s.setThread t x).suspendSender t wakeup time =
    { s with waitThread := s.waitThread ++ [t] }.setThread t
      { x with wakeup := some wakeup, timer := if 0 < time then some .sender else none, pc := .send } := by
  rw [suspendSender, setThread_self]
  exact setThread_setThread (s := { s with waitThread := s.waitThread ++ [t] })

/-- A message that was allocated, with what is in it, and its number. -/
def numbered (s : Channel δ) (m t : Nat) (needReply : Bool) (data : δ) : Channel δ :=
  { s with
    msg := update s.msg m ⟨some t, needReply, data⟩
    number := update s.number m s.accepted.length }

theorem Pool.numbered (h : Pool max [m] s) (t : Nat) (needReply : Bool) (data : δ) :
    Pool max [m] (s.numbered m t needReply data) ∧ (s.numbered m t needReply data).prot = s.prot ∧
      (s.numbered m t needReply data).entry m = ⟨some t, needReply, data, s.accepted.length⟩ := by
  refine ⟨(h.write _).congr rfl rfl rfl rfl fun _ => rfl,
    h.prot_eq (fun i hi => Function.update_of_ne hi _ _) fun i hi => Function.update_of_ne hi _ _, ?_⟩
  rw [entry, Channel.numbered]
  dsimp only
  rw [Function.update_self, Function.update_self]

theorem sender_timer (time : Int) : (if 0 < time then some ChannelTimer.sender else none) ≠ some .receiver := by
  split
  · exact nofun
  · exact nofun

namespace Good

theorem threadOk (h : Good max server s) (t : Nat) : Protocol.ThreadOk server t (s.protThread (s.thread t)) :=
  h.inv.shape.thread t

theorem msgRet_none {x : ChannelThread} (h : (s.protThread x).ret = none) : x.msgRet = none :=
  Option.map_eq_none_iff.1 h

section

variable (h : Good max server s)

include h

theorem user (hpc : (s.thread t).pc = .user) : (s.thread t).msgRet = none ∧ (s.thread t).timer = none := by
  have hok := (h.threadOk t).at hpc
  exact ⟨msgRet_none hok.1, hok.2⟩

/-! ## Receivers -/

theorem recvTimeout (hpc : (s.thread server).pc = .user) (time : Int) (pending : Bool) :
    ∃ s', s.recvTimeout server time pending = some s' ∧ Good max server s' := by
  obtain ⟨hret, htimer⟩ := h.user hpc
  rw [Channel.recvTimeout]
  by_cases hstat : s.stat = .idle
  · rw [if_neg (not_not.2 hstat)]
    have hprotRet : (s.prot.thread server).ret = none := congrArg (Option.map s.entry) hret
    dsimp only
    split
    next m rest hw =>
      have hq : s.prot.queue = s.entry m :: rest.map s.entry := congrArg (List.map s.entry) hw
      have hpool := h.pool.take (show s.waitMsg = [] ++ m :: rest from hw)
      cases hneed : (s.msg m).needReply with
      | true =>
        obtain ⟨t, hsender, -⟩ := h.inv.numbers.entry (s.entry m)
          (by rw [Protocol.pending, hq]; exact List.mem_append_right _ List.mem_cons_self)
        have hwaits : (s.entry m).waits = some t := by
          rw [Entry.waits, show (s.entry m).needReply = true from hneed]
          exact hsender
        have hnone : s.prot.reply = none := h.inv.shape.reply_eq_none (by
          rw [show s.prot.stat = .idle from hstat]
          simp)
        have hwait : s.waitThread = t :: senders (rest.map s.entry) := by
          refine (h.inv.shape.waitThread_eq hnone).trans ?_
          rw [hq, Protocol.senders_cons, hwaits]
          rfl
        rw [hwait]
        dsimp only
        have hpool' : Pool max [m] { s with
            waitMsg := rest
            received := (s.number m, (s.msg m).data) :: s.received
            waitThread := senders (rest.map s.entry)
            reply := some t
            stat := .active } := hpool.congr rfl rfl rfl rfl fun _ => rfl
        refine ⟨_, rfl, hpool'.msgFree, ?_⟩
        rw [hpool'.prot_msgFree]
        exact h.inv.take hprotRet hstat hq hneed hsender hwait
      | false =>
        have hpool' : Pool max [m] { s with
            waitMsg := rest
            received := (s.number m, (s.msg m).data) :: s.received } := hpool.congr rfl rfl rfl rfl fun _ => rfl
        refine ⟨_, rfl, hpool'.msgFree, ?_⟩
        rw [hpool'.prot_msgFree]
        exact h.inv.takePost hpc hstat hq hneed
    next hw =>
      by_cases hgo : time = 0 ∨ pending = true
      · rw [if_pos hgo]
        exact ⟨s, rfl, h⟩
      · rw [if_neg hgo]
        refine ⟨_, rfl, ?_, ?_⟩
        · have hpool : Pool max [] { s with suspendThread := s.suspendThread ++ [server], stat := .wait } :=
            h.pool.congr rfl rfl rfl rfl fun _ => rfl
          exact hpool.setThread rfl
        · rw [prot_setThread]
          refine h.inv.wait (x := s.protThread _) hpc hstat ?_ rfl hprotRet ⟨rfl, hprotRet, rfl, ?_, rfl⟩
          · show s.waitMsg.map s.entry = []
            rw [hw]
            rfl
          · show (if 0 < time then some ChannelTimer.receiver else none) ≠ some .sender
            split
            · simp
            · simp
  · rw [if_pos hstat]
    exact ⟨s, rfl, h⟩

theorem recvResumed (hpc : (s.thread server).pc = .recvResumed) :
    ∃ s', s.recvResumed server = some s' ∧ Good max server s' := by
  obtain ⟨-, htimer, herr⟩ := (h.threadOk server).at hpc
  rw [Channel.recvResumed]
  have hpc' : (s.prot.thread server).pc ≠ .send ∧ (s.prot.thread server).pc ≠ .recv := by
    rw [show (s.prot.thread server).pc = .recvResumed from hpc]
    exact ⟨nofun, nofun⟩
  by_cases he : (s.thread server).error = RT_EOK
  · rw [if_neg (not_not.2 he)]
    cases hret : (s.thread server).msgRet with
    | none =>
      refine absurd ?_ (herr.1 he)
      show (s.thread server).msgRet.map s.entry = none
      rw [hret]
      rfl
    | some m =>
      let s1 : Channel δ := { s with received := (s.number m, (s.msg m).data) :: s.received }.setThread server
        { s.thread server with msgRet := none, pc := .user }
      have hpool0 : Pool max [] { s with received := (s.number m, (s.msg m).data) :: s.received } :=
        h.pool.congr rfl rfl rfl rfl fun _ => rfl
      have hpool : Pool max [m] s1 := hpool0.giveBack hret rfl
      refine ⟨s1.msgFree m, rfl, hpool.msgFree, ?_⟩
      rw [hpool.prot_msgFree, prot_setThread]
      have hretEntry : (s.prot.thread server).ret = some (s.entry m) := congrArg (Option.map s.entry) hret
      exact h.inv.recvRead hpc hretEntry rfl rfl ⟨rfl, htimer⟩
  · rw [if_pos he]
    have hnone : (s.prot.thread server).ret = none := not_not.1 fun hne => he (herr.2 hne)
    refine ⟨_, rfl, h.pool.setThread rfl, ?_⟩
    rw [prot_setThread]
    exact h.inv.go hpc' ⟨nofun, nofun, nofun⟩ ⟨hnone, htimer⟩ (fun _ => rfl) fun _ => hnone

/-! ## Replies -/

theorem rawChannelReply (hpc : (s.thread server).pc = .user) (data : δ) :
    Good max server (s.rawChannelReply max server data) := by
  rw [Channel.rawChannelReply]
  by_cases hstat : s.stat = .active
  · rw [if_neg (not_not.2 hstat)]
    split
    next hreply => exact h
    next t hreply =>
      split
      next halloc => exact h
      next m s1 halloc =>
        obtain ⟨free, used, rfl, hp⟩ := h.pool.alloc halloc
        let s2 : Channel δ := msgInit { s with msgFreeList := free, msgUsed := used } m server false data
        have hpool : Pool max [m] s2 := hp.write _
        have hprot : s2.prot = s.prot := hp.prot_eq (fun i hi => Function.update_of_ne hi _ _) fun _ _ => rfl
        have hinv : s2.prot.Inv server := by
          rw [hprot]
          exact h.inv
        have hsend : (s.thread t).pc = .send := (h.inv.shape.send_iff t).2 (.inl hreply)
        obtain ⟨hts, hret, herr, -⟩ := (h.threadOk t).at hsend
        show Good max server { (s2.setThread t { s.thread t with msgRet := some m }).resume t with
          stat := .idle
          reply := none
          replies := (s.received.head?.map Prod.fst, t, data) :: s.replies }
        rw [resume_send (s := s2) (x := { s.thread t with msgRet := some m }) hsend]
        have hserver : (s2.prot.thread server).ret = none := congrArg (Option.map s2.entry) (h.user hpc).1
        have hdata : (s2.entry m).data = data := by
          show (update s.msg m _ m).data = data
          rw [Function.update_self]
        constructor
        · refine (hpool.give (t := t) (x := { s.thread t with
            msgRet := some m, wakeup := none, timer := none, pc := .sendResumed }) (msgRet_none hret) rfl).congr
            rfl rfl rfl rfl fun _ => rfl
        · have hreplied := hinv.reply (x := s2.protThread { s.thread t with
            msgRet := some m, wakeup := none, timer := none, pc := .sendResumed }) (e := s2.entry m) hserver hreply rfl rfl rfl
            ⟨hts, rfl, fun _ e => (nomatch e), fun _ => herr⟩
          rw [hdata] at hreplied
          refine Eq.mp (congrArg _ ?_) hreplied
          exact (prot_setThread (s := { s2 with
            waitThread := s.waitThread.erase t
            suspendThread := s.suspendThread.erase t
            stat := .idle
            reply := none
            replies := (s.received.head?.map Prod.fst, t, data) :: s.replies })).symm
  · rw [if_pos hstat]
    exact h

/-! ## Senders -/

/-- While the server waits, no sender does. -/
theorem waitThread_nil (hstat : s.stat = .wait) : s.waitThread = [] := by
  obtain ⟨-, -, hqueue, hreply⟩ := h.inv.server_wait hstat
  have heq := h.inv.shape.waitThread_eq hreply
  rw [hqueue] at heq
  exact heq

theorem suspend_wait (hstat : s.stat = .wait) : s.suspendThread = [server] :=
  h.inv.shape.suspend.trans (if_pos hstat)

end

variable {s1 : Channel δ} {error : Int}

section

variable (h : Good max server s) (ha : s.msgAlloc max = some (m, s1))

include h ha

theorem alloc_numbered (t : Nat)
    (needReply : Bool) (data : δ) : ∃ free used, s1 = { s with msgFreeList := free, msgUsed := used } ∧
      Pool max [m] (s1.numbered m t needReply data) ∧ (s1.numbered m t needReply data).prot.Inv server ∧
      (s1.numbered m t needReply data).entry m = ⟨some t, needReply, data, s.accepted.length⟩ := by
  obtain ⟨free, used, rfl, hp⟩ := h.pool.alloc ha
  obtain ⟨hpool, hprot, hentry⟩ := hp.numbered t needReply data
  refine ⟨free, used, rfl, hpool, ?_, hentry⟩
  rw [hprot]
  exact h.inv

/-- A message is put into the queue, and its sender waits for nothing. -/
theorem post (hts : t ≠ server) (hpc : (s.thread t).pc = .user) (hstat : s.stat ≠ .wait) :
    Good max server (let s := (s1.msgInit m t false data).accept t m false data
      { s with waitMsg := s.waitMsg ++ [m] }) := by
  obtain ⟨free, used, rfl, hpool, hinv, hentry⟩ := h.alloc_numbered ha t false data
  let s2 := numbered { s with msgFreeList := free, msgUsed := used } m t false data
  let x : ChannelThread := { s.thread t with request := s.accepted.length }
  have hok : Protocol.ThreadOk server t (s2.protThread x) := by
    have hold := h.user hpc
    exact Protocol.ThreadOk.of hpc ⟨congrArg (Option.map s2.entry) hold.1, hold.2⟩
  have hpost := hinv.post hts hpc hstat (congrArg Entry.sender hentry) (congrArg Entry.needReply hentry)
    (congrArg Entry.number hentry) hpc rfl hok
  rw [show (s2.entry m).data = data from congrArg Entry.data hentry] at hpost
  have hput := prot_put (m := m) (s := { s2 with accepted := s.accepted ++ [(t, false, data)] }.setThread t x)
  rw [prot_setThread] at hput
  constructor
  · exact Pool.put (Pool.setThread (hpool.congr rfl rfl rfl rfl fun _ => rfl) rfl)
  · exact Eq.mp (congrArg _ hput.symm) hpost

/-- A message is put into the queue, and its sender waits. -/
theorem enqueue (hts : t ≠ server)
    (hpc : (s.thread t).pc = .user) (hstat : s.stat ≠ .wait) (time : Int) : Good max server
      (let s := (((s1.msgInit m t true data).setError t RT_EOK).accept t m true data).suspendSender t .senderWaitRecv time;
        { s with waitMsg := s.waitMsg ++ [m] }) := by
  obtain ⟨free, used, rfl, hpool, hinv, hentry⟩ := h.alloc_numbered ha t true data
  let s2 := numbered { s with msgFreeList := free, msgUsed := used } m t true data
  rw [accept_setError, suspendSender_setThread]
  let x : ChannelThread := { s.thread t with
    error := RT_EOK
    request := s.accepted.length
    wakeup := some .senderWaitRecv
    timer := if 0 < time then some .sender else none
    pc := .send }
  have hok : Protocol.ThreadOk server t (s2.protThread x) :=
    ⟨hts, congrArg (Option.map s2.entry) (h.user hpc).1, rfl, sender_timer time, .inl rfl⟩
  have hsend := hinv.enqueue hts hpc hstat (congrArg Entry.sender hentry) (congrArg Entry.needReply hentry)
    (congrArg Entry.number hentry) rfl rfl rfl hok
  rw [show (s2.entry m).data = data from congrArg Entry.data hentry] at hsend
  have hput := prot_put (m := m) (s := { s2 with
    accepted := s.accepted ++ [(t, true, data)]
    waitThread := s.waitThread ++ [t] }.setThread t x)
  rw [prot_setThread] at hput
  constructor
  · exact Pool.put (Pool.setThread (hpool.congr rfl rfl rfl rfl fun _ => rfl) rfl)
  · exact Eq.mp (congrArg _ hput.symm) hsend

/-- A message is given to the waiting server, and its sender waits for nothing. -/
theorem hand (hts : t ≠ server) (hpc : (s.thread t).pc = .user) (hstat : s.stat = .wait) :
    Good max server (let s := { (s1.msgInit m t false data).accept t m false data with stat := .idle }
      (s.setThread server { s.thread server with msgRet := some m, error := RT_EOK }).resume server) := by
  obtain ⟨free, used, rfl, hpool, hinv, hentry⟩ := h.alloc_numbered ha t false data
  let s2 := numbered { s with msgFreeList := free, msgUsed := used } m t false data
  obtain ⟨hserver, hret, -, -⟩ := h.inv.server_wait hstat
  let x : ChannelThread := { s.thread t with request := s.accepted.length }
  let y : ChannelThread := { s.thread server with
    msgRet := some m
    error := RT_EOK
    wakeup := none
    timer := none
    pc := .recvResumed }
  have hok : Protocol.ThreadOk server t (s2.protThread x) := by
    have hold := h.user hpc
    exact Protocol.ThreadOk.of hpc ⟨congrArg (Option.map s2.entry) hold.1, hold.2⟩
  have hhand := hinv.hand (y := s2.protThread y) hts hpc hstat (congrArg Entry.sender hentry)
    (congrArg Entry.needReply hentry) (congrArg Entry.number hentry) hpc rfl hok rfl rfl
    ⟨rfl, rfl, fun _ e => (nomatch e), fun _ => rfl⟩
  rw [show (s2.entry m).data = data from congrArg Entry.data hentry] at hhand
  let s3 : Channel δ := { s2 with
    accepted := s.accepted ++ [(t, false, data)]
    stat := .idle
    suspendThread := s.suspendThread.erase server }
  have heq : (let s := { (s2.setThread t x) with accepted := s.accepted ++ [(t, false, data)], stat := .idle };
      (s.setThread server { s.thread server with msgRet := some m, error := RT_EOK }).resume server) =
        ({ s3 with waitThread := s.waitThread.erase server }.setThread t x).setThread server y := by
    dsimp only
    rw [setThread_of_ne (Ne.symm hts), resume_recv]
    · rfl
    · exact hserver
  rw [h.waitThread_nil hstat] at heq
  have hret' : ((s3.setThread t x).thread server).msgRet = none := by
    rw [setThread_of_ne (Ne.symm hts)]
    exact msgRet_none hret
  have hfinal : Good max server (({ s3 with waitThread := [] }.setThread t x).setThread server y) := by
    constructor
    · exact Pool.give (Pool.setThread (hpool.congr rfl rfl rfl rfl fun _ => rfl) rfl) hret' rfl
    · rw [prot_setThread, prot_setThread, ← h.waitThread_nil hstat]
      exact hhand
  exact heq ▸ hfinal

end

/-- A message is given to the waiting server, and its sender waits for the reply. -/
theorem handAsk {s1 : Channel δ} (h : Good max server s) (ha : s.msgAlloc max = some (m, s1)) (hts : t ≠ server)
    (hpc : (s.thread t).pc = .user) (hstat : s.stat = .wait) (time : Int) :
    Good max server
      (let s := { (((s1.msgInit m t true data).setError t RT_EOK).accept t m true data).suspendSender t .senderWaitReply time with
          reply := some t
          stat := .active };
        (s.setThread server { s.thread server with msgRet := some m, error := RT_EOK }).resume server) := by
  obtain ⟨free, used, rfl, hpool, hinv, hentry⟩ := h.alloc_numbered ha t true data
  let s2 := numbered { s with msgFreeList := free, msgUsed := used } m t true data
  obtain ⟨hserver, hret, -, -⟩ := h.inv.server_wait hstat
  let x : ChannelThread := { s.thread t with
    error := RT_EOK
    request := s.accepted.length
    wakeup := some .senderWaitReply
    timer := if 0 < time then some .sender else none
    pc := .send }
  let y : ChannelThread := { s.thread server with
    msgRet := some m
    error := RT_EOK
    wakeup := none
    timer := none
    pc := .recvResumed }
  have hok : Protocol.ThreadOk server t (s2.protThread x) :=
    ⟨hts, congrArg (Option.map s2.entry) (h.user hpc).1, rfl, sender_timer time, .inr rfl⟩
  have hhand := hinv.handAsk (y := s2.protThread y) hts hpc hstat (congrArg Entry.sender hentry)
    (congrArg Entry.needReply hentry) (congrArg Entry.number hentry) rfl rfl hok rfl rfl
    ⟨rfl, rfl, fun _ e => (nomatch e), fun _ => rfl⟩
  rw [show (s2.entry m).data = data from congrArg Entry.data hentry] at hhand
  let s3 : Channel δ := { s2 with
    accepted := s.accepted ++ [(t, true, data)]
    reply := some t
    stat := .active
    suspendThread := s.suspendThread.erase server }
  have heq : (let s := { (s2.setThread t x) with
        accepted := s.accepted ++ [(t, true, data)]
        waitThread := s.waitThread ++ [t]
        reply := some t
        stat := .active };
      (s.setThread server { s.thread server with msgRet := some m, error := RT_EOK }).resume server) =
        ({ s3 with waitThread := (s.waitThread ++ [t]).erase server }.setThread t x).setThread server y := by
    dsimp only
    rw [setThread_of_ne (Ne.symm hts), resume_recv]
    · rfl
    · exact hserver
  have hlist : (s.waitThread ++ [t]).erase server = s.waitThread ++ [t] := by
    rw [h.waitThread_nil hstat]
    exact List.erase_of_not_mem fun e => hts (List.mem_singleton.1 e).symm
  rw [hlist] at heq
  have hret' : ((s3.setThread t x).thread server).msgRet = none := by
    rw [setThread_of_ne (Ne.symm hts)]
    exact msgRet_none hret
  have hfinal : Good max server
      (({ s3 with waitThread := s.waitThread ++ [t] }.setThread t x).setThread server y) := by
    constructor
    · exact Pool.give (Pool.setThread (hpool.congr rfl rfl rfl rfl fun _ => rfl) rfl) hret' rfl
    · rw [prot_setThread, prot_setThread]
      exact hhand
  rw [accept_setError, suspendSender_setThread]
  exact heq ▸ hfinal

section

variable (h : Good max server s)

include h

/-- A sender is not suspended. -/
theorem refuse (ha : s.msgAlloc max = some (m, s1))
    (hpc : (s.thread t).pc = .user) : Good max server (((s1.msgInit m t true data).setError t RT_EOK).msgFree m) := by
  obtain ⟨free, used, rfl, hp⟩ := h.pool.alloc ha
  let s2 : Channel δ := msgInit { s with msgFreeList := free, msgUsed := used } m t true data
  have hpool : Pool max [m] (s2.setError t RT_EOK) := (hp.write _).setThread rfl
  have hprot : s2.prot = s.prot := hp.prot_eq (fun i hi => Function.update_of_ne hi _ _) fun _ _ => rfl
  have hinv : s2.prot.Inv server := by
    rw [hprot]
    exact h.inv
  have hpc2 : (s2.prot.thread t).pc = .user := hpc
  obtain ⟨hret, htimer⟩ := h.user hpc
  constructor
  · exact hpool.msgFree
  · refine Eq.mp (congrArg _ hpool.prot_msgFree.symm) ?_
    rw [setError, prot_setThread]
    refine hinv.go (x := s2.protThread { s.thread t with error := RT_EOK }) ?_ ?_ ?_ (fun _ => rfl) fun e => ?_
    · rw [hpc2]
      exact ⟨nofun, nofun⟩
    · rw [show (s2.protThread { s.thread t with error := RT_EOK }).pc = .user from hpc]
      exact ⟨nofun, nofun, nofun⟩
    · exact Protocol.ThreadOk.of hpc ⟨congrArg (Option.map s2.entry) hret, htimer⟩
    · rw [hpc2] at e
      cases e

theorem sendRecvTimeout (hts : t ≠ server) (hpc : (s.thread t).pc = .user) (data : δ)
    (needReply : Bool) (time : Int) (pending : Bool) :
    ∃ s', s.sendRecvTimeout max t data needReply time pending = some s' ∧ Good max server s' := by
  rw [Channel.sendRecvTimeout]
  by_cases hzero : needReply = true ∧ time = 0
  · rw [if_pos hzero]
    exact ⟨s, rfl, h⟩
  · rw [if_neg hzero]
    split
    next => exact ⟨s, rfl, h⟩
    next m s1 ha =>
      obtain ⟨hs1, hs2⟩ : s1.stat = s.stat ∧ s1.suspendThread = s.suspendThread := by
        obtain ⟨free, used, rfl, -⟩ := h.pool.alloc ha
        exact ⟨rfl, rfl⟩
      cases needReply with
      | false =>
        simp only [Bool.false_eq_true, false_and, if_false]
        split
        next hstat =>
          have hstat := hs1.symm.trans hstat
          exact ⟨_, rfl, h.post ha hts hpc (by rw [hstat]; exact nofun)⟩
        next hstat =>
          have hstat := hs1.symm.trans hstat
          exact ⟨_, rfl, h.post ha hts hpc (by rw [hstat]; exact nofun)⟩
        next hstat =>
          have hstat := hs1.symm.trans hstat
          split
          next hsuspend =>
            cases (h.suspend_wait hstat).symm.trans (hs2.symm.trans hsuspend)
          next recv rest hsuspend =>
            obtain ⟨rfl, -⟩ := List.cons.inj ((h.suspend_wait hstat).symm.trans (hs2.symm.trans hsuspend))
            exact ⟨_, rfl, h.hand ha hts hpc hstat⟩
      | true =>
        simp only [true_and, if_true]
        split
        next =>
          exact ⟨_, rfl, h.refuse ha hpc⟩
        next =>
          split
          next hstat =>
            have hstat := hs1.symm.trans hstat
            exact ⟨_, rfl, h.enqueue ha hts hpc (by rw [hstat]; exact nofun) time⟩
          next hstat =>
            have hstat := hs1.symm.trans hstat
            exact ⟨_, rfl, h.enqueue ha hts hpc (by rw [hstat]; exact nofun) time⟩
          next hstat =>
            have hstat := hs1.symm.trans hstat
            split
            next hsuspend =>
              cases (h.suspend_wait hstat).symm.trans (hs2.symm.trans hsuspend)
            next recv rest hsuspend =>
              obtain ⟨rfl, -⟩ := List.cons.inj ((h.suspend_wait hstat).symm.trans (hs2.symm.trans hsuspend))
              exact ⟨_, rfl, h.handAsk ha hts hpc hstat time⟩

theorem sendResumed (hpc : (s.thread t).pc = .sendResumed) :
    ∃ s', s.sendResumed t = some s' ∧ Good max server s' := by
  obtain ⟨hts, htimer, herr⟩ := (h.threadOk t).at hpc
  have hpc' : (s.prot.thread t).pc ≠ .send ∧ (s.prot.thread t).pc ≠ .recv := by
    rw [show (s.prot.thread t).pc = .sendResumed from hpc]
    exact ⟨nofun, nofun⟩
  rw [Channel.sendResumed]
  by_cases he : (s.thread t).error = RT_EOK
  · rw [if_neg (not_not.2 he)]
    split
    next hret =>
      refine absurd ?_ (herr.1 he)
      show (s.thread t).msgRet.map s.entry = none
      rw [hret]
      rfl
    next m hret =>
      have hretEntry : (s.prot.thread t).ret = some (s.entry m) := congrArg (Option.map s.entry) hret
      refine ⟨_, rfl, (h.pool.setThread (t := t) (x := { s.thread t with pc := .sendFree }) rfl).congr
        rfl rfl rfl rfl fun _ => rfl, ?_⟩
      have hread := h.inv.read (x := s.protThread { s.thread t with pc := .sendFree }) hpc hretEntry rfl
        ⟨hts, htimer, herr.1 he⟩
      refine Eq.mp (congrArg _ ?_) hread
      exact (prot_setThread (s := { s with
        returned := ((s.thread t).request, t, (s.msg m).data) :: s.returned })).symm
  · rw [if_pos he]
    have hnone : (s.prot.thread t).ret = none := not_not.1 fun hne => he (herr.2 hne)
    refine ⟨_, rfl, h.pool.setThread rfl, ?_⟩
    rw [prot_setThread]
    exact h.inv.go hpc' ⟨nofun, nofun, nofun⟩ ⟨hnone, htimer⟩ (fun _ => rfl) fun _ => hnone

theorem sendFree (hpc : (s.thread t).pc = .sendFree) :
    ∃ s', s.sendFree t = some s' ∧ Good max server s' := by
  obtain ⟨hts, htimer, hne⟩ := (h.threadOk t).at hpc
  rw [Channel.sendFree]
  split
  next hret =>
    refine absurd ?_ hne
    show (s.thread t).msgRet.map s.entry = none
    rw [hret]
    rfl
  next m hret =>
    have hpool : Pool max [m] (s.setThread t { s.thread t with msgRet := none, pc := .user }) := h.pool.giveBack hret rfl
    refine ⟨_, rfl, hpool.msgFree, ?_⟩
    refine Eq.mp (congrArg _ hpool.prot_msgFree.symm) ?_
    rw [prot_setThread]
    have hpc' : (s.prot.thread t).pc = .sendFree := hpc
    refine h.inv.go ?_ ⟨nofun, nofun, nofun⟩ ⟨rfl, htimer⟩ (fun e => absurd e hts) fun e => ?_
    · rw [hpc']
      exact ⟨nofun, nofun⟩
    · rw [hpc'] at e
      cases e

/-! ## Wake-ups and timeouts -/

/-- The sender whose message was received gets on with an error. -/
theorem giveUp (hreply : s.reply = some t) (herror : error ≠ RT_EOK) :
    Good max server (({ s with stat := .idle, reply := none }.setError t error).resume t) := by
  have hpc : (s.thread t).pc = .send := (h.inv.shape.send_iff t).2 (.inl hreply)
  obtain ⟨hts, hret, -⟩ := (h.threadOk t).at hpc
  let x : ChannelThread := { s.thread t with error := error, wakeup := none, timer := none, pc := .sendResumed }
  rw [setError, resume_send]
  · constructor
    · exact Pool.setThread (h.pool.congr rfl rfl rfl rfl fun _ => rfl) rfl
    · rw [prot_setThread]
      exact h.inv.giveUp (x := s.protThread x) hreply rfl rfl hret
        ⟨hts, rfl, fun e => absurd e herror, fun e => absurd hret e⟩
  · exact hpc

/-- The message of a sender in the queue. -/
theorem exists_message (hpc : (s.thread t).pc = .send) (hreply : s.reply ≠ some t) :
    ∃ m xs ys, (s.waitMsg.find? fun m => (s.msg m).needReply ∧ (s.msg m).sender = some t) = some m ∧
      s.waitMsg = xs ++ m :: ys ∧ s.waitMsg.erase m = xs ++ ys ∧ (s.entry m).waits = some t := by
  have hmem : t ∈ senders s.prot.queue := ((h.inv.shape.send_iff t).1 hpc).resolve_left hreply
  obtain ⟨e, he, hwaits⟩ := List.mem_filterMap.1 hmem
  obtain ⟨i, hi, rfl⟩ := List.mem_map.1 he
  have hwaits_iff : ∀ m, (s.entry m).waits = some t ↔ (s.msg m).needReply = true ∧ (s.msg m).sender = some t := by
    intro m
    show (if (s.msg m).needReply = true then (s.msg m).sender else none) = some t ↔ _
    split
    next hneed => exact ⟨fun e => ⟨hneed, e⟩, fun e => e.2⟩
    next hneed => exact ⟨nofun, fun e => absurd e.1 hneed⟩
  cases hf : s.waitMsg.find? fun m => (s.msg m).needReply ∧ (s.msg m).sender = some t with
  | none =>
    have hnot := List.find?_eq_none.1 hf i hi
    exact absurd (decide_eq_true ((hwaits_iff i).1 hwaits)) hnot
  | some m =>
    obtain ⟨hm, xs, ys, heq, -⟩ := List.find?_eq_some_iff_append.1 hf
    obtain ⟨free, -, hplaced⟩ := h.pool.placed
    have hnd : s.waitMsg.Nodup := hplaced.nodup .waitMsg
    refine ⟨m, xs, ys, rfl, heq, ?_, (hwaits_iff m).2 (of_decide_eq_true hm)⟩
    rw [heq, List.nodup_middle, List.nodup_cons, List.mem_append, not_or] at hnd
    rw [heq, List.erase_append_right _ hnd.1.1, List.erase_cons_head]

/-- A sender gets on with an error. -/
theorem leaveSend (hpc : (s.thread t).pc = .send) (herror : error ≠ RT_EOK) :
    Good max server (((s.dropSender t).setError t error).resume t) := by
  rw [dropSender]
  by_cases hreply : s.reply = some t
  · have hstat : s.stat = .active := h.inv.shape.active_iff.2 fun e => nomatch hreply.symm.trans e
    rw [if_pos ⟨hstat, hreply⟩]
    exact h.giveUp hreply herror
  · rw [if_neg fun e => hreply e.2]
    obtain ⟨m, xs, ys, hfind, hw, herase, hwaits⟩ := h.exists_message hpc hreply
    rw [hfind]
    dsimp only
    rw [herase]
    obtain ⟨hts, hret, -⟩ := (h.threadOk t).at hpc
    let x : ChannelThread := { s.thread t with error := error, wakeup := none, timer := none, pc := .sendResumed }
    have hq : s.prot.queue = xs.map s.entry ++ s.entry m :: ys.map s.entry := by
      refine (congrArg (List.map s.entry) hw).trans ?_
      rw [List.map_append, List.map_cons]
    have hback := h.inv.takeBack (x := s.protThread x) hreply hq hwaits rfl rfl hret
      ⟨hts, rfl, fun e => absurd e herror, fun e => absurd hret e⟩
    have hpool : Pool max [m] ({ s with
        waitMsg := xs ++ ys
        waitThread := s.waitThread.erase t
        suspendThread := s.suspendThread.erase t }.setThread t x) :=
      Pool.setThread ((h.pool.take hw).congr rfl rfl rfl rfl fun _ => rfl) rfl
    rw [setError, resume_send]
    · constructor
      · exact hpool.msgFree
      · refine Eq.mp (congrArg _ hpool.prot_msgFree.symm) ?_
        rw [prot_setThread]
        rw [← List.map_append] at hback
        exact hback
    · exact hpc

/-- The server gets on with an error. -/
theorem leaveRecv (hpc : (s.thread server).pc = .recv) (herror : error ≠ RT_EOK) :
    Good max server (({ s with stat := .idle }.setError server error).resume server) := by
  have hstat : s.stat = .wait := h.inv.shape.wait_iff.2 hpc
  obtain ⟨-, hret, -, -⟩ := h.inv.server_wait hstat
  let x : ChannelThread := { s.thread server with error := error, wakeup := none, timer := none, pc := .recvResumed }
  rw [setError, resume_recv]
  · constructor
    · exact Pool.setThread (h.pool.congr rfl rfl rfl rfl fun _ => rfl) rfl
    · rw [prot_setThread, h.waitThread_nil hstat]
      have hleave := h.inv.leave (x := s.protThread x) hstat rfl hret ⟨rfl, rfl, fun e => absurd e herror, fun e => absurd hret e⟩
      rw [show s.prot.waitThread = [] from h.waitThread_nil hstat] at hleave
      exact hleave
  · exact hpc

theorem threadWakeup (hpc : (s.thread t).pc = .send ∨ (s.thread t).pc = .recv) :
    ∃ s', s.threadWakeup t = some s' ∧ Good max server s' := by
  have hok := h.threadOk t
  have herror : -RT_EINTR ≠ RT_EOK := by decide
  rw [Channel.threadWakeup]
  rcases hpc with hpc | hpc
  · obtain ⟨-, -, -, -, hwakeup⟩ := hok.at hpc
    rcases hwakeup with hwakeup | hwakeup
    · rw [show (s.thread t).wakeup = some .senderWaitRecv from hwakeup]
      exact ⟨_, rfl, h.leaveSend hpc herror⟩
    · have hreply : s.reply = some t := h.inv.shape.waitReply t hpc hwakeup
      have hstat : s.stat = .active := h.inv.shape.active_iff.2 fun e => nomatch hreply.symm.trans e
      rw [show (s.thread t).wakeup = some .senderWaitReply from hwakeup]
      dsimp only
      rw [if_pos ⟨hstat, hreply⟩]
      exact ⟨_, rfl, h.giveUp hreply herror⟩
  · obtain ⟨rfl, -, -, -, hwakeup⟩ := hok.at hpc
    have hsuspend := h.suspend_wait (h.inv.shape.wait_iff.2 hpc)
    rw [show (s.thread t).wakeup = some .receiver from hwakeup]
    dsimp only
    split
    next hlist =>
      rw [hsuspend] at hlist
      cases hlist
    next recv rest hlist =>
      rw [hsuspend] at hlist
      obtain ⟨rfl, -⟩ := List.cons.inj hlist
      exact ⟨_, rfl, h.leaveRecv hpc herror⟩

theorem threadTimeout {timer : ChannelTimer} (ht : (s.thread t).timer = some timer) :
    Good max server (s.threadTimeout t timer) := by
  have hok := h.threadOk t
  have herror : -RT_ETIMEOUT ≠ RT_EOK := by decide
  have htimer : (s.protThread (s.thread t)).timer = some timer := ht
  cases hpc : (s.thread t).pc with
  | send =>
    cases timer with
    | sender => exact h.leaveSend hpc herror
    | receiver => exact absurd htimer (hok.at hpc).2.2.2.1
  | recv =>
    obtain ⟨rfl, -, -, hne, -⟩ := hok.at hpc
    cases timer with
    | sender => exact absurd htimer hne
    | receiver => exact h.leaveRecv hpc herror
  | user =>
    rw [(h.user hpc).2] at ht
    cases ht
  | sendResumed =>
    cases htimer.symm.trans (hok.at hpc).2.1
  | sendFree =>
    cases htimer.symm.trans (hok.at hpc).2.1
  | recvResumed =>
    cases htimer.symm.trans (hok.at hpc).2.1

end

end Good

end Channel

end RtThread.LwpIpc
