import RtThread.Signal.Masking

/-!
# What `rt_signal_wait` returns

The thread that waits decides by its `error` when it goes on, which `rt_signal_wait` does not set before it suspends the
thread, and it is resumed by every signal that it does not mask. Whether the answer is right depends on what came before:
on `error` when the thread was suspended or last resumed, and on the signals of the set that were queued then, or have been
since (`Timely`, `signal_wait`).
-/

namespace RtThread

variable {n : Nat} {s s0 s' : Signals} {x : Signals.Label} {ls : List Signals.Label} {t tid : ThreadId} {th th' : SigThread} {act : SigAct}
  {set : BitVec 32}

/-- A node of a signal of the set is queued. -/
def SigThread.holds (th : SigThread) (set : BitVec 32) : Bool := th.keys.any fun k => RtThread.sigMask k.2 &&& set ≠ 0

/-- A signal that is pending has a node. -/
def SigThread.Queued (th : SigThread) : Prop := ∀ sig, th.Pending sig → sig ∈ th.keys.map Prod.snd

namespace SigThread

theorem queued_of_effect (he : Effect t th th' act) (hq : th.Queued) (hlt : ∀ sig, act = .appended t sig → sig < 32) :
    th'.Queued := by
  cases he with
  | same _ hp hk =>
    intro sig hpend
    rw [hk]
    exact hq sig (by unfold SigThread.Pending at hpend ⊢; rwa [hp] at hpend)
  | @appended b sig' hp hk =>
    intro sig hpend
    unfold SigThread.Pending at hpend
    rw [hp, or_sigMask (hlt sig' rfl)] at hpend
    rw [hk, List.map_append, List.mem_append]
    rcases hpend with hpend | rfl
    · exact .inl (hq sig hpend)
    · exact .inr (by simp)
  | @handled b sig' handler _ hk hp =>
    intro sig hpend
    unfold SigThread.Pending at hpend
    rw [hp, and_not_sigMask] at hpend
    have hm := hq sig hpend.1
    rw [hk, List.map_cons, List.mem_cons] at hm
    exact hm.resolve_left hpend.2
  | @waited b as bs si hk hk' hp =>
    intro sig hpend
    unfold SigThread.Pending at hpend
    rw [hp, and_not_sigMask] at hpend
    have hm := hq sig hpend.1
    rw [hk, List.map_append, List.map_cons, List.mem_append, List.mem_cons] at hm
    rw [hk', List.map_append, List.mem_append]
    rcases hm with hm | hm | hm
    · exact .inl hm
    · exact absurd hm hpend.2
    · exact .inr hm

/-- The loop finds nothing if no signal of the set is queued. -/
theorem takeFirst_none {nodes : List SiginfoNode} :
    takeFirst set nodes = none ↔ ∀ node ∈ nodes, RtThread.sigMask node.si.siSigno &&& set = 0 := by
  induction nodes with
  | nil => exact ⟨fun _ => nofun, fun _ => rfl⟩
  | cons node nodes ih =>
    rw [takeFirst, List.forall_mem_cons]
    split
    next h => exact ⟨nofun, fun hall => absurd hall.1 h⟩
    next h => rw [Option.map_eq_none_iff, ih, and_iff_right (not_not.1 h)]

/-- What is pending can be taken. -/
theorem Queued.waitTake_isSome (hq : th.Queued) (h : th.sigPending &&& set ≠ 0) : (th.waitTake set).isSome := by
  obtain ⟨sig, hp, hs⟩ := exists_pending h
  have hm := hq sig hp
  unfold keys at hm
  rw [List.map_map] at hm
  obtain ⟨node, hnode, rfl⟩ := List.mem_map.1 hm
  by_contra hno
  rw [Option.not_isSome_iff_eq_none, waitTake, Option.map_eq_none_iff, takeFirst_none] at hno
  exact hs (hno node hnode)

end SigThread

namespace Signals

theorem queued_run (h0 : s0.Start n) (hr : Runs.Run Step s0 ls s) (t : ThreadId) : (s.thread t).Queued := by
  induction hr with
  | nil =>
    intro sig hp
    unfold SigThread.Pending at hp
    rw [h0.pending t] at hp
    simp at hp
  | snoc hr hs ih =>
    obtain ⟨rfl, rfl, hstep⟩ := hs
    refine SigThread.queued_of_effect (step_effects hstep t) ih fun sig hact => ?_
    rw [hact] at hstep
    exact (h0.nodes.run hr).appended_lt hstep

/-! ## The answer -/

/-- The section in which `rt_signal_wait` of a thread decides: the thread, and the set it waits for. -/
def Label.waiter (x : Label) : Option (ThreadId × BitVec 32) :=
  match x.ev with
  | .wait tid set _ => some (tid, set)
  | .cont (.thread tid) _ =>
    match x.before.frames (.thread tid) with
    | .wait set :: _ => some (tid, set)
    | _ => none
  | _ => none

/-- `RT_EOK` comes with a signal of the set, whose node is taken off the queue and whose bit is cleared, and nothing else;
`-RT_ETIMEOUT` says that no signal of the set is pending. -/
def Answer (set : BitVec 32) (th th' : SigThread) : SigAct → Prop
  | .waited _ si => sigMask si.siSigno &&& set ≠ 0 ∧
      (∃ b as bs, th.siList = as ++ ⟨b, si⟩ :: bs ∧ th'.siList = as ++ bs) ∧
      th'.sigPending = th.sigPending &&& ~~~sigMask si.siSigno
  | .returned .eok => False
  | .returned .etimeout => th.sigPending &&& set = 0
  | _ => True

def Label.Answered (x : Label) : Prop :=
  ∀ tid set, x.waiter = some (tid, set) → set ≠ 0 → Answer set (x.before.thread tid) (x.after.thread tid) x.act

/-- The end of `rt_signal_wait`. -/
theorem waitDone_answer (h : s.waitDone tid set = (s', act)) :
    Answer set (s.thread tid) (s'.thread tid) act ↔ ((s.thread tid).waitTake set).isSome := by
  unfold waitDone at h
  split at h
  next hn =>
    cases h
    rw [hn]
    exact iff_of_false id nofun
  next node th' hn =>
    cases h
    rw [hn]
    refine iff_of_true ?_ rfl
    obtain ⟨x, hx, he⟩ := Option.map_eq_some_iff.1 hn
    cases he
    obtain ⟨as, bs, hl, hr, hmask⟩ := SigThread.takeFirst_eq hx
    refine ⟨hmask, ⟨x.1.block, as, bs, hl, ?_⟩, ?_⟩
    · rw [freeNode_thread, setThread_thread_self]
      exact hr
    · rw [freeNode_thread, setThread_thread_self]

theorem waitTake_isSome_iff : (th.waitTake set).isSome ↔ th.holds set := by
  rw [← not_iff_not, Bool.not_eq_true, Option.isSome_eq_false_iff, Option.isNone_iff_eq_none, SigThread.waitTake,
    Option.map_eq_none_iff, SigThread.takeFirst_none]
  unfold SigThread.holds SigThread.keys
  rw [List.any_map, Bool.not_eq_true, List.any_eq_false]
  exact forall₂_congr fun _ _ => not_not.symm.trans (not_congr decide_eq_true_iff.symm)

/-- A call that does not suspend the thread answers as it should. -/
theorem rtSignalWait_answer {timeout : Int} (hq : (s.thread tid).Queued) (h0 : set ≠ 0)
    (h : s.rtSignalWait tid set timeout = (s', act)) : Answer set (s.thread tid) (s'.thread tid) act := by
  unfold rtSignalWait at h
  rw [if_neg h0] at h
  split_ifs at h with hp ht
  · exact (waitDone_answer h).2 (hq.waitTake_isSome hp)
  · cases h
    exact not_not.1 hp
  · cases h
    exact trivial

/-- The thread goes on. -/
theorem cont_answer {interrupted : ThreadId} {fs : List SigFrame} (hfs : s.frames (.thread tid) = .wait set :: fs)
    (h : s.cont (.thread tid) interrupted = some (s', act)) :
    Answer set (s.thread tid) (s'.thread tid) act ↔
      if (s.thread tid).error = .etimeout then (s.thread tid).sigPending &&& set = 0 else (s.thread tid).holds set := by
  unfold cont at h
  rw [hfs] at h
  dsimp only at h
  split
  next he =>
    rw [if_pos he] at h
    cases h
    exact Iff.rfl
  next he =>
    rw [if_neg he] at h
    have h1 := waitDone_answer (Option.some.inj h)
    rw [setThread_thread_self, waitTake_isSome_iff] at h1
    exact h1

/-! ## What a thread has met while it waited -/

/-- What `rt_signal_wait` reads of a thread when it goes on, but for the signals. -/
def Kept (th th' : SigThread) : Prop := th'.error = th.error ∧ th'.statSignalWait = th.statSignalWait

theorem Kept.trans {th th' th'' : SigThread} (h' : Kept th' th'') (h : Kept th th') : Kept th th'' :=
  ⟨h'.1.trans h.1, h'.2.trans h.2⟩

theorem kept_setThread {th : SigThread} (h : t = tid → Kept (s.thread tid) th) :
    Kept (s.thread t) ((s.setThread tid th).thread t) := by
  by_cases e : t = tid
  · subst e
    rw [setThread_thread_self]
    exact h rfl
  · rw [setThread_thread_of_ne e]
    exact ⟨rfl, rfl⟩

theorem handleLoop_kept (h : s.handleLoop tid clean = some (s', act)) : Kept (s.thread t) (s'.thread t) := by
  unfold handleLoop at h
  split at h
  · cases h
    exact kept_setThread fun _ => ⟨rfl, rfl⟩
  · rename_i node th' hturn
    split at h
    · cases h
    · cases h
      refine kept_setThread fun _ => ?_
      unfold SigThread.handleTurn at hturn
      split_ifs at hturn
      split at hturn
      · cases hturn
      · cases hturn
        exact ⟨rfl, rfl⟩

theorem rtThreadHandleSig_kept (h : s.rtThreadHandleSig tid clean = some (s', act)) : Kept (s.thread t) (s'.thread t) := by
  unfold rtThreadHandleSig at h
  dsimp only at h
  split_ifs at h
  · exact handleLoop_kept h
  all_goals
    cases h
    first | exact ⟨rfl, rfl⟩ | exact kept_setThread fun _ => ⟨rfl, rfl⟩

theorem waitDone_kept (h : s.waitDone tid set = (s', act)) : Kept (s.thread t) (s'.thread t) := by
  unfold waitDone at h
  split at h
  · cases h
    exact ⟨rfl, rfl⟩
  next hn =>
    cases h
    obtain ⟨x, -, he⟩ := Option.map_eq_some_iff.1 hn
    cases he
    exact kept_setThread fun _ => ⟨rfl, rfl⟩

theorem signalDeliver_kept {self : ThreadId} (h : s.signalDeliver c self tid = some (s', act)) :
    Kept (s.thread t) (s'.thread t) := by
  unfold signalDeliver at h
  dsimp only at h
  split_ifs at h
  · cases h
    exact ⟨rfl, rfl⟩
  · cases h
    exact kept_setThread fun _ => ⟨rfl, rfl⟩
  · have hk : Kept (s.thread t) ((s.setThread tid { s.thread tid with statSignal := true }).thread t) :=
      kept_setThread fun _ => ⟨rfl, rfl⟩
    cases c with
    | thread u => exact (rtThreadHandleSig_kept h).trans hk
    | isr i =>
      cases h
      exact hk
  · cases h
    exact kept_setThread fun _ => ⟨rfl, rfl⟩
  · cases h
    exact ⟨rfl, rfl⟩

/-- Only the thread itself, when it goes on, and who resumes it change them. -/
theorem step_kept (h : s.step ev = some (s', act)) (hc : ∀ i, ev ≠ .cont (.thread t) i)
    (hw : ∀ set timeout, ev ≠ .wait t set timeout) (hr : ∀ err, ev ≠ .resume t err) :
    Kept (s.thread t) (s'.thread t) := by
  cases ev with
  | install tid signo handler =>
    simp only [step] at h
    split_ifs at h
    all_goals cases h
    · exact kept_setThread fun _ => ⟨rfl, rfl⟩
    · exact ⟨rfl, rfl⟩
  | mask tid signo =>
    simp only [step] at h
    split_ifs at h
    cases h
    exact kept_setThread fun _ => ⟨rfl, rfl⟩
  | unmask tid signo =>
    simp only [step] at h
    split_ifs at h
    all_goals
      cases h
      exact kept_setThread fun _ => ⟨rfl, rfl⟩
  | kill c tid sig =>
    simp only [step, rtThreadKill] at h
    split_ifs at h
    · cases h
      exact ⟨rfl, rfl⟩
    · split at h
      next th hth =>
        cases h
        unfold SigThread.killTest at hth
        split_ifs at hth
        obtain ⟨nodes, -, rfl⟩ := Option.map_eq_some_iff.1 hth
        exact kept_setThread fun _ => ⟨rfl, rfl⟩
      next =>
        cases h
        exact ⟨rfl, rfl⟩
  | wait tid set timeout =>
    have hne : t ≠ tid := fun e => hw set timeout (by rw [e])
    simp only [step, rtSignalWait] at h
    split_ifs at h
    · cases h
      exact ⟨rfl, rfl⟩
    · exact waitDone_kept (Option.some.inj h)
    · cases h
      exact ⟨rfl, rfl⟩
    · cases h
      exact kept_setThread fun e => absurd e hne
  | handle tid clean =>
    simp only [step] at h
    split_ifs at h
    exact (rtThreadHandleSig_kept h).trans (kept_setThread fun _ => ⟨rfl, rfl⟩)
  | cont c i =>
    simp only [step] at h
    split_ifs at h
    unfold cont at h
    split at h
    · cases h
    · split at h
      all_goals
        cases h
        exact ⟨rfl, rfl⟩
    · cases h
      exact kept_setThread fun _ => ⟨rfl, rfl⟩
    · exact signalDeliver_kept (s := s.setFrames c _) h
    · split at h
      · cases h
      · exact (handleLoop_kept h).trans (kept_setThread fun e => (hc i (by rw [e])).elim)
    · split at h
      · cases h
      · dsimp only at h
        split_ifs at h
        · cases h
          exact kept_setThread fun e => (hc i (by rw [e])).elim
        · exact (waitDone_kept (Option.some.inj h)).trans (kept_setThread fun e => (hc i (by rw [e])).elim)
  | suspend tid =>
    cases h
    exact kept_setThread fun _ => ⟨rfl, rfl⟩
  | resume tid error =>
    cases h
    exact kept_setThread fun e => (hr error (by rw [e])).elim

/-- A thread that waits: the set, its `error` when `rt_signal_wait` suspended it, or what the last one who resumed it has set it
to, whether a node of the set was queued then whose bit is clear, and whether one has been queued since. -/
structure Await where
  set : BitVec 32
  error : SigError
  left : Bool
  sent : Bool

/-- A signal is queued. -/
def Await.send (w : Await) (sig : Nat) : Await := { w with sent := w.sent || sigMask sig &&& w.set ≠ 0 }

/-- What a step adds to the history of the thread `t`; when it goes on, it waits no longer. -/
def Label.await (t : ThreadId) (o : Option Await) (x : Label) : Option Await :=
  match x.ev, x.act with
  | .wait t' set _, .quiet => if t' = t then some ⟨set, (x.before.thread t).error, (x.before.thread t).holds set, false⟩ else o
  | .resume t' err, .quiet => if t' = t then o.map fun w => { w with error := err } else o
  | _, .appended t' sig => if t' = t then o.map fun w => w.send sig else o
  | .cont c _, _ => if c = .thread t then none else o
  | _, _ => o

/-- The thread waits, for what the labels of a run say. -/
def awaited (t : ThreadId) (ls : List Label) : Option Await := ls.foldl (Label.await t) none

/-- When a thread goes on in `rt_signal_wait` after `ls`: if its `error` at its suspension, or the last one with which it was
resumed since, is `-RT_ETIMEOUT`, no signal of the set has been queued since; otherwise one has, or was queued then. -/
def Label.Timely (ls : List Label) (x : Label) : Prop :=
  ∀ t i w, x.ev = .cont (.thread t) i → awaited t ls = some w →
    if w.error = .etimeout then w.sent = false else (w.left || w.sent) = true

/-- The state of a thread is that of its history. -/
def Tracks (s : Signals) (t : ThreadId) : Option Await → Prop
  | none => ∀ f ∈ s.frames (.thread t), isWait f = false
  | some w => w.set ≠ 0 ∧ (∃ fs, s.frames (.thread t) = .wait w.set :: fs ∧ ∀ f ∈ fs, isWait f = false) ∧
      (s.thread t).statSignalWait = true ∧ (s.thread t).error = w.error ∧
      (w.sent = true ↔ (s.thread t).sigPending &&& w.set ≠ 0) ∧ (s.thread t).holds w.set = (w.left || w.sent)

theorem await_none (hw : ∀ set timeout, x.ev ≠ .wait t set timeout) : x.await t none = none := by
  unfold Label.await
  split
  next hev _ => exact if_neg fun e => hw _ _ (by rw [hev, e])
  all_goals first | rfl | exact ite_self none

/-- Of the steps that leave a thread in `rt_signal_wait`, one that queues a signal counts. -/
theorem await_other {w : Await} {ev : SigEv} (hc : ∀ i, ev ≠ .cont (.thread t) i)
    (hw : ∀ set timeout, ev ≠ .wait t set timeout) (hr : ∀ err, ev ≠ .resume t err) (ha : act.on ≠ some t) :
    Label.await t (some w) ⟨s, ev, act, s'⟩ = some w := by
  unfold Label.await
  dsimp only
  split
  next => exact if_neg fun e => hw _ _ (by rw [e])
  next => exact if_neg fun e => hr _ (by rw [e])
  next => exact if_neg fun e => ha (by rw [e]; rfl)
  next => exact if_neg fun e => hc _ (by rw [e])
  next => rfl

theorem await_appended {w : Await} {ev : SigEv} {sig : Nat} :
    Label.await t (some w) ⟨s, ev, .appended t sig, s'⟩ = some (w.send sig) := by
  cases ev <;> exact if_pos rfl

/-- A thread that does not wait. -/
theorem tracks_step_none (h : s.Tracks t none) (hs : s.Step x s') : s'.Tracks t (x.await t none) := by
  obtain ⟨rfl, rfl, hstep⟩ := hs
  by_cases hq : ∃ set timeout, x.ev = .wait t set timeout
  · obtain ⟨set, timeout, hev⟩ := hq
    obtain ⟨before, ev, act, after⟩ := x
    obtain rfl : ev = .wait t set timeout := hev
    simp only [step, rtSignalWait] at hstep
    split_ifs at hstep with _ h0 hp
    · cases hstep
      exact h
    · unfold waitDone at hstep
      split at hstep
      all_goals
        cases hstep
        exact h
    · cases hstep
      exact h
    · cases hstep
      simp only [Label.await, ↓reduceIte]
      refine ⟨h0, ⟨_, setFrames_frames_self, h⟩, ?_⟩
      rw [setFrames_thread, setThread_thread_self]
      exact ⟨rfl, rfl, iff_of_false Bool.false_ne_true hp, (Bool.or_false _).symm⟩
  · rw [await_none fun set timeout e => hq ⟨set, timeout, e⟩]
    intro f hf
    by_contra hw
    exact hw (h f ((step_framed hstep).waits t hq f hf (by simpa using hw)))

theorem not_mayCall {set : BitVec 32} {fs : List SigFrame} (hfs : s.frames (.thread t) = .wait set :: fs) :
    ¬s.mayCall (.thread t) = true := by simp [mayCall, hfs]

/-- While a thread waits, its frames stay, and no signal is taken from it. -/
theorem waits_step {set : BitVec 32} {fs : List SigFrame} {ev : SigEv} (hfs : s.frames (.thread t) = .wait set :: fs)
    (hw : (s.thread t).statSignalWait = true) (hc : ∀ i, ev ≠ .cont (.thread t) i) (h : s.step ev = some (s', act)) :
    s'.frames (.thread t) = s.frames (.thread t) ∧ (act.on = some t → ∃ sig, act = .appended t sig) := by
  by_cases hctx : ev.context = some (.thread t)
  · cases ev with
    | cont c i => exact absurd (by rw [Option.some.inj hctx]) (hc i)
    | handle tid clean =>
      obtain rfl := Context.thread.inj (Option.some.inj hctx)
      simp only [step, rtThreadHandleSig, setThread_thread_self, hw] at h
      simp only [Bool.not_true, Bool.false_eq_true, ↓reduceIte] at h
      split_ifs at h
      all_goals
        cases h
        exact ⟨rfl, fun ht => by cases ht⟩
    | suspend | resume => cases hctx
    | _ =>
      cases hctx
      simp only [step, if_neg (not_mayCall hfs)] at h
      cases h
  · have hf := step_framed h
    exact ⟨hf.others _ hctx, fun ht => (hf.own t ht).resolve_right hctx⟩

/-- A thread that waits, until it goes on. -/
theorem tracks_step_some {w : Await} (hn : s.Nodes n) (h : s.Tracks t (some w)) (hs : s.Step x s') :
    s'.Tracks t (x.await t (some w)) := by
  obtain ⟨before, ev, act, after⟩ := x
  obtain ⟨hb, ha, hstep⟩ := hs
  dsimp only at hb ha hstep
  subst hb ha
  obtain ⟨h0, ⟨fs, hfs, hrest⟩, hwait, herr, hsent, hold⟩ := h
  by_cases hc : ∃ i, ev = .cont (.thread t) i
  · obtain ⟨i, rfl⟩ := hc
    simp only [step] at hstep
    split_ifs at hstep
    unfold cont at hstep
    rw [hfs] at hstep
    dsimp only at hstep
    split_ifs at hstep
    · cases hstep
      simp only [Label.await, ↓reduceIte]
      exact fun f hf => hrest f (by simpa using hf)
    · unfold waitDone at hstep
      split at hstep
      all_goals
        cases hstep
        simp only [Label.await, ↓reduceIte]
        exact fun f hf => hrest f (by simpa using hf)
  · push Not at hc
    obtain ⟨hframes, hon⟩ := waits_step hfs hwait hc hstep
    by_cases hr : ∃ err, ev = .resume t err
    · obtain ⟨err, rfl⟩ := hr
      cases hstep
      simp only [Label.await, ↓reduceIte, Option.map_some]
      refine ⟨h0, ⟨fs, hfs, hrest⟩, ?_⟩
      rw [setThread_thread_self]
      exact ⟨hwait, rfl, hsent, hold⟩
    · push Not at hr
      have hnowait : ∀ set timeout, ev ≠ .wait t set timeout := by
        rintro set timeout rfl
        simp only [step, if_neg (not_mayCall hfs)] at hstep
        cases hstep
      obtain ⟨herr', hwait'⟩ := step_kept hstep hc hnowait hr
      have hframes' : after.frames (.thread t) = .wait w.set :: fs := hframes.trans hfs
      have he := step_effects hstep t
      cases he with
      | same hno hp hk =>
        rw [await_other hc hnowait hr hno]
        refine ⟨h0, ⟨fs, hframes', hrest⟩, hwait'.trans hwait, herr'.trans herr, by rw [hp]; exact hsent, ?_⟩
        unfold SigThread.holds
        rw [hk]
        exact hold
      | @appended b sig hp hk hm =>
        rw [await_appended]
        refine ⟨h0, ⟨fs, hframes', hrest⟩, hwait'.trans hwait, herr'.trans herr, ?_, ?_⟩
        · rw [hp, BitVec.and_or_distrib_right]
          refine Iff.trans ?_ (BitVec.or_eq_zero_iff.trans Iff.rfl).not.symm
          rw [not_and_or]
          simp [Await.send, hsent]
        · change (after.thread t).holds w.set = (w.left || (w.sent || _))
          unfold SigThread.holds at hold ⊢
          rw [hk, List.any_append, hold, List.any_cons, List.any_nil, Bool.or_false, Bool.or_assoc]
      | handled | waited =>
        obtain ⟨sig, hsig⟩ := hon rfl
        cases hsig

theorem tracks_run (h0 : s0.Start n) (hr : Runs.Run Step s0 ls s) (t : ThreadId) : s.Tracks t (awaited t ls) := by
  induction hr with
  | nil =>
    intro f hf
    rw [h0.frames] at hf
    cases hf
  | @snoc ls x s s' hr hs ih =>
    unfold awaited at ih ⊢
    rw [List.foldl_append]
    cases ho : List.foldl (Label.await t) none ls with
    | none =>
      rw [ho] at ih
      exact tracks_step_none ih hs
    | some w =>
      rw [ho] at ih
      exact tracks_step_some (h0.nodes.run hr) ih hs

theorem step_answered_iff (hq : ∀ t, (s.thread t).Queued) (ht : ∀ t, s.Tracks t (awaited t ls)) (hs : s.Step x s') :
    x.Answered ↔ x.Timely ls := by
  obtain ⟨rfl, rfl, hstep⟩ := hs
  have key {t i : ThreadId} {w : Await} (hev : x.ev = .cont (.thread t) i) (hw : awaited t ls = some w) :
      Answer w.set (x.before.thread t) (x.after.thread t) x.act ↔
        if w.error = .etimeout then w.sent = false else (w.left || w.sent) = true := by
    have h := ht t
    rw [hw] at h
    obtain ⟨-, ⟨fs, hfs, -⟩, -, herr, hsent, hold⟩ := h
    rw [hev] at hstep
    simp only [Signals.step] at hstep
    split_ifs at hstep
    have hclear : (x.before.thread t).sigPending &&& w.set = 0 ↔ w.sent = false := by
      rw [← Bool.not_eq_true, hsent, not_not]
    rw [cont_answer hfs hstep, herr, hold, hclear]
  constructor
  · intro h t i w hev hw
    have h0 := ht t
    rw [hw] at h0
    obtain ⟨h0, ⟨fs, hfs, -⟩, -⟩ := h0
    refine (key hev hw).1 (h t w.set ?_ h0)
    unfold Label.waiter
    rw [hev]
    simp only [hfs]
  · intro h tid set hw h0
    unfold Label.waiter at hw
    split at hw
    next hev =>
      cases hw
      rw [hev] at hstep
      simp only [Signals.step] at hstep
      split_ifs at hstep
      exact rtSignalWait_answer (hq _) h0 (Option.some.inj hstep)
    next hev =>
      split at hw
      next hfs =>
        cases hw
        have h1 := ht tid
        cases ho : awaited tid ls with
        | none =>
          rw [ho] at h1
          have h2 := h1 (.wait set) (by rw [hfs]; exact List.mem_cons_self)
          cases h2
        | some w =>
          rw [ho] at h1
          obtain ⟨-, ⟨fs, hfs', -⟩, -⟩ := h1
          rw [hfs, List.cons.injEq, SigFrame.wait.injEq] at hfs'
          rw [hfs'.1]
          exact (key hev ho).2 (h _ _ w hev ho)
      next => cases hw
    next => cases hw

/-- In every run, with whatever history of a thread: `rt_signal_wait` answers as it should in every call, if and only if,
whenever a thread goes on in it, what it has met since it was suspended is timely. -/
theorem signal_wait (h0 : s0.Start n) (hr : Runs.Run Step s0 ls s) :
    (∀ x ∈ ls, x.Answered) ↔ ∀ ls1 x, ls1 ++ [x] <+: ls → x.Timely ls1 := by
  induction hr with
  | nil => exact iff_of_true nofun fun ls1 x h => by simp at h
  | @snoc ls x s s' hr hs ih =>
    have hx := step_answered_iff (queued_run h0 hr) (tracks_run h0 hr) hs
    rw [List.forall_mem_append, ih, List.forall_mem_singleton, hx]
    constructor
    · rintro ⟨hls, hlast⟩ ls1 y hy
      rcases List.prefix_concat_iff.1 hy with e | hy
      · obtain ⟨rfl, hyx⟩ := List.append_inj' e rfl
        rwa [List.singleton_inj.1 hyx]
      · exact hls ls1 y hy
    · intro h
      exact ⟨fun ls1 y hy => h ls1 y (hy.trans (List.prefix_append ls [x])), h ls x (List.prefix_refl _)⟩

/-- A call of some IPC function has timed out; then the thread unmasks the signal 5, waits for it, and gets it. -/
def staleEvents : List SigEv :=
  [.suspend 0, .resume 0 .etimeout, .unmask 0 5, .wait 0 (sigMask 5) (-1), .kill (.isr 0) 0 5, .cont (.isr 0) 1,
    .cont (.isr 0) 1, .cont (.isr 0) 1, .cont (.thread 0) 0]

/-- It returns `-RT_ETIMEOUT`, and the signal stays pending. -/
theorem signal_wait_stale :
    (quietStart 4).Start 4 ∧ ∃ ls s, Runs.Run Step (quietStart 4) ls s ∧ ¬∀ x ∈ ls, x.Answered := by
  have hany : (quietLabels 4 staleEvents).any fun x =>
      decide (x.waiter = some (0, sigMask 5) ∧ x.act = .returned .etimeout ∧ (x.before.thread 0).sigPending &&& sigMask 5 ≠ 0) := by
    decide
  refine ⟨start_quietStart 4, _, _, run_quiet 4 staleEvents (by decide), fun h => ?_⟩
  obtain ⟨x, hx, hdec⟩ := List.any_eq_true.1 hany
  obtain ⟨hw, hact, hp⟩ := of_decide_eq_true hdec
  have := h x hx 0 (sigMask 5) hw (by decide)
  rw [hact] at this
  exact hp this

/-- The equivalence, for this run. -/
theorem signal_wait_run : ∃ ls s, Runs.Run Step (quietStart 4) ls s ∧ ((∀ x ∈ ls, x.Answered) ↔ ∀ ls1 x, ls1 ++ [x] <+: ls → x.Timely ls1) := by
  have hr := run_quiet 4 staleEvents (by decide)
  exact ⟨_, _, hr, signal_wait (start_quietStart 4) hr⟩

end Signals

end RtThread
