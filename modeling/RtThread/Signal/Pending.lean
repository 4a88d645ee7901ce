import RtThread.Signal.Masking

/-!
# Pending signals

The bit of a pending signal stands for one node in the queue, as long as no signal is queued that another sender has
queued since it was found not to be pending. The nodes themselves are never lost.
-/

namespace RtThread

/-- The signals of the bits of `sig_pending` are those in the queue, once each. -/
structure SigThread.Matched (th : SigThread) : Prop where
  one : (th.keys.map Prod.snd).Nodup
  pending : ∀ sig < 32, th.Pending sig ↔ sig ∈ th.keys.map Prod.snd

/-- A signal is taken off the queue of a thread, to be handled or by `rt_signal_wait`. -/
def SigAct.takes (tid : ThreadId) (sig : Nat) : SigAct → Bool
  | .handled t sig' _ => t = tid ∧ sig' = sig
  | .waited t si => t = tid ∧ si.siSigno = sig
  | _ => false

namespace Signals

variable {n : Nat} {s s0 s' : Signals} {x : Label} {ls : List Label} {t : ThreadId} {th th' : SigThread} {act : SigAct}
  {sig : Nat}

/-- A signal that `rt_thread_kill` queues is not pending then. -/
def Label.Fresh (x : Label) : Prop := ∀ t sig, x.act = .appended t sig → ¬(x.before.thread t).Pending sig

/-- A step keeps the queue and the bits of a thread matched. -/
theorem matched_of_effect (he : Effect t th th' act) (hm : th.Matched)
    (hf : ∀ sig, act = .appended t sig → sig < 32 ∧ ¬th.Pending sig) : th'.Matched := by
  cases he with
  | same _ hp hk =>
    constructor
    · rw [hk]
      exact hm.one
    · unfold SigThread.Pending
      rw [hp, hk]
      exact hm.pending
  | @appended b sig hp hk =>
    obtain ⟨hlt, hnot⟩ := hf sig rfl
    have hout : sig ∉ th.keys.map Prod.snd := fun h => hnot ((hm.pending sig hlt).2 h)
    constructor
    · rw [hk, List.map_append]
      refine List.nodup_append.2 ⟨hm.one, List.nodup_singleton sig, ?_⟩
      rintro a ha b hb rfl
      obtain rfl := List.mem_singleton.1 hb
      exact hout ha
    · intro sig' hlt'
      unfold SigThread.Pending
      rw [hp, or_sigMask hlt, hk, List.map_append, List.mem_append]
      exact or_congr (hm.pending sig' hlt') (by simp)
  | @handled b sig handler _ hk hp =>
    have hone := hm.one
    rw [hk, List.map_cons] at hone
    constructor
    · exact (List.nodup_cons.1 hone).2
    · intro sig' hlt'
      have h1 := hm.pending sig' hlt'
      rw [hk, List.map_cons, List.mem_cons] at h1
      unfold SigThread.Pending at h1 ⊢
      rw [hp, and_not_sigMask, h1]
      constructor
      · rintro ⟨h2, hne⟩
        exact h2.resolve_left hne
      · intro h2
        refine ⟨Or.inr h2, ?_⟩
        rintro rfl
        exact (List.nodup_cons.1 hone).1 h2
  | @waited b as bs si hk hk' hp =>
    have hperm : (th.keys.map Prod.snd).Perm (si.siSigno :: th'.keys.map Prod.snd) := by
      rw [hk, hk', List.map_append, List.map_append, List.map_cons]
      exact List.perm_middle
    have hone := List.nodup_cons.1 (hperm.nodup_iff.1 hm.one)
    constructor
    · exact hone.2
    · intro sig' hlt'
      have h1 := hm.pending sig' hlt'
      rw [hperm.mem_iff, List.mem_cons] at h1
      unfold SigThread.Pending at h1 ⊢
      rw [hp, and_not_sigMask, h1]
      constructor
      · rintro ⟨h2, hne⟩
        exact h2.resolve_left hne
      · intro h2
        refine ⟨Or.inr h2, ?_⟩
        rintro rfl
        exact hone.1 h2

theorem Start.matched (h : s.Start n) (t : ThreadId) : (s.thread t).Matched := by
  have hk : (s.thread t).keys = [] := by
    unfold SigThread.keys
    rw [h.list]
    rfl
  constructor
  · rw [hk]
    exact List.nodup_nil
  · intro sig _
    rw [hk]
    unfold SigThread.Pending
    rw [h.pending]
    simp

theorem matched_run (h0 : s0.Start n) (hr : Runs.Run Step s0 ls s) (hf : ∀ x ∈ ls, x.Fresh) (t : ThreadId) :
    (s.thread t).Matched := by
  induction hr with
  | nil => exact h0.matched t
  | snoc hr hs ih =>
    obtain ⟨rfl, rfl, hstep⟩ := hs
    refine matched_of_effect (step_effects hstep t) (ih fun y hy => hf y (List.mem_append_left _ hy)) ?_
    intro sig hact
    constructor
    · rw [hact] at hstep
      exact (h0.nodes.run hr).appended_lt hstep
    · exact hf _ (List.mem_append_right _ List.mem_cons_self) t sig hact

/-- What is queued is taken once, or still in the queue. -/
theorem counts_of_effect (he : Effect t th th' act) (sig : Nat) :
    (if act = .appended t sig then 1 else 0) + (th.keys.map Prod.snd).count sig =
      (if act.takes t sig then 1 else 0) + (th'.keys.map Prod.snd).count sig := by
  cases he with
  | same hon _ hk =>
    have h1 : act ≠ .appended t sig := by
      rintro rfl
      exact hon rfl
    have h2 : ¬act.takes t sig := by
      intro h
      cases act <;> simp_all [SigAct.takes, SigAct.on]
    rw [hk, if_neg h1, if_neg h2]
  | @appended b sig' _ hk =>
    rw [hk, List.map_append, List.count_append]
    by_cases e : sig' = sig
    · subst e
      simp [SigAct.takes, Nat.add_comm]
    · simp [SigAct.takes, e]
  | @handled b sig' handler _ hk =>
    rw [hk, List.map_cons, List.count_cons]
    by_cases e : sig' = sig
    · simp [SigAct.takes, Nat.add_comm]
    · simp [SigAct.takes, e]
  | @waited b as bs si hk hk' =>
    rw [hk, hk', List.map_append, List.map_append, List.map_cons, List.count_append, List.count_append, List.count_cons]
    by_cases e : si.siSigno = sig
    · simp [SigAct.takes]
      omega
    · simp [SigAct.takes, e]

/-- In every run, a signal is taken as often as it was queued, but for the nodes that are in the queue. -/
theorem counts_run (h0 : s0.Start n) (hr : Runs.Run Step s0 ls s) (t : ThreadId) (sig : Nat) :
    (ls.map Label.act).count (.appended t sig) =
      (ls.map Label.act).countP (SigAct.takes t sig) + ((s.thread t).keys.map Prod.snd).count sig := by
  induction hr with
  | nil =>
    unfold SigThread.keys
    rw [h0.list]
    rfl
  | @snoc ls x s s' hr hs ih =>
    obtain ⟨rfl, rfl, hstep⟩ := hs
    have h1 := counts_of_effect (step_effects hstep t) sig
    rw [List.map_append, List.count_append, List.countP_append, ih, List.map_singleton, List.count_singleton,
      List.countP_singleton]
    have h2 : (x.act == SigAct.appended t sig) = decide (x.act = .appended t sig) := rfl
    rw [h2]
    simp only [decide_eq_true_eq]
    omega

/-- Some call of `rt_thread_kill` for the thread is between its two sections. -/
def Halfway (s : Signals) (t : ThreadId) : Prop :=
  ∃ c, (∃ sig, .killAlloc t sig ∈ s.frames c) ∨ ∃ node, .killAppend t node ∈ s.frames c

/-- As long as no signal is queued that is pending already: the bit of a signal is set if and only if there is a node
for it, and then there is one; the nodes are all in one place; and a signal that was queued is taken once, or pending. -/
theorem pending_signals (h0 : s0.Start n) (hr : Runs.Run Step s0 ls s) (hf : ∀ x ∈ ls, x.Fresh) :
    (∀ t, ∀ sig < 32,
      ((s.thread t).Pending sig ↔ ∃ node ∈ (s.thread t).siList, node.si.siSigno = sig) ∧
      ((s.thread t).siList.filter fun node => node.si.siSigno = sig).length ≤ 1 ∧
      (ls.map Label.act).count (.appended t sig) =
        (ls.map Label.act).countP (SigAct.takes t sig) + if (s.thread t).Pending sig then 1 else 0) ∧
    Places.Placed n s.items := by
  refine ⟨fun t sig hlt => ?_, (h0.nodes.run hr).placed⟩
  have hm := matched_run h0 hr hf t
  have hsnd : (s.thread t).keys.map Prod.snd = (s.thread t).siList.map fun node => node.si.siSigno := by
    unfold SigThread.keys
    rw [List.map_map]
    rfl
  have hpend : (s.thread t).Pending sig ↔ ∃ node ∈ (s.thread t).siList, node.si.siSigno = sig := by
    rw [hm.pending sig hlt, hsnd, List.mem_map]
  refine ⟨hpend, ?_, ?_⟩
  · have h1 := List.nodup_iff_count_le_one.1 hm.one sig
    rw [hsnd, List.count, List.countP_map, List.countP_eq_length_filter] at h1
    exact h1
  · rw [counts_run h0 hr t sig]
    congr 1
    split_ifs with hp
    · exact List.count_eq_one_of_mem hm.one ((hm.pending sig hlt).1 hp)
    · exact List.count_eq_zero.2 fun h => hp ((hm.pending sig hlt).2 h)

/-- A thread and an interrupt handler send the same signal. -/
def twiceEvents : List SigEv :=
  [.kill (.thread 1) 0 5, .kill (.isr 0) 0 5, .cont (.isr 0) 1, .cont (.isr 0) 1, .cont (.isr 0) 1,
    .cont (.thread 1) 0, .cont (.thread 1) 0, .cont (.thread 1) 0]

/-- Both queue a node for it. -/
theorem signal_queued_twice :
    (quietStart 4).Start 4 ∧ ∃ ls s, Runs.Run Step (quietStart 4) ls s ∧ ¬s.Halfway 0 ∧
      ((s.thread 0).siList.filter fun node => node.si.siSigno = 5).length = 2 := by
  refine ⟨start_quietStart 4, _, quietAfter 4 twiceEvents, run_quiet _ _ (by decide), ?_, by decide⟩
  have hframes : ∀ c, (quietAfter 4 twiceEvents).frames c = [] := by
    intro c
    by_cases h1 : c = .thread 1
    · rw [h1]
      decide
    · by_cases h0 : c = .isr 0
      · rw [h0]
        decide
      · have hctx : ∀ ev ∈ twiceEvents, ev.context = some (.thread 1) ∨ ev.context = some (.isr 0) := by decide
        refine frames_quietAfter (by decide) fun ev hev he => ?_
        rcases hctx ev hev with hc | hc <;> rw [he] at hc
        · exact h1 (Option.some.inj hc)
        · exact h0 (Option.some.inj hc)
  rintro ⟨c, ⟨sig, hc⟩ | ⟨node, hc⟩⟩ <;> rw [hframes] at hc <;> cases hc

/-- One sender. -/
theorem pending_signals_once :
    ∃ ls s, Runs.Run Step (quietStart 4) ls s ∧ (s.thread 0).Pending 5 ∧
      ∃ node ∈ (s.thread 0).siList, node.si.siSigno = 5 := by
  have hr := run_quiet 4 [.kill (.isr 0) 0 5, .cont (.isr 0) 1, .cont (.isr 0) 1, .cont (.isr 0) 1]
    (by decide)
  have hall : (quietLabels 4 [.kill (.isr 0) 0 5, .cont (.isr 0) 1, .cont (.isr 0) 1, .cont (.isr 0) 1]).all fun x =>
      match x.act with
      | .appended t sig => !decide ((x.before.thread t).Pending sig)
      | _ => true := by
    decide
  have h := pending_signals (start_quietStart 4) hr fun x hx t sig hact => ?_
  · have hp : ((quietAfter 4 [.kill (.isr 0) 0 5, .cont (.isr 0) 1, .cont (.isr 0) 1, .cont (.isr 0) 1]).thread 0).Pending 5 := by
      decide
    exact ⟨_, _, hr, hp, ((h.1 0 5 (by decide)).1).1 hp⟩
  · have h1 := List.all_eq_true.1 hall x hx
    rw [hact] at h1
    simpa using h1

end Signals

end RtThread
