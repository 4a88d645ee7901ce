import RtThread.Signal.Nodes

/-!
# Masked signals

`rt_thread_handle_sig` goes on while an unmasked signal is pending, but takes the first node of the queue. It handles
unmasked signals only, and leaves the masked ones alone, if every unmasked signal that is pending when it is entered has a
node in front of the masked ones, and what is sent, masked and unmasked while it runs leaves that so.
-/

namespace RtThread

namespace SigThread

/-- Every unmasked signal that is pending has a node in front of the first node of a masked one. -/
def Front (th : SigThread) : Prop :=
  ∀ sig < 32, th.Pending sig → th.Unmasked sig → sig ∈ (th.keys.map Prod.snd).takeWhile fun sig => th.Unmasked sig

instance (th : SigThread) : Decidable th.Front := inferInstanceAs (Decidable (∀ sig < 32, _ → _ → _ ∈ _))

variable {th th' : SigThread} {set : BitVec 32} {b sig : Nat} {ks : List (Nat × Nat)}

theorem unmasked_congr (hm : th'.sigMask = th.sigMask) (sig : Nat) : th'.Unmasked sig ↔ th.Unmasked sig := by
  unfold Unmasked
  rw [hm]

theorem Front.congr (h : th.Front) (hp : th'.sigPending = th.sigPending) (hm : th'.sigMask = th.sigMask)
    (hk : th'.keys = th.keys) : th'.Front := by
  unfold Front Pending
  simp only [unmasked_congr hm, hp, hk]
  exact h

/-- The first node is one of an unmasked signal, if an unmasked signal is pending. -/
theorem Front.head (h : th.Front) (hi : th.interested = true) (hk : th.keys = (b, sig) :: ks) : th.Unmasked sig := by
  obtain ⟨sig', hp, hu⟩ := exists_pending (of_decide_eq_true hi)
  have hmem := h sig' (and_sigMask_ne_zero.1 hp).1 hp (by rwa [Unmasked, BitVec.and_comm])
  by_contra hno
  rw [hk, List.map_cons, List.takeWhile_cons_of_neg (by simpa using hno)] at hmem
  cases hmem

/-- What is left when the first node has been taken. -/
theorem Front.turn (h : th.Front) (hi : th.interested = true) (hk : th.keys = (b, sig) :: th'.keys)
    (hp : th'.sigPending = th.sigPending &&& ~~~RtThread.sigMask sig) (hm : th'.sigMask = th.sigMask) : th'.Front := by
  intro sig' hlt hpend hun
  unfold Pending at hpend
  rw [hp, and_not_sigMask] at hpend
  simp only [unmasked_congr hm] at hun ⊢
  have hmem := h sig' hlt hpend.1 hun
  rw [hk, List.map_cons, List.takeWhile_cons_of_pos (by simpa using h.head hi hk)] at hmem
  exact (List.mem_cons.1 hmem).resolve_left hpend.2

end SigThread

namespace Signals

/-- A step of the system, with the states before and after it. -/
structure Label where
  before : Signals
  ev : SigEv
  act : SigAct
  after : Signals

def Step (s : Signals) (x : Label) (s' : Signals) : Prop := x.before = s ∧ x.after = s' ∧ s.step x.ev = some (s', x.act)

/-- No signal has been sent, and none is being sent. -/
structure Start (n : Nat) (s : Signals) : Prop where
  pending : ∀ t, (s.thread t).sigPending = 0
  list : ∀ t, (s.thread t).siList = []
  free : s.free.Perm (List.range n)
  frames : ∀ c, s.frames c = []

variable {n : Nat} {s s0 s' : Signals} {x : Label} {ls : List Label} {t : ThreadId}

theorem Start.nodes (h : s.Start n) : s.Nodes n := by
  constructor
  · refine .single (p := .pool) h.free fun q hq => ?_
    cases q with
    | pool => exact absurd rfl hq
    | queue u =>
      rw [items_queue]
      unfold SigThread.keys
      rw [h.list]
      rfl
    | hand c =>
      rw [items_hand, h.frames]
      rfl
  · intro c f hf
    rw [h.frames] at hf
    cases hf

theorem Nodes.run (h0 : s0.Nodes n) (hr : Runs.Run Step s0 ls s) : s.Nodes n :=
  hr.invariant h0 fun _ _ _ h hs => h.step hs.2.2

/-- A masked signal that is pending stays pending, and its nodes stay queued. -/
def KeepsMasked (th th' : SigThread) : Prop :=
  ∀ sig, ¬th.Unmasked sig → (th.Pending sig → th'.Pending sig) ∧ ∀ b, (b, sig) ∈ th.keys → (b, sig) ∈ th'.keys

/-- A step invokes handlers of unmasked signals only, and keeps the masked ones. -/
def Label.Masked (x : Label) : Prop :=
  (∀ t sig handler, x.act = .handled t sig handler → handler ≠ .null → (x.before.thread t).Unmasked sig) ∧
    ∀ t, KeepsMasked (x.before.thread t) (x.after.thread t)

/-- The frame of `rt_thread_handle_sig` in a handler. -/
def isHandler : SigFrame → Bool
  | .handler _ _ => true
  | _ => false

/-- The frame of `rt_signal_wait`. -/
def isWait : SigFrame → Bool
  | .wait _ => true
  | _ => false

/-- The thread is inside `rt_thread_handle_sig`. -/
def Handling (s : Signals) (t : ThreadId) : Prop := ∃ f ∈ s.frames (.thread t), isHandler f

instance : Decidable (s.Handling t) := inferInstanceAs (Decidable (∃ f ∈ _, _))

/-- The event enters `rt_thread_handle_sig`, by itself or through `_signal_deliver`. -/
def Enters (s : Signals) (t : ThreadId) : SigEv → Bool
  | .handle t' _ => t' = t
  | .cont c _ => c = .thread t ∧ (s.frames (.thread t)).head? = some (.deliver t)
  | _ => false

theorem enters_context {ev : SigEv} (h : s.Enters t ev) : ev.context = some (.thread t) := by
  cases ev with
  | handle t' clean => rw [of_decide_eq_true h]; rfl
  | cont c i => exact congrArg some (of_decide_eq_true h).1
  | _ => cases h

/-- `rt_thread_handle_sig` is entered with the unmasked signals in front, and a step that queues a signal or changes the
mask while it runs leaves them there. -/
def Label.Ordered (x : Label) : Prop :=
  ∀ t, (x.before.Enters t x.ev → (x.before.thread t).Front) ∧
    (x.after.Handling t → ((∃ sig, x.act = .appended t sig) ∨ (x.after.thread t).sigMask ≠ (x.before.thread t).sigMask) →
      (x.after.thread t).Front)

/-- What a step does to a thread keeps the masked signals, if it takes no masked one off. -/
theorem keepsMasked_of_effect {th th' : SigThread} {act : SigAct} (he : Effect t th th' act)
    (hw : ∀ si, act ≠ .waited t si) (hh : ∀ sig handler, act = .handled t sig handler → th.Unmasked sig) :
    KeepsMasked th th' := by
  intro sig hmask
  cases he with
  | same _ hp hk =>
    unfold SigThread.Pending
    rw [hp, hk]
    exact ⟨id, fun _ => id⟩
  | @appended b sig' hp hk =>
    refine ⟨fun hpend => ?_, fun b' hb' => by rw [hk]; exact List.mem_append_left _ hb'⟩
    unfold SigThread.Pending at hpend ⊢
    rw [and_sigMask_ne_zero] at hpend ⊢
    rw [hp, BitVec.getLsbD_or, hpend.2]
    exact ⟨hpend.1, rfl⟩
  | @handled b sig' handler hi hk hp =>
    have hne : sig ≠ sig' := by
      rintro rfl
      exact hmask (hh _ _ rfl)
    refine ⟨fun hpend => ?_, fun b' hb' => ?_⟩
    · unfold SigThread.Pending at hpend ⊢
      rw [hp, and_not_sigMask]
      exact ⟨hpend, hne⟩
    · rw [hk] at hb'
      rcases List.mem_cons.1 hb' with e | hb'
      · exact absurd (Prod.mk.inj e).2 hne
      · exact hb'
  | waited => exact absurd rfl (hw _)

section Frames

variable {s1 : Signals} {c d : Context} {tid : ThreadId} {act : SigAct} {clean : Bool} {ev : SigEv} {gs fs : List SigFrame}
  {f : SigFrame} {o : Option Context} {P P' Q : ThreadId → Prop}

/-- A step of the context `c` leaves the frames of the others alone, and their signals, but for one that it queues. A thread
that is inside `rt_thread_handle_sig` after it, or has a signal handled, was there before or is one of `P`; one that is inside
`rt_signal_wait` was there before or is one of `Q`. -/
structure Framed (s s' : Signals) (act : SigAct) (c : Option Context) (P Q : ThreadId → Prop) : Prop where
  others : ∀ d, c ≠ some d → s'.frames d = s.frames d
  own : ∀ t, act.on = some t → (∃ sig, act = .appended t sig) ∨ c = some (.thread t)
  handling : ∀ t, s'.Handling t ∨ (∃ sig handler, act = .handled t sig handler) → s.Handling t ∨ P t
  waits : ∀ t, ¬Q t → ∀ f ∈ s'.frames (.thread t), isWait f → f ∈ s.frames (.thread t)

theorem Framed.mono (h : Framed s1 s' act o P Q) (hfr : s1.frames = s.frames) (hp : ∀ t, P t → s.Handling t ∨ P' t) :
    Framed s s' act o P' Q := by
  have hh {t : ThreadId} (hs : s1.Handling t) : s.Handling t := by
    unfold Handling at hs ⊢
    rwa [hfr] at hs
  refine ⟨?_, h.own, fun t ht => (h.handling t ht).elim (fun hs => Or.inl (hh hs)) (hp t), ?_⟩
  · rw [← hfr]
    exact h.others
  · rw [← hfr]
    exact h.waits

/-- The frames of the context have been changed before, but no frame of a handler or of `rt_signal_wait` is new. -/
theorem Framed.after (h : Framed s1 s' act (some c) P Q) (hfr : s1.frames = Function.update s.frames c gs)
    (hsub : ∀ f ∈ gs, isHandler f ∨ isWait f → f ∈ s.frames c) : Framed s s' act (some c) P Q := by
  have hold {t : ThreadId} {f : SigFrame} (hf : f ∈ s1.frames (.thread t)) (hh : isHandler f ∨ isWait f) :
      f ∈ s.frames (.thread t) := by
    rw [hfr] at hf
    by_cases e : .thread t = c
    · subst e
      rw [Function.update_self] at hf
      exact hsub f hf hh
    · rwa [Function.update_of_ne e] at hf
  refine ⟨fun d hd => ?_, h.own, fun t hh => ?_, fun t hq f hf hw => hold (h.waits t hq f hf hw) (Or.inr hw)⟩
  · rw [h.others d hd, hfr, Function.update_of_ne fun e => hd (congrArg some e.symm)]
  · exact (h.handling t hh).imp_left fun ⟨f, hf, hhf⟩ => ⟨f, hold hf (Or.inl hhf), hhf⟩

theorem Framed.of_eq (hact : act.on = none) (hfr : s'.frames = s.frames) : Framed s s' act o P Q := by
  constructor
  · intro d _
    rw [hfr]
  · intro t ht
    rw [hact] at ht
    cases ht
  · rintro t (⟨f, hf⟩ | ⟨sig, handler, rfl⟩)
    · exact Or.inl ⟨f, by rwa [hfr] at hf⟩
    · cases hact
  · intro t _ f hf _
    rwa [hfr] at hf

/-- A new frame. -/
theorem Framed.push (hact : act.on = none) (hfr : s'.frames = Function.update s.frames c (f :: gs))
    (hf : isHandler f = false) (hw : isWait f = false) (hgs : ∀ f ∈ gs, f ∈ s.frames c) :
    Framed s s' act (some c) P Q := by
  refine (Framed.of_eq (s := s') hact rfl).after hfr fun g hg hhg => ?_
  rcases List.mem_cons.1 hg with rfl | hg
  · rw [hf, hw] at hhg
    simp at hhg
  · exact hgs g hg

/-- The step takes a signal of its thread that is not handled, or queues one. -/
theorem Framed.act_of_quiet (h : Framed s s' .quiet o P Q) (hact : ∀ t sig handler, act ≠ .handled t sig handler)
    (hown : ∀ t, act.on = some t → (∃ sig, act = .appended t sig) ∨ o = some (.thread t)) : Framed s s' act o P Q :=
  ⟨h.others, hown, fun t hh => h.handling t (Or.inl (hh.resolve_right fun ⟨_, _, e⟩ => hact _ _ _ e)), h.waits⟩

/-- A thread puts a frame on its own. -/
theorem Framed.cons (hfr : s'.frames = Function.update s.frames (.thread tid) (f :: s.frames (.thread tid)))
    (hown : ∀ t, act.on = some t → t = tid) (hact : ∀ t sig handler, act = .handled t sig handler → P t)
    (hh : isHandler f → P tid) (hw : isWait f → Q tid) : Framed s s' act (some (.thread tid)) P Q := by
  have hcases {t : ThreadId} {g : SigFrame} (hg : g ∈ s'.frames (.thread t)) : g ∈ s.frames (.thread t) ∨ t = tid ∧ g = f := by
    rw [hfr] at hg
    by_cases e : t = tid
    · subst e
      rw [Function.update_self] at hg
      exact (List.mem_cons.1 hg).symm.imp_right fun e => ⟨rfl, e⟩
    · rw [Function.update_of_ne (by simpa using e)] at hg
      exact Or.inl hg
  refine ⟨fun d hd => ?_, fun t ht => Or.inr (by rw [hown t ht]), ?_, fun t hq g hg hgw => (hcases hg).resolve_right ?_⟩
  · rw [hfr, Function.update_of_ne fun e => hd (congrArg some e.symm)]
  · rintro t (⟨g, hg, hgh⟩ | ⟨sig, handler, h⟩)
    · rcases hcases hg with hg | ⟨rfl, rfl⟩
      · exact Or.inl ⟨g, hg, hgh⟩
      · exact Or.inr (hh hgh)
    · exact Or.inr (hact t sig handler h)
  · rintro ⟨rfl, rfl⟩
    exact hq (hw hgw)

theorem handleLoop_framed (h : s.handleLoop tid clean = some (s', act)) : Framed s s' act (some (.thread tid)) (· = tid) Q := by
  unfold handleLoop at h
  split at h
  · cases h
    exact .of_eq rfl rfl
  · split at h
    · cases h
    · cases h
      exact .cons rfl (fun t ht => (Option.some.inj ht).symm) (fun t _ _ h => (SigAct.handled.inj h).1.symm) (fun _ => rfl)
        nofun

theorem rtThreadHandleSig_framed (h : s.rtThreadHandleSig tid clean = some (s', act)) :
    Framed s s' act (some (.thread tid)) (· = tid) Q := by
  unfold rtThreadHandleSig at h
  dsimp only at h
  split_ifs at h
  · exact handleLoop_framed h
  all_goals
    cases h
    exact .of_eq rfl rfl

theorem waitDone_framed {set : BitVec 32} (h : s.waitDone tid set = (s', act)) :
    Framed s s' act (some (.thread tid)) P Q := by
  unfold waitDone at h
  split at h
  all_goals cases h
  · exact .of_eq rfl rfl
  · exact .act_of_quiet (.of_eq rfl rfl) nofun fun t ht => Or.inr (by rw [Option.some.inj ht])

theorem signalDeliver_framed {self : ThreadId} (hc : ∀ t, c = .thread t → self = t)
    (h : s.signalDeliver c self tid = some (s', act)) : Framed s s' act (some c) (fun t => c = .thread t ∧ tid = t) Q := by
  unfold signalDeliver at h
  dsimp only at h
  split_ifs at h with _ _ hself
  · cases h
    exact .of_eq rfl rfl
  · cases h
    exact .of_eq rfl rfl
  · cases c with
    | thread t =>
      obtain rfl : tid = t := hself.trans (hc t rfl)
      have hh := rtThreadHandleSig_framed (Q := Q) h
      exact hh.mono rfl fun t e => Or.inr ⟨congrArg _ e.symm, e.symm⟩
    | isr j =>
      cases h
      exact .of_eq rfl rfl
  · cases h
    exact .of_eq rfl rfl
  · cases h
    exact .of_eq rfl rfl

theorem cont_framed {i : ThreadId} (h : s.cont c i = some (s', act)) :
    Framed s s' act (some c) (fun t => s.Enters t (.cont c i)) Q := by
  have hsub {f : SigFrame} {fs : List SigFrame} (hfs : s.frames c = f :: fs) : ∀ f ∈ fs, f ∈ s.frames c :=
    fun f hf => by rw [hfs]; exact List.mem_cons_of_mem _ hf
  unfold cont at h
  split at h
  · cases h
  next tid sig fs hfs =>
    split at h
    all_goals
      cases h
      exact .push rfl rfl rfl rfl (hsub hfs)
  next tid node fs hfs =>
    cases h
    exact .act_of_quiet (.push rfl rfl rfl rfl (hsub hfs)) nofun fun t ht => Or.inl ⟨_, by rw [Option.some.inj ht]⟩
  next tid fs hfs =>
    have hd := (signalDeliver_framed (Q := Q) (fun t e => by rw [e]) h).after (s := s) rfl fun f hf _ => hsub hfs f hf
    refine hd.mono rfl fun t ⟨hc, ht⟩ => Or.inr ?_
    subst hc ht
    exact decide_eq_true ⟨rfl, by rw [hfs]; rfl⟩
  next node clean fs hfs =>
    split at h
    · cases h
    next tid =>
      have hl := (handleLoop_framed (Q := Q) h).after (s := s) rfl fun f hf _ => hsub hfs f hf
      refine hl.mono rfl fun t e => Or.inl ⟨.handler node clean, ?_, rfl⟩
      rw [e, hfs]
      exact List.mem_cons_self
  next set fs hfs =>
    split at h
    · cases h
    · refine Framed.after (show Framed (s.setFrames _ fs) _ _ _ _ _ from ?_) rfl fun f hf _ => hsub hfs f hf
      dsimp only at h
      split_ifs at h
      · cases h
        exact .of_eq rfl rfl
      · exact (waitDone_framed (Option.some.inj h)).after (by simp [setFrames]) fun f (hf : f ∈ fs) _ => by simpa using hf

/-- A step of a context, or of the rest of the kernel. -/
theorem step_framed (h : s.step ev = some (s', act)) : 
    Framed s s' act ev.context (fun t => s.Enters t ev) fun t => ∃ set timeout, ev = .wait t set timeout := by
  cases ev with
  | cont c i =>
    simp only [step] at h
    split_ifs at h
    exact cont_framed h
  | handle tid clean =>
    simp only [step] at h
    split_ifs at h
    exact (rtThreadHandleSig_framed h).mono rfl fun t e => Or.inr (decide_eq_true e.symm)
  | kill c tid sig =>
    simp only [step, rtThreadKill] at h
    split_ifs at h
    · cases h
      exact .of_eq rfl rfl
    · split at h
      all_goals cases h
      · exact .of_eq rfl rfl
      · exact .push rfl rfl rfl rfl fun _ => id
  | wait tid set timeout =>
    simp only [step, rtSignalWait] at h
    split_ifs at h
    · cases h
      exact .of_eq rfl rfl
    · exact waitDone_framed (Option.some.inj h)
    · cases h
      exact .of_eq rfl rfl
    · cases h
      exact .cons rfl nofun nofun nofun fun _ => ⟨_, _, rfl⟩
  | unmask tid signo =>
    simp only [step] at h
    split_ifs at h
    all_goals cases h
    · exact .push rfl rfl rfl rfl fun _ => id
    · exact .of_eq rfl rfl
  | install tid signo handler =>
    simp only [step] at h
    split_ifs at h
    all_goals
      cases h
      exact .of_eq rfl rfl
  | mask tid signo =>
    simp only [step] at h
    split_ifs at h
    cases h
    exact .of_eq rfl rfl
  | suspend tid =>
    cases h
    exact .of_eq rfl rfl
  | resume tid error =>
    cases h
    exact .of_eq rfl rfl

end Frames

/-- With the unmasked signals in front, a step handles unmasked signals only, and leaves them in front. -/
theorem step_masked (hI : ∀ t, s.Handling t → (s.thread t).Front) (hs : s.Step x s') (hc : x.Ordered)
    (hw : ∀ t si, x.act ≠ .waited t si) : x.Masked ∧ ∀ t, s'.Handling t → (s'.thread t).Front := by
  obtain ⟨rfl, rfl, hstep⟩ := hs
  have hfront : ∀ t, x.after.Handling t ∨ (∃ sig handler, x.act = .handled t sig handler) → (x.before.thread t).Front :=
    fun t hh => ((step_framed hstep).handling t hh).elim (hI t) (hc t).1
  have hunmasked : ∀ t sig handler, x.act = .handled t sig handler → (x.before.thread t).Unmasked sig := by
    intro t sig handler hact
    have he := step_effects hstep t
    rw [hact] at he
    cases he with
    | same hon => exact absurd rfl hon
    | handled hi hk => exact (hfront t (Or.inr ⟨sig, handler, hact⟩)).head hi hk
  refine ⟨⟨fun t sig handler hact _ => hunmasked t sig handler hact, fun t =>
    keepsMasked_of_effect (step_effects hstep t) (hw t) (hunmasked t)⟩, fun t hh => ?_⟩
  have hbefore := hfront t (Or.inl hh)
  by_cases hmask : (x.after.thread t).sigMask = (x.before.thread t).sigMask
  · have he := step_effects hstep t
    generalize hact : x.act = act at he
    cases he with
    | same _ hp hk => exact hbefore.congr hp hmask hk
    | appended => exact (hc t).2 hh (Or.inl ⟨_, hact⟩)
    | handled hi hk hp => exact hbefore.turn hi hk hp hmask
    | waited => exact absurd hact (hw t _)
  · exact (hc t).2 hh (Or.inr hmask)

/-- In every run in which no thread waits for signals: if `rt_thread_handle_sig` is entered with every unmasked signal in
front of the masked ones, and what is sent, masked and unmasked while it runs leaves that so, only unmasked signals are
handled, and masked signals stay pending and queued. -/
theorem signal_masking (h0 : s0.Start n) (hr : Runs.Run Step s0 ls s) (hw : ∀ x ∈ ls, ∀ t si, x.act ≠ .waited t si)
    (hc : ∀ x ∈ ls, x.Ordered) : ∀ x ∈ ls, x.Masked := by
  suffices h : (∀ x ∈ ls, x.Masked) ∧ ∀ t, s.Handling t → (s.thread t).Front from h.1
  induction hr with
  | nil => exact ⟨nofun, fun t ⟨f, hf, _⟩ => by rw [h0.frames] at hf; cases hf⟩
  | @snoc ls x _ _ hr hs ih =>
    obtain ⟨hmasked, hI⟩ :=
      ih (fun y hy => hw y (List.mem_append_left _ hy)) fun y hy => hc y (List.mem_append_left _ hy)
    have hlast : x ∈ ls ++ [x] := List.mem_append_right _ List.mem_cons_self
    obtain ⟨hx, hI'⟩ := step_masked hI hs (hc x hlast) (hw x hlast)
    exact ⟨List.forall_mem_append.2 ⟨hmasked, List.forall_mem_singleton.2 hx⟩, hI'⟩

/-! ## Runs on given events -/

/-- The steps on a list of events. -/
def trace (s : Signals) : List SigEv → Option (Signals × List Label)
  | [] => some (s, [])
  | ev :: evs =>
    match s.step ev with
    | none => none
    | some (s1, act) => (trace s1 evs).map fun x => (x.1, ⟨s, ev, act, s1⟩ :: x.2)

theorem run_of_trace {evs : List SigEv} (h : s.trace evs = some (s', ls)) : Runs.Run Step s ls s' := by
  induction evs generalizing s ls with
  | nil =>
    cases h
    exact .nil
  | cons ev evs ih =>
    unfold trace at h
    split at h
    · cases h
    · rename_i s1 act hs
      obtain ⟨x, hx, he⟩ := Option.map_eq_some_iff.1 h
      cases he
      exact .cons ⟨rfl, rfl, hs⟩ (ih hx)

/-- `n` free nodes, and threads that have installed handlers. -/
def quietStart (n : Nat) : Signals where
  thread _ :=
    { sigPending := 0, sigMask := 0, sigVectors := some .user, siList := [], suspended := false, statSignal := false,
      statSignalWait := false, statSignalPending := false, error := .eok }
  free := List.range n
  frames _ := []

theorem start_quietStart (n : Nat) : (quietStart n).Start n :=
  ⟨fun _ => rfl, fun _ => rfl, .refl _, fun _ => rfl⟩

def quietLabels (n : Nat) (evs : List SigEv) : List Label := ((trace (quietStart n) evs).map Prod.snd).getD []

def quietAfter (n : Nat) (evs : List SigEv) : Signals := ((trace (quietStart n) evs).map Prod.fst).getD (quietStart n)

theorem run_quiet (n : Nat) (evs : List SigEv) (h : (trace (quietStart n) evs).isSome) :
    Runs.Run Step (quietStart n) (quietLabels n evs) (quietAfter n evs) := by
  obtain ⟨⟨s, ls⟩, hx⟩ := Option.isSome_iff_exists.1 h
  unfold quietLabels quietAfter
  rw [hx]
  exact run_of_trace hx

section Frames

variable {c d : Context} {tid : ThreadId} {act : SigAct} {clean : Bool} {ev : SigEv}

/-- A context that takes no step calls nothing. -/
theorem trace_frames {evs : List SigEv} (h : s.trace evs = some (s', ls)) (hd : ∀ ev ∈ evs, ev.context ≠ some d) :
    s'.frames d = s.frames d ∧ ∀ x ∈ ls, x.ev.context ≠ some d ∧ x.after.frames d = s.frames d := by
  induction evs generalizing s ls with
  | nil =>
    cases h
    exact ⟨rfl, nofun⟩
  | cons ev evs ih =>
    unfold trace at h
    split at h
    · cases h
    · rename_i s1 act hs
      obtain ⟨x, hx, he⟩ := Option.map_eq_some_iff.1 h
      cases he
      have h1 := (step_framed hs).others d (hd ev List.mem_cons_self)
      obtain ⟨h2, h3⟩ := ih hx fun e he => hd e (List.mem_cons_of_mem _ he)
      rw [h1] at h2 h3
      exact ⟨h2, List.forall_mem_cons.2 ⟨⟨hd ev List.mem_cons_self, h1⟩, h3⟩⟩

theorem frames_quietAfter {n : Nat} {evs : List SigEv} (h : (trace (quietStart n) evs).isSome)
    (hd : ∀ ev ∈ evs, ev.context ≠ some d) : (quietAfter n evs).frames d = [] := by
  obtain ⟨⟨s, ls⟩, hx⟩ := Option.isSome_iff_exists.1 h
  unfold quietAfter
  rw [hx]
  exact (trace_frames hx hd).1

theorem quietLabels_frames {n : Nat} {evs : List SigEv} (hd : ∀ ev ∈ evs, ev.context ≠ some d) :
    ∀ x ∈ quietLabels n evs, x.ev.context ≠ some d ∧ x.after.frames d = [] := by
  unfold quietLabels
  cases hx : trace (quietStart n) evs with
  | none => exact nofun
  | some y => exact (trace_frames hx hd).2

end Frames

/-- Signals 1 and 2 are sent to a thread by interrupt handlers, and the thread unmasks the second. -/
def maskedEvents : List SigEv :=
  [.kill (.isr 0) 0 1, .cont (.isr 0) 0, .cont (.isr 0) 0, .cont (.isr 0) 0,
    .kill (.isr 0) 0 2, .cont (.isr 0) 0, .cont (.isr 0) 0, .cont (.isr 0) 0, .unmask 0 2, .cont (.thread 0) 0]

/-- The handler of the signal that is masked is invoked. -/
theorem masked_signal_handled :
    (quietStart 4).Start 4 ∧ ∃ ls s, Runs.Run Step (quietStart 4) ls s ∧ (∀ x ∈ ls, ∀ t si, x.act ≠ .waited t si) ∧
      ∃ x ∈ ls, x.act = .handled 0 1 (.user 1) ∧ ¬(x.before.thread 0).Unmasked 1 := by
  have hacts : (quietLabels 4 maskedEvents).all fun x => match x.act with | .waited _ _ => false | _ => true := by
    decide
  have hany : (quietLabels 4 maskedEvents).any fun x =>
      decide (x.act = .handled 0 1 (.user 1) ∧ ¬(x.before.thread 0).Unmasked 1) := by
    decide
  refine ⟨start_quietStart 4, _, _, run_quiet 4 maskedEvents (by decide), fun x hx t si he => ?_, ?_⟩
  · have h1 := List.all_eq_true.1 hacts x hx
    rw [he] at h1
    cases h1
  · obtain ⟨x, hx, h⟩ := List.any_eq_true.1 hany
    exact ⟨x, hx, of_decide_eq_true h⟩

/-- Signals 1 and 2 are sent to a thread that has masked the second, and the handler of the first one is run, in which the
third is sent. -/
def frontEvents : List SigEv :=
  [.kill (.isr 0) 0 1, .cont (.isr 0) 0, .cont (.isr 0) 0, .cont (.isr 0) 0,
    .kill (.isr 0) 0 2, .cont (.isr 0) 0, .cont (.isr 0) 0, .cont (.isr 0) 0, .unmask 0 1, .cont (.thread 0) 0,
    .kill (.thread 0) 0 3, .cont (.thread 0) 0, .cont (.thread 0) 0, .cont (.thread 0) 0, .cont (.thread 0) 0]

theorem signal_masking_front :
    ∃ ls s, Runs.Run Step (quietStart 4) ls s ∧ (∃ x ∈ ls, x.act = .handled 0 1 (.user 1)) ∧
      (s.thread 0).Pending 2 ∧ ∀ x ∈ ls, x.Masked := by
  have hlabels : (quietLabels 4 frontEvents).all fun x => match x.act with | .waited _ _ => false | _ => true := by
    decide
  have henter : ∀ x ∈ quietLabels 4 frontEvents, x.before.Enters 0 x.ev → (x.before.thread 0).Front := by
    decide
  have hkeep : ∀ x ∈ quietLabels 4 frontEvents, x.after.Handling 0 → (x.after.thread 0).Front := by
    decide
  have hr := run_quiet 4 frontEvents (by decide)
  refine ⟨_, _, hr, by decide, by decide, signal_masking (start_quietStart 4) hr ?_ fun x hx t => ?_⟩
  · intro x hx t si he
    have h1 := List.all_eq_true.1 hlabels x hx
    rw [he] at h1
    cases h1
  · by_cases e : t = 0
    · subst e
      exact ⟨henter x hx, fun hh _ => hkeep x hx hh⟩
    -- no other thread takes a step
    · have hctx : ∀ ev ∈ frontEvents, ev.context = some (.thread 0) ∨ ev.context = some (.isr 0) := by decide
      have hno : ∀ ev ∈ frontEvents, ev.context ≠ some (.thread t) := by
        intro ev hev he
        rcases hctx ev hev with h | h <;> rw [he] at h
        · exact e (Context.thread.inj (Option.some.inj h))
        · cases h
      obtain ⟨hne, hfr⟩ := quietLabels_frames hno x hx
      refine ⟨fun h => absurd (enters_context h) hne, ?_⟩
      rintro ⟨f, hf, -⟩
      rw [hfr] at hf
      cases hf

/-! ## The pool -/

/-- In every state of every run, each block of the pool is in one place, once: free, queued or in a hand; and when nothing is
queued and no call is under way, all are free. -/
theorem siginfo_conserved (h0 : s0.Start n) (hr : Runs.Run Step s0 ls s) :
    (∀ b, b < n ↔ ∃ p, b ∈ s.items p) ∧ (∀ p b, (s.items p).count b ≤ 1) ∧
    (∀ p q b, b ∈ s.items p → b ∈ s.items q → p = q) ∧
    ((∀ t, (s.thread t).siList = []) → (∀ c, s.frames c = []) → s.free.Perm (List.range n)) := by
  have h := (h0.nodes.run hr).placed
  refine ⟨h.all, fun p b => List.nodup_iff_count_le_one.1 (h.nodup p) b, fun p q b => h.one, fun hlist hframes => ?_⟩
  refine (List.perm_ext_iff_of_nodup (h.nodup .pool) List.nodup_range).2 fun b => ?_
  rw [List.mem_range, h.all]
  refine ⟨fun hb => ⟨_, hb⟩, ?_⟩
  rintro ⟨p, hp⟩
  cases p with
  | pool => exact hp
  | queue t => simp [items_queue, SigThread.keys, hlist] at hp
  | hand c => simp [items_hand, hframes] at hp

theorem siginfo_conserved_masked : ∃ p, 0 ∈ (quietAfter 4 maskedEvents).items p :=
  ((siginfo_conserved (start_quietStart 4) (run_quiet 4 maskedEvents (by decide))).1 0).1 (by decide)

end Signals

end RtThread
