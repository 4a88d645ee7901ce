import RtThread.Lib.Places
import RtThread.Signal.Effect

/-!
# The siginfo nodes

The blocks of `_siginfo_pool` are free, in the queue of a thread, or in the hand of a context that sends or handles a
signal. They are never lost, nor in two places.
-/

namespace RtThread

/-- The signal of a call that is being sent is valid. -/
def SigFrame.Valid : SigFrame → Prop
  | .killAlloc _ sig => sig < 32
  | .killAppend _ node => node.si.siSigno < 32
  | _ => True

/-- The node that a call holds. -/
def SigFrame.block : SigFrame → Option Nat
  | .killAppend _ node => some node.block
  | .handler node _ => some node.block
  | _ => none

inductive SigPlace
  | pool
  | queue (tid : ThreadId)
  | hand (c : Context)

namespace Signals

/-- The blocks in a place. -/
def items (s : Signals) : SigPlace → List Nat
  | .pool => s.free
  | .queue tid => (s.thread tid).keys.map Prod.fst
  | .hand c => (s.frames c).filterMap SigFrame.block

theorem items_queue (s : Signals) (tid : ThreadId) : s.items (.queue tid) = (s.thread tid).keys.map Prod.fst := rfl

theorem items_hand (s : Signals) (c : Context) : s.items (.hand c) = (s.frames c).filterMap SigFrame.block := rfl

/-- The nodes are in one place each, and the signals that are being sent are valid. -/
structure Nodes (n : Nat) (s : Signals) : Prop where
  placed : Places.Placed n s.items
  valid : ∀ c, ∀ f ∈ s.frames c, f.Valid

variable {n : Nat} {s s' : Signals} {c : Context} {fs : List SigFrame} {f : SigFrame} {tid : ThreadId} {th : SigThread}
  {act : SigAct} {clean : Bool} {node : SiginfoNode} {set : BitVec 32}

namespace Nodes

/-- A step that moves no node. -/
theorem congr (h : s.Nodes n) (hfree : s'.free = s.free) (hkeys : ∀ u, (s'.thread u).keys = (s.thread u).keys)
    (hblocks : ∀ d, (s'.frames d).filterMap SigFrame.block = (s.frames d).filterMap SigFrame.block)
    (hvalid : ∀ d, ∀ f ∈ s'.frames d, f.Valid) : s'.Nodes n := by
  refine ⟨h.placed.perm fun p => ?_, hvalid⟩
  cases p with
  | pool => exact .of_eq hfree
  | queue u => rw [items_queue, items_queue, hkeys]
  | hand d => exact .of_eq (hblocks d)

theorem setThread (h : s.Nodes n) (hk : th.keys = (s.thread tid).keys) : (s.setThread tid th).Nodes n := by
  refine h.congr rfl (fun u => ?_) (fun _ => rfl) h.valid
  by_cases e : u = tid
  · subst e
    rw [setThread_thread_self]
    exact hk
  · rw [setThread_thread_of_ne e]

theorem valid_setFrames (h : ∀ d, ∀ f ∈ s.frames d, f.Valid) (hfs : ∀ f ∈ fs, f.Valid) :
    ∀ d, ∀ f ∈ (s.setFrames c fs).frames d, f.Valid := by
  intro d
  by_cases e : d = c
  · subst e
    rw [setFrames_frames_self]
    exact hfs
  · rw [setFrames_frames_of_ne e]
    exact h d

/-- The frames of a context change, but not the nodes they hold. -/
theorem setFrames (h : s.Nodes n) (hb : fs.filterMap SigFrame.block = (s.frames c).filterMap SigFrame.block)
    (hfs : ∀ f ∈ fs, f.Valid) : (s.setFrames c fs).Nodes n := by
  refine h.congr rfl (fun _ => rfl) (fun d => ?_) (valid_setFrames h.valid hfs)
  by_cases e : d = c
  · subst e
    rw [setFrames_frames_self]
    exact hb
  · rw [setFrames_frames_of_ne e]

/-- A new frame, without a node. -/
theorem push (h : s.Nodes n) (hb : f.block = none) (hf : f.Valid) : (s.setFrames c (f :: s.frames c)).Nodes n := by
  apply h.setFrames
  · rw [List.filterMap_cons_none hb]
  · intro g hg
    rcases List.mem_cons.1 hg with rfl | hg
    · exact hf
    · exact h.valid c g hg

/-- A frame without a node becomes another one, or goes. -/
theorem replace (h : s.Nodes n) (hc : s.frames c = f :: fs) (hb : f.block = none) {gs : List SigFrame}
    (hg : gs = fs ∨ ∃ g, gs = g :: fs ∧ g.block = none ∧ g.Valid) : (s.setFrames c gs).Nodes n := by
  have hv : ∀ f ∈ fs, f.Valid := fun g hg => h.valid c g (by rw [hc]; exact List.mem_cons_of_mem _ hg)
  rcases hg with rfl | ⟨g, rfl, hgb, hgv⟩
  · apply h.setFrames
    · rw [hc, List.filterMap_cons_none hb]
    · exact hv
  · apply h.setFrames
    · rw [hc, List.filterMap_cons_none hb, List.filterMap_cons_none hgb]
    · intro g' hg'
      rcases List.mem_cons.1 hg' with rfl | hg'
      · exact hgv
      · exact hv g' hg'

theorem handleLoop (h : s.Nodes n) (hr : s.handleLoop tid clean = some (s', act)) : s'.Nodes n := by
  unfold Signals.handleLoop at hr
  split at hr
  · cases hr
    exact h.setThread rfl
  · rename_i node th' hturn
    obtain ⟨-, hk, -⟩ := SigThread.handleTurn_eq hturn
    split at hr
    · cases hr
    · cases hr
      constructor
      · refine h.placed.move (p := .queue tid) (q := .hand (.thread tid)) (x := node.block) (by simp) ?_ ?_ ?_
        · rw [items_queue, items_queue, setFrames_thread, setThread_thread_self, hk]
          exact .refl _
        · rw [items_hand, items_hand, setFrames_frames_self]
          exact .refl _
        · intro r hp hq
          cases r with
          | pool => rfl
          | queue u =>
            have hu : u ≠ tid := fun e => hp (by rw [e])
            rw [items_queue, items_queue, setFrames_thread, setThread_thread_of_ne hu]
          | hand d =>
            have hd : d ≠ .thread tid := fun e => hq (by rw [e])
            rw [items_hand, items_hand, setFrames_frames_of_ne hd, setThread_frames]
      · apply valid_setFrames h.valid
        intro g hg
        rcases List.mem_cons.1 hg with rfl | hg
        · trivial
        · exact h.valid _ g hg

theorem rtThreadHandleSig (h : s.Nodes n) (hr : s.rtThreadHandleSig tid clean = some (s', act)) : s'.Nodes n := by
  unfold Signals.rtThreadHandleSig at hr
  dsimp only at hr
  split_ifs at hr
  · exact h.handleLoop hr
  all_goals
    cases hr
  · exact h
  · exact h.setThread rfl
  · exact h
  · exact h.setThread rfl

theorem signalDeliver {self : ThreadId} (h : s.Nodes n) (hr : s.signalDeliver c self tid = some (s', act)) :
    s'.Nodes n := by
  unfold Signals.signalDeliver at hr
  dsimp only at hr
  split_ifs at hr
  · cases hr
    exact h
  · cases hr
    exact h.setThread rfl
  · have h1 : (s.setThread tid { s.thread tid with statSignal := true }).Nodes n := h.setThread rfl
    cases c with
    | thread t => exact h1.rtThreadHandleSig hr
    | isr i =>
      cases hr
      exact h1
  · cases hr
    exact h.setThread rfl
  · cases hr
    exact h

theorem rtThreadKill {sig : Int} (h : s.Nodes n) (hr : s.rtThreadKill c tid sig = (s', act)) : s'.Nodes n := by
  unfold Signals.rtThreadKill at hr
  split_ifs at hr with hv
  · cases hr
    exact h
  · split at hr
    · rename_i th' htest
      cases hr
      exact h.setThread (SigThread.killTest_keys htest).1
    · cases hr
      apply h.push rfl
      have hv' : 0 ≤ sig ∧ sig < 32 := by
        unfold sigValid sigMax at hv
        simpa using hv
      change sig.toNat < 32
      omega

theorem waitDone (h : s.Nodes n) (hr : s.waitDone tid set = (s', act)) : s'.Nodes n := by
  unfold Signals.waitDone at hr
  split at hr
  · cases hr
    exact h
  · rename_i node th' htake
    cases hr
    obtain ⟨as, bs, hl, hl', -⟩ := SigThread.waitTake_eq htake
    refine ⟨?_, h.valid⟩
    refine h.placed.move (p := .queue tid) (q := .pool) (x := node.block) (by simp) ?_ (.refl _) ?_
    · rw [items_queue, items_queue, freeNode_thread, setThread_thread_self]
      unfold SigThread.keys
      rw [hl, hl', List.map_append, List.map_append, List.map_append, List.map_append, List.map_cons, List.map_cons]
      exact List.perm_middle
    · intro r hp hq
      cases r with
      | pool => exact absurd rfl hq
      | queue u =>
        have hu : u ≠ tid := fun e => hp (by rw [e])
        rw [items_queue, items_queue, freeNode_thread, setThread_thread_of_ne hu]
      | hand d => rfl

theorem rtSignalWait {timeout : Int} (h : s.Nodes n) (hr : s.rtSignalWait tid set timeout = (s', act)) : s'.Nodes n := by
  unfold Signals.rtSignalWait at hr
  dsimp only at hr
  split_ifs at hr
  · cases hr
    exact h
  · exact h.waitDone hr
  · cases hr
    exact h
  · cases hr
    have h1 : (s.setThread tid { s.thread tid with suspended := true, statSignalWait := true }).Nodes n := h.setThread rfl
    exact h1.push rfl trivial

/-- A context takes a free block to send a signal. -/
theorem alloc {b sig : Nat} {bs : List Nat} (h : s.Nodes n) (hc : s.frames c = .killAlloc tid sig :: fs)
    (hf : s.free = b :: bs) :
    ({ s with free := bs }.setFrames c (.killAppend tid ⟨b, sig, siUser, 0⟩ :: fs)).Nodes n := by
  have hv := h.valid c
  rw [hc] at hv
  constructor
  · refine h.placed.move (p := .pool) (q := .hand c) (x := b) (by simp) (.of_eq hf) ?_ ?_
    · rw [items_hand, items_hand, setFrames_frames_self, hc]
      exact .refl _
    · intro r hp hq
      cases r with
      | pool => exact absurd rfl hp
      | queue u => rfl
      | hand d =>
        have hd : d ≠ c := fun e => hq (by rw [e])
        rw [items_hand, items_hand, setFrames_frames_of_ne hd]
  · apply valid_setFrames (s := { s with free := bs }) h.valid
    intro g hg
    rcases List.mem_cons.1 hg with rfl | hg
    · exact hv (.killAlloc tid sig) (by simp)
    · exact hv g (List.mem_cons_of_mem _ hg)

/-- The node is queued. -/
theorem append (h : s.Nodes n) (hc : s.frames c = .killAppend tid node :: fs) :
    ((s.setThread tid ((s.thread tid).killAppend node)).setFrames c (.deliver tid :: fs)).Nodes n := by
  have hv := h.valid c
  rw [hc] at hv
  constructor
  · refine h.placed.move (p := .hand c) (q := .queue tid) (x := node.block) (by simp) ?_ ?_ ?_
    · rw [items_hand, items_hand, setFrames_frames_self, hc]
      exact .refl _
    · rw [items_queue, items_queue, setFrames_thread, setThread_thread_self]
      unfold SigThread.keys SigThread.killAppend
      rw [List.map_append, List.map_append]
      exact List.perm_append_comm
    · intro r hp hq
      cases r with
      | pool => rfl
      | queue u =>
        have hu : u ≠ tid := fun e => hq (by rw [e])
        rw [items_queue, items_queue, setFrames_thread, setThread_thread_of_ne hu]
      | hand d =>
        have hd : d ≠ c := fun e => hp (by rw [e])
        rw [items_hand, items_hand, setFrames_frames_of_ne hd, setThread_frames]
  · apply valid_setFrames (s := s.setThread tid _) h.valid
    intro g hg
    rcases List.mem_cons.1 hg with rfl | hg
    · trivial
    · exact hv g (List.mem_cons_of_mem _ hg)

/-- The node of a signal that was handled is freed. -/
theorem release (h : s.Nodes n) (hc : s.frames c = .handler node clean :: fs) :
    ((s.setFrames c fs).freeNode node).Nodes n := by
  have hv := h.valid c
  rw [hc] at hv
  constructor
  · refine h.placed.move (p := .hand c) (q := .pool) (x := node.block) (by simp) ?_ (.refl _) ?_
    · rw [items_hand, items_hand, freeNode_frames, setFrames_frames_self, hc]
      exact .refl _
    · intro r hp hq
      cases r with
      | pool => exact absurd rfl hq
      | queue u => rfl
      | hand d =>
        have hd : d ≠ c := fun e => hp (by rw [e])
        rw [items_hand, items_hand, freeNode_frames, setFrames_frames_of_ne hd]
  · exact valid_setFrames h.valid fun g hg => hv g (List.mem_cons_of_mem _ hg)

theorem cont {interrupted : ThreadId} (h : s.Nodes n) (hr : s.cont c interrupted = some (s', act)) : s'.Nodes n := by
  unfold Signals.cont at hr
  split at hr
  · cases hr
  · rename_i tid sig fs hfs
    split at hr
    · cases hr
      exact h.replace hfs rfl (Or.inr ⟨_, rfl, rfl, trivial⟩)
    · rename_i b bs hfree
      cases hr
      exact h.alloc hfs hfree
  · rename_i tid node fs hfs
    cases hr
    exact h.append hfs
  · rename_i tid fs hfs
    exact (h.replace hfs rfl (Or.inl rfl)).signalDeliver hr
  · rename_i node clean fs hfs
    split at hr
    · cases hr
    · have h1 := h.release hfs
      refine Nodes.handleLoop ?_ hr
      exact h1.setThread rfl
  · rename_i set fs hfs
    split at hr
    · cases hr
    · have h1 := h.replace hfs rfl (Or.inl rfl)
      dsimp only at hr
      split_ifs at hr
      · cases hr
        exact h1.setThread rfl
      · refine Nodes.waitDone ?_ (Option.some.inj hr)
        exact h1.setThread rfl

theorem step {ev : SigEv} (h : s.Nodes n) (hr : s.step ev = some (s', act)) : s'.Nodes n := by
  cases ev with
  | install tid signo handler =>
    unfold Signals.step at hr
    dsimp only at hr
    split_ifs at hr
    · cases hr
      exact h.setThread rfl
    · cases hr
      exact h
  | mask tid signo =>
    unfold Signals.step at hr
    dsimp only at hr
    split_ifs at hr
    cases hr
    exact h.setThread rfl
  | unmask tid signo =>
    unfold Signals.step at hr
    dsimp only at hr
    split_ifs at hr
    all_goals
      cases hr
    · have h1 : (s.setThread tid { s.thread tid with
        sigMask := (s.thread tid).sigMask ||| RtThread.sigMask signo }).Nodes n := h.setThread rfl
      exact h1.push rfl trivial
    · exact h.setThread rfl
  | kill c tid sig =>
    unfold Signals.step at hr
    dsimp only at hr
    split_ifs at hr
    exact h.rtThreadKill (Option.some.inj hr)
  | wait tid set timeout =>
    unfold Signals.step at hr
    dsimp only at hr
    split_ifs at hr
    exact h.rtSignalWait (Option.some.inj hr)
  | handle tid clean =>
    unfold Signals.step at hr
    dsimp only at hr
    split_ifs at hr
    refine Nodes.rtThreadHandleSig ?_ hr
    exact h.setThread rfl
  | cont c interrupted =>
    unfold Signals.step at hr
    dsimp only at hr
    split_ifs at hr
    exact h.cont hr
  | suspend tid =>
    cases hr
    exact h.setThread rfl
  | resume tid error =>
    cases hr
    exact h.setThread rfl

end Nodes

/-! ## What queues a signal -/

theorem handleLoop_on (h : s.handleLoop tid clean = some (s', act)) : ∀ u sig, act ≠ .appended u sig := by
  unfold handleLoop at h
  split at h
  · cases h
    simp
  · split at h
    · cases h
    · cases h
      simp

theorem rtThreadHandleSig_on (h : s.rtThreadHandleSig tid clean = some (s', act)) :
    ∀ u sig, act ≠ .appended u sig := by
  unfold rtThreadHandleSig at h
  dsimp only at h
  split_ifs at h
  · exact handleLoop_on h
  all_goals
    cases h
    simp

theorem signalDeliver_on {self : ThreadId} (h : s.signalDeliver c self tid = some (s', act)) :
    ∀ u sig, act ≠ .appended u sig := by
  unfold signalDeliver at h
  dsimp only at h
  split_ifs at h
  · cases h
    simp
  · cases h
    simp
  · cases c with
    | thread t => exact rtThreadHandleSig_on h
    | isr i =>
      cases h
      simp
  · cases h
    simp
  · cases h
    simp

theorem waitDone_on (h : s.waitDone tid set = (s', act)) : ∀ u sig, act ≠ .appended u sig := by
  unfold waitDone at h
  split at h
  all_goals
    cases h
    simp

/-- A signal is queued by a context that has its node at hand. -/
theorem step_appended {ev : SigEv} {sig : Nat} (h : s.step ev = some (s', .appended tid sig)) :
    ∃ c i node fs, ev = .cont c i ∧ s.frames c = .killAppend tid node :: fs ∧ node.si.siSigno = sig := by
  cases ev with
  | install tid signo handler =>
    unfold step at h
    dsimp only at h
    split_ifs at h
    all_goals cases (Prod.mk.inj (Option.some.inj h)).2
  | mask tid signo =>
    unfold step at h
    dsimp only at h
    split_ifs at h
    cases (Prod.mk.inj (Option.some.inj h)).2
  | unmask tid signo =>
    unfold step at h
    dsimp only at h
    split_ifs at h
    all_goals cases (Prod.mk.inj (Option.some.inj h)).2
  | kill c tid sig =>
    unfold step rtThreadKill at h
    dsimp only at h
    split_ifs at h
    · cases (Prod.mk.inj (Option.some.inj h)).2
    · split at h
      all_goals cases (Prod.mk.inj (Option.some.inj h)).2
  | wait tid set timeout =>
    unfold step rtSignalWait at h
    dsimp only at h
    split_ifs at h
    · cases (Prod.mk.inj (Option.some.inj h)).2
    · exact absurd rfl (waitDone_on (Option.some.inj h) _ _)
    · cases (Prod.mk.inj (Option.some.inj h)).2
    · cases (Prod.mk.inj (Option.some.inj h)).2
  | handle tid clean =>
    unfold step at h
    dsimp only at h
    split_ifs at h
    exact absurd rfl (rtThreadHandleSig_on h _ _)
  | cont c interrupted =>
    unfold step cont at h
    dsimp only at h
    split_ifs at h
    split at h
    · cases h
    · split at h
      all_goals cases (Prod.mk.inj (Option.some.inj h)).2
    · rename_i node fs hfs
      obtain ⟨-, he⟩ := Prod.mk.inj (Option.some.inj h)
      obtain ⟨rfl, rfl⟩ := SigAct.appended.inj he
      exact ⟨c, interrupted, node, fs, rfl, hfs, rfl⟩
    · exact absurd rfl (signalDeliver_on h _ _)
    · split at h
      · cases h
      · exact absurd rfl (handleLoop_on h _ _)
    · split at h
      · cases h
      · split_ifs at h
        · cases (Prod.mk.inj (Option.some.inj h)).2
        · exact absurd rfl (waitDone_on (Option.some.inj h) _ _)
  | suspend tid => cases (Prod.mk.inj (Option.some.inj h)).2
  | resume tid error => cases (Prod.mk.inj (Option.some.inj h)).2

/-- A signal that is queued is valid. -/
theorem Nodes.appended_lt {ev : SigEv} {sig : Nat} (h : s.Nodes n) (hr : s.step ev = some (s', .appended tid sig)) :
    sig < 32 := by
  obtain ⟨c, -, node, fs, -, hfs, rfl⟩ := step_appended hr
  have hv := h.valid c
  rw [hfs] at hv
  exact hv (.killAppend tid node) (by simp)

end Signals

end RtThread
