import RtThread.Lib.Bitmap
import RtThread.Lib.Runs
import RtThread.Signal.Signals

/-!
# What a section does to the signals of a thread

A step appends a node to the queue of one thread, takes one off, or leaves the queues alone (`Effect`), whatever else it
does. The keys of a queue are the blocks of its nodes and their signals; an update of the information in a node keeps
them.
-/

namespace RtThread

variable {th th' th1 : SigThread} {sig sig' : Nat} {node : SiginfoNode} {set : BitVec 32}

namespace SiginfoNode

/-- The block of a node, and its signal. -/
def key (node : SiginfoNode) : Nat × Nat := (node.block, node.si.siSigno)

end SiginfoNode

namespace SigThread

def keys (th : SigThread) : List (Nat × Nat) := th.siList.map SiginfoNode.key

/-- The signal is pending. -/
def Pending (th : SigThread) (sig : Nat) : Prop := th.sigPending &&& RtThread.sigMask sig ≠ 0

/-- The signal is not masked: its bit in `sig_mask` is set. -/
def Unmasked (th : SigThread) (sig : Nat) : Prop := th.sigMask &&& RtThread.sigMask sig ≠ 0

instance : Decidable (th.Pending sig) := inferInstanceAs (Decidable (_ ≠ _))

instance : Decidable (th.Unmasked sig) := inferInstanceAs (Decidable (_ ≠ _))

end SigThread

/-! ## Bits -/

theorem getLsbD_sigMask (sig i : Nat) : (sigMask sig).getLsbD i = (decide (i < 32) && decide (i = sig)) :=
  Bitmap.getLsbD_one_shiftLeft sig i

variable {g : BitVec 32}

/-- The test of a bit with `sig_mask`. -/
theorem and_sigMask_ne_zero : g &&& sigMask sig ≠ 0 ↔ sig < 32 ∧ g.getLsbD sig = true := by
  constructor
  · intro h
    by_contra hno
    apply h
    apply BitVec.eq_of_getLsbD_eq
    intro i hi
    rw [BitVec.getLsbD_and, getLsbD_sigMask]
    by_cases e : i = sig
    · subst e
      simp only [not_and, hi, forall_true_left] at hno
      simp [hno]
    · simp [e]
  · rintro ⟨hlt, hbit⟩ h0
    have h1 : (g &&& sigMask sig).getLsbD sig = true := by
      rw [BitVec.getLsbD_and, getLsbD_sigMask, hbit]
      simp [hlt]
    rw [h0] at h1
    simp at h1

theorem or_sigMask (hlt : sig < 32) : (g ||| sigMask sig) &&& sigMask sig' ≠ 0 ↔ g &&& sigMask sig' ≠ 0 ∨ sig' = sig := by
  rw [and_sigMask_ne_zero, and_sigMask_ne_zero, BitVec.getLsbD_or, getLsbD_sigMask]
  by_cases e : sig' = sig
  · subst e
    simp [hlt]
  · simp [e]

theorem and_not_sigMask : (g &&& ~~~sigMask sig) &&& sigMask sig' ≠ 0 ↔ g &&& sigMask sig' ≠ 0 ∧ sig' ≠ sig := by
  rw [and_sigMask_ne_zero, and_sigMask_ne_zero, BitVec.getLsbD_and, BitVec.getLsbD_not, getLsbD_sigMask]
  by_cases e : sig' = sig
  · subst e
    simp
  · simp +contextual [e]

/-! ## The functions on one thread -/

namespace SigThread

/-- A signal of the set that is pending has a bit in common with it. -/
theorem exists_pending (h : th.sigPending &&& set ≠ 0) : ∃ sig, th.Pending sig ∧ RtThread.sigMask sig &&& set ≠ 0 := by
  by_contra hno
  push Not at hno
  refine h (BitVec.eq_of_getLsbD_eq fun i hi => ?_)
  rw [BitVec.getLsbD_and]
  cases hbit : th.sigPending.getLsbD i with
  | false => simp
  | true =>
    have h1 := hno i (and_sigMask_ne_zero.2 ⟨hi, hbit⟩)
    have h2 : ¬set &&& RtThread.sigMask i ≠ 0 := by
      rw [BitVec.and_comm] at h1
      exact not_not.2 h1
    rw [and_sigMask_ne_zero] at h2
    have h3 : set.getLsbD i = false := by
      by_contra h3
      exact h2 ⟨hi, by simpa using h3⟩
    simp [h3]

theorem update_keys {nodes nodes' : List SiginfoNode} {si : Siginfo} (h : update sig si nodes = some nodes')
    (hsi : si.siSigno = sig) : nodes'.map SiginfoNode.key = nodes.map SiginfoNode.key := by
  induction nodes generalizing nodes' with
  | nil => cases h
  | cons entry nodes ih =>
    unfold update at h
    split_ifs at h with he
    · cases h
      rw [List.map_cons, List.map_cons]
      congr 1
      unfold SiginfoNode.key
      rw [hsi, he]
    · obtain ⟨rest, hrest, rfl⟩ := Option.map_eq_some_iff.1 h
      rw [List.map_cons, List.map_cons, ih hrest]

theorem killTest_keys (h : th.killTest sig = some th') :
    th'.keys = th.keys ∧ th'.sigPending = th.sigPending ∧ th'.sigMask = th.sigMask := by
  unfold killTest at h
  split_ifs at h
  obtain ⟨nodes, hnodes, rfl⟩ := Option.map_eq_some_iff.1 h
  exact ⟨update_keys hnodes rfl, rfl, rfl⟩

theorem handleTurn_eq (h : th.handleTurn = some (node, th')) :
    th.interested = true ∧ th.keys = node.key :: th'.keys ∧ th.siList.head? = some node ∧
      th'.sigPending = th.sigPending &&& ~~~RtThread.sigMask node.si.siSigno ∧ th'.sigMask = th.sigMask := by
  unfold handleTurn at h
  split_ifs at h with hi
  split at h
  · cases h
  · rename_i n nodes hl
    cases h
    refine ⟨hi, ?_, ?_, rfl, rfl⟩
    · unfold keys
      rw [hl]
      rfl
    · rw [hl]
      rfl

theorem takeFirst_eq {nodes rest : List SiginfoNode} (h : takeFirst set nodes = some (node, rest)) :
    ∃ as bs, nodes = as ++ node :: bs ∧ rest = as ++ bs ∧ RtThread.sigMask node.si.siSigno &&& set ≠ 0 := by
  induction nodes generalizing rest with
  | nil => cases h
  | cons x nodes ih =>
    unfold takeFirst at h
    split_ifs at h with hx
    · cases h
      exact ⟨[], nodes, rfl, rfl, hx⟩
    · obtain ⟨y, hy, he⟩ := Option.map_eq_some_iff.1 h
      cases he
      obtain ⟨as, bs, rfl, hr, hs⟩ := ih hy
      exact ⟨x :: as, bs, rfl, by rw [hr]; rfl, hs⟩

theorem waitTake_eq (h : th.waitTake set = some (node, th')) :
    ∃ as bs, th.siList = as ++ node :: bs ∧ th'.siList = as ++ bs ∧
      th'.sigPending = th.sigPending &&& ~~~RtThread.sigMask node.si.siSigno ∧ th'.sigMask = th.sigMask := by
  obtain ⟨x, hx, he⟩ := Option.map_eq_some_iff.1 h
  cases he
  obtain ⟨as, bs, hl, hr, -⟩ := takeFirst_eq hx
  exact ⟨as, bs, hl, hr, rfl, rfl⟩

end SigThread

/-! ## The effect of a step -/

/-- The thread whose queue the step changes. -/
def SigAct.on : SigAct → Option ThreadId
  | .appended tid _ => some tid
  | .handled tid _ _ => some tid
  | .waited tid _ => some tid
  | _ => none

/-- What a step does to the signals of the thread `tid`. -/
inductive Effect (tid : ThreadId) (th th' : SigThread) : SigAct → Prop
  | same {act} (hon : act.on ≠ some tid) (hp : th'.sigPending = th.sigPending) (hk : th'.keys = th.keys) : Effect tid th th' act
  | appended {b sig} (hp : th'.sigPending = th.sigPending ||| RtThread.sigMask sig) (hk : th'.keys = th.keys ++ [(b, sig)])
      (hm : th'.sigMask = th.sigMask) : Effect tid th th' (.appended tid sig)
  | handled {b sig handler} (hi : th.interested = true) (hk : th.keys = (b, sig) :: th'.keys)
      (hp : th'.sigPending = th.sigPending &&& ~~~RtThread.sigMask sig) (hm : th'.sigMask = th.sigMask) :
      Effect tid th th' (.handled tid sig handler)
  | waited {b as bs} {si : Siginfo} (hk : th.keys = as ++ (b, si.siSigno) :: bs) (hk' : th'.keys = as ++ bs)
      (hp : th'.sigPending = th.sigPending &&& ~~~RtThread.sigMask si.siSigno) (hm : th'.sigMask = th.sigMask) :
      Effect tid th th' (.waited tid si)

/-- The threads have the same signals. -/
structure Alike (th th' : SigThread) : Prop where
  pending : th'.sigPending = th.sigPending
  mask : th'.sigMask = th.sigMask
  list : th'.siList = th.siList

theorem Alike.refl (th : SigThread) : Alike th th := ⟨rfl, rfl, rfl⟩

theorem Alike.keys (h : Alike th th') : th'.keys = th.keys := by
  unfold SigThread.keys
  rw [h.list]

theorem Alike.interested (h : Alike th th') : th'.interested = th.interested := by
  unfold SigThread.interested
  rw [h.pending, h.mask]

variable {tid u : ThreadId} {act : SigAct} {s s' s1 : Signals} {c : Context} {fs : List SigFrame} {clean : Bool}

theorem Effect.of_alike (hon : act.on ≠ some tid) (h : Alike th th') : Effect tid th th' act :=
  .same hon h.pending h.keys

/-- A step from a thread that is alike. -/
theorem Effect.of_alike_left (h : Effect tid th1 th' act) (ha : Alike th th1) : Effect tid th th' act := by
  cases h with
  | same hon hp hk => exact .same hon (hp.trans ha.pending) (hk.trans ha.keys)
  | appended hp hk hm =>
    rw [ha.pending] at hp
    rw [ha.keys] at hk
    exact .appended hp hk (hm.trans ha.mask)
  | handled hi hk hp hm =>
    rw [ha.interested] at hi
    rw [ha.keys] at hk
    rw [ha.pending] at hp
    exact .handled hi hk hp (hm.trans ha.mask)
  | waited hk hk' hp hm =>
    rw [ha.keys] at hk
    rw [ha.pending] at hp
    exact .waited hk hk' hp (hm.trans ha.mask)

namespace Signals

@[simp] theorem setThread_thread_self : (s.setThread tid th).thread tid = th := Function.update_self _ _ _

theorem setThread_thread_of_ne (h : u ≠ tid) : (s.setThread tid th).thread u = s.thread u := Function.update_of_ne h _ _

@[simp] theorem setThread_frames : (s.setThread tid th).frames = s.frames := rfl
@[simp] theorem setFrames_thread : (s.setFrames c fs).thread = s.thread := rfl
@[simp] theorem setFrames_frames_self : (s.setFrames c fs).frames c = fs := Function.update_self _ _ _
@[simp] theorem freeNode_thread : (s.freeNode node).thread = s.thread := rfl
@[simp] theorem freeNode_frames : (s.freeNode node).frames = s.frames := rfl

theorem setFrames_frames_of_ne {d : Context} (h : d ≠ c) : (s.setFrames c fs).frames d = s.frames d :=
  Function.update_of_ne h _ _

/-- What a step does to the signals of all threads. -/
def Effects (s s' : Signals) (act : SigAct) : Prop := ∀ u, Effect u (s.thread u) (s'.thread u) act

/-- No thread's signals change. -/
theorem effects_alike (hon : act.on = none) (h : ∀ u, Alike (s.thread u) (s'.thread u)) : s.Effects s' act := by
  intro u
  refine .of_alike ?_ (h u)
  rw [hon]
  simp

theorem alike_setThread (h : Alike (s.thread tid) th) : ∀ u, Alike (s.thread u) ((s.setThread tid th).thread u) := by
  intro u
  by_cases e : u = tid
  · subst e
    rw [setThread_thread_self]
    exact h
  · rw [setThread_thread_of_ne e]
    exact .refl _

/-- One thread's signals change. -/
theorem effects_setThread (hon : act.on = some tid) (h : Effect tid (s.thread tid) th act)
    (hs : s'.thread = (s.setThread tid th).thread) : s.Effects s' act := by
  intro u
  rw [hs]
  by_cases e : u = tid
  · subst e
    rw [setThread_thread_self]
    exact h
  · rw [setThread_thread_of_ne e]
    refine .of_alike ?_ (.refl _)
    rw [hon]
    intro he
    exact e (Option.some.inj he).symm

theorem Effects.of_alike_left (h : s1.Effects s' act) (ha : ∀ u, Alike (s.thread u) (s1.thread u)) : s.Effects s' act :=
  fun u => (h u).of_alike_left (ha u)

theorem handleLoop_effects (h : s.handleLoop tid clean = some (s', act)) : s.Effects s' act := by
  unfold handleLoop at h
  split at h
  · cases h
    exact effects_alike rfl (alike_setThread ⟨rfl, rfl, rfl⟩)
  · rename_i node th' hturn
    obtain ⟨hi, hk, -, hp, hm⟩ := SigThread.handleTurn_eq hturn
    split at h
    · cases h
    · cases h
      exact effects_setThread rfl (.handled hi hk hp hm) rfl

theorem alike_clearSignal (u : ThreadId) : Alike (s.thread u) ((s.clearSignal tid).thread u) := by
  have ha : Alike (s.thread tid) { s.thread tid with statSignal := false } := ⟨rfl, rfl, rfl⟩
  exact alike_setThread ha u

theorem rtThreadHandleSig_effects (h : s.rtThreadHandleSig tid clean = some (s', act)) : s.Effects s' act := by
  unfold rtThreadHandleSig at h
  dsimp only at h
  split_ifs at h
  · exact handleLoop_effects h
  all_goals
    cases h
  · exact effects_alike rfl fun u => .refl _
  · exact effects_alike rfl alike_clearSignal
  · exact effects_alike rfl fun u => .refl _
  · exact effects_alike rfl alike_clearSignal

theorem signalDeliver_effects {self : ThreadId} (h : s.signalDeliver c self tid = some (s', act)) : s.Effects s' act := by
  unfold signalDeliver at h
  dsimp only at h
  split_ifs at h
  · cases h
    exact effects_alike rfl fun u => .refl _
  · cases h
    exact effects_alike rfl (alike_setThread ⟨rfl, rfl, rfl⟩)
  · have ha : ∀ u, Alike (s.thread u) ((s.setThread tid { s.thread tid with statSignal := true }).thread u) :=
      alike_setThread ⟨rfl, rfl, rfl⟩
    cases c with
    | thread t => exact (rtThreadHandleSig_effects h).of_alike_left ha
    | isr i =>
      cases h
      exact effects_alike rfl ha
  · cases h
    exact effects_alike rfl (alike_setThread ⟨rfl, rfl, rfl⟩)
  · cases h
    exact effects_alike rfl fun u => .refl _

theorem rtThreadKill_effects {sig : Int} (h : s.rtThreadKill c tid sig = (s', act)) : s.Effects s' act := by
  unfold rtThreadKill at h
  split_ifs at h
  · cases h
    exact effects_alike rfl fun u => .refl _
  · split at h
    · rename_i th' htest
      cases h
      obtain ⟨hk, hp, -⟩ := SigThread.killTest_keys htest
      intro u
      by_cases e : u = tid
      · subst e
        rw [setThread_thread_self]
        exact .same (by simp [SigAct.on]) hp hk
      · rw [setThread_thread_of_ne e]
        exact .of_alike (by simp [SigAct.on]) (.refl _)
    · cases h
      exact effects_alike rfl fun u => .refl _

theorem waitDone_effects (h : s.waitDone tid set = (s', act)) : s.Effects s' act := by
  unfold waitDone at h
  split at h
  · cases h
    exact effects_alike rfl fun u => .refl _
  · rename_i node th' htake
    cases h
    obtain ⟨as, bs, hl, hl', hp, hm⟩ := SigThread.waitTake_eq htake
    have hk : (s.thread tid).keys = as.map SiginfoNode.key ++ (node.block, node.si.siSigno) :: bs.map SiginfoNode.key := by
      unfold SigThread.keys
      rw [hl, List.map_append, List.map_cons]
      rfl
    have hk' : th'.keys = as.map SiginfoNode.key ++ bs.map SiginfoNode.key := by
      unfold SigThread.keys
      rw [hl', List.map_append]
    exact effects_setThread rfl (.waited hk hk' hp hm) rfl

theorem rtSignalWait_effects {timeout : Int} (h : s.rtSignalWait tid set timeout = (s', act)) : s.Effects s' act := by
  unfold rtSignalWait at h
  dsimp only at h
  split_ifs at h
  · cases h
    exact effects_alike rfl fun u => .refl _
  · exact waitDone_effects h
  · cases h
    exact effects_alike rfl fun u => .refl _
  · cases h
    have ha : Alike (s.thread tid) { s.thread tid with suspended := true, statSignalWait := true } := ⟨rfl, rfl, rfl⟩
    exact effects_alike rfl (alike_setThread ha)

theorem cont_effects {interrupted : ThreadId} (h : s.cont c interrupted = some (s', act)) : s.Effects s' act := by
  unfold cont at h
  split at h
  · cases h
  · split at h
    all_goals
      cases h
      exact effects_alike rfl fun u => .refl _
  · rename_i tid node fs hfs
    cases h
    have hk : ((s.thread tid).killAppend node).keys = (s.thread tid).keys ++ [(node.block, node.si.siSigno)] := by
      unfold SigThread.keys SigThread.killAppend
      rw [List.map_append]
      rfl
    have heff : Effect tid (s.thread tid) ((s.thread tid).killAppend node) (.appended tid node.si.siSigno) :=
      .appended rfl hk rfl
    exact effects_setThread rfl heff rfl
  · exact Effects.of_alike_left (signalDeliver_effects h) fun u => .refl _
  · split at h
    · cases h
    · rename_i node clean fs hfs tid _
      have ha : Alike (s.thread tid) { s.thread tid with error := .eintr } := ⟨rfl, rfl, rfl⟩
      exact (handleLoop_effects h).of_alike_left (alike_setThread ha)
  · split at h
    · cases h
    · rename_i set fs hfs tid _
      dsimp only at h
      split_ifs at h with he
      · cases h
        have ha : Alike (s.thread tid) { s.thread tid with statSignalWait := false, error := .eok } := ⟨rfl, rfl, rfl⟩
        exact effects_alike rfl (alike_setThread ha)
      · have ha : Alike (s.thread tid) { s.thread tid with statSignalWait := false } := ⟨rfl, rfl, rfl⟩
        exact (waitDone_effects (Option.some.inj h)).of_alike_left (alike_setThread ha)

/-- A step that changes a mask. -/
theorem effects_setMask {g : BitVec 32} (hs : ∀ u, u ≠ tid → s'.thread u = s.thread u)
    (ht : s'.thread tid = { s.thread tid with sigMask := g }) : s.Effects s' .quiet := by
  intro u
  by_cases e : u = tid
  · subst e
    rw [ht]
    exact .same (by simp [SigAct.on]) rfl rfl
  · rw [hs u e]
    exact .of_alike (by simp [SigAct.on]) (.refl _)

/-- The step of the system: what it does to the queues. -/
theorem step_effects {ev : SigEv} (h : s.step ev = some (s', act)) : s.Effects s' act := by
  cases ev with
  | install tid signo handler =>
    unfold step at h
    dsimp only at h
    split_ifs at h
    · cases h
      exact effects_alike rfl (alike_setThread ⟨rfl, rfl, rfl⟩)
    · cases h
      exact effects_alike rfl fun u => .refl _
  | mask tid signo =>
    unfold step at h
    dsimp only at h
    split_ifs at h
    cases h
    exact effects_setMask (fun u hu => setThread_thread_of_ne hu) setThread_thread_self
  | unmask tid signo =>
    unfold step at h
    dsimp only at h
    split_ifs at h
    all_goals
      cases h
    · exact effects_setMask (fun u hu => setThread_thread_of_ne hu) setThread_thread_self
    · exact effects_setMask (fun u hu => setThread_thread_of_ne hu) setThread_thread_self
  | kill c tid sig =>
    unfold step at h
    dsimp only at h
    split_ifs at h
    exact rtThreadKill_effects (Option.some.inj h)
  | wait tid set timeout =>
    unfold step at h
    dsimp only at h
    split_ifs at h
    exact rtSignalWait_effects (Option.some.inj h)
  | handle tid clean =>
    unfold step at h
    dsimp only at h
    split_ifs at h
    have ha : Alike (s.thread tid) { s.thread tid with statSignalPending := false } := ⟨rfl, rfl, rfl⟩
    exact (rtThreadHandleSig_effects h).of_alike_left (alike_setThread ha)
  | cont c interrupted =>
    unfold step at h
    dsimp only at h
    split_ifs at h
    exact cont_effects h
  | suspend tid =>
    cases h
    exact effects_alike rfl (alike_setThread ⟨rfl, rfl, rfl⟩)
  | resume tid error =>
    cases h
    exact effects_alike rfl (alike_setThread ⟨rfl, rfl, rfl⟩)

end Signals

end RtThread
