import Mathlib.Data.List.Pairwise
import RtThread.Lib.Runs
import RtThread.Lwp.Futex

/-!
# Runs of futexes

- `futex_run`: while no signal wakes up a thread that is suspended in `sys_futex`, and no wake has a negative number, a
  `FUTEX_WAIT` returns 0 if it was woken, `-RT_ETIMEOUT` if its timer ended, and another error otherwise; a wake resumes as
  many waiting threads as it has to, in order of arrival; and it finds every thread whose value was the expected one;
- `futex_signal_returns_zero`: a thread that a signal wakes up returns 0.
-/

namespace RtThread.Futex

open Function (update)
open Runs (Run)

/-- The result of a `FUTEX_WAIT`, from how the thread got on. -/
def WaitResult (how : FutexEnd) (value : Int) : Prop :=
  match how with
  | .wake => value = RT_EOK
  | .timer => value = -RT_ETIMEOUT
  | .signal | .none => value < 0 ∧ value ≠ -RT_ETIMEOUT

namespace FutexPc

/-- The pcs with the lock. -/
def holds : FutexPc → Bool
  | .lockResumed _ | .locked _ | .block _ | .unlock _ _ => true
  | _ => false

def onLock : FutexPc → Bool
  | .lockWait _ => true
  | _ => false

def onFutex : FutexPc → Bool
  | .wait _ => true
  | _ => false

end FutexPc

namespace FutexPc

variable {pc : FutexPc}

theorem exists_of_onLock (h : pc.onLock = true) : ∃ op, pc = .lockWait op := by
  cases pc with
  | lockWait op => exact ⟨op, rfl⟩
  | _ => cases h

theorem exists_of_onFutex (h : pc.onFutex = true) : ∃ op, pc = .wait op := by
  cases pc with
  | wait op => exact ⟨op, rfl⟩
  | _ => cases h

end FutexPc

/-- What holds of each thread: its timer runs only while it waits with a timeout, and its error is that of its call. -/
def FutexThread.Ok (x : FutexThread) : Prop :=
  match x.pc with
  | .user | .take _ => x.timer = false
  | .lockWait _ | .lockResumed _ | .locked _ => x.timer = false ∧ x.error = RT_EOK
  | .block op => x.timer = false ∧ x.error = RT_EOK ∧ ∃ value timeout, op = .wait value timeout
  | .wait op => x.error = RT_EOK ∧ ∃ value timeout, op = .wait value timeout ∧ (x.timer = true → timeout = true)
  | .resumed op how => x.timer = false ∧ WaitResult how x.error ∧ ∃ value timeout, op = .wait value timeout
  | .unlock _ value => x.timer = false ∧ value < 0 ∧ value ≠ -RT_ETIMEOUT

/-- A timer that ends is that of a waiting thread. -/
theorem FutexThread.Ok.wait_of_timer {x : FutexThread} (h : x.Ok) (ht : x.timer = true) : ∃ op, x.pc = .wait op := by
  rw [FutexThread.Ok] at h
  split at h
  case h_7 op hpc => exact ⟨op, hpc⟩
  all_goals simp [ht] at h

namespace FutexWorld

variable {s s' : FutexWorld} {H H' : Option Nat} {t next : Nat} {x : FutexThread} {op : FutexOp} {how : FutexEnd} {ev : FutexEv}
  {value number : Int} {timeout pending : Bool}

/-- A thread is where its pc says, with the thread that has the lock, and both lists. -/
structure Placed (H : Option Nat) (lockList waitList : List Nat) (t : Nat) (x : FutexThread) : Prop where
  holder : H = some t ↔ x.pc.holds = true
  onLock : t ∈ lockList ↔ x.pc.onLock = true
  onFutex : t ∈ waitList ↔ x.pc.onFutex = true
  ok : x.Ok

theorem placed_update {f : Nat → FutexThread} {ls ls' ws ws' : List Nat} (h : ∀ t, Placed H ls ws t (f t))
    (hx : Placed H' ls' ws' t x) (hH : ∀ t', t' ≠ t → (H' = some t' ↔ H = some t'))
    (hl : ∀ t', t' ≠ t → (t' ∈ ls' ↔ t' ∈ ls)) (hw : ∀ t', t' ≠ t → (t' ∈ ws' ↔ t' ∈ ws)) (t' : Nat) :
    Placed H' ls' ws' t' (update f t x t') := by
  by_cases htt : t' = t
  · subst htt
    rw [Function.update_self]
    exact hx
  · rw [Function.update_of_ne htt]
    obtain ⟨h1, h2, h3, h4⟩ := h t'
    exact ⟨(hH t' htt).trans h1, (hl t' htt).trans h2, (hw t' htt).trans h3, h4⟩

/-- The invariant, with the thread that is at a pc with the lock. -/
structure Core (s : FutexWorld) (H : Option Nat) : Prop where
  placed : ∀ t, Placed H s.lockList s.waitList t (s.thread t)
  lockNodup : s.lockList.Nodup
  waitNodup : s.waitList.Nodup
  free : s.owner = none → s.lockList = []
  hold : s.owner ≠ none → s.hold = 1
  sorted : s.waitList.Pairwise fun a b => s.arrived a < s.arrived b
  arrived : ∀ t ∈ s.waitList, s.arrived t < s.arrivals
  wakes : ∀ n ws ts, (n, ws, ts) ∈ s.wakes → ts <+: ws ∧ (ts.length : Int) = min n ws.length ∧ ws.Pairwise (· < ·)
  returned : ∀ value timeout how v, (.wait value timeout, how, v) ∈ s.returned → WaitResult how v

def Inv (s : FutexWorld) : Prop := Core s s.owner

theorem nodup_append_singleton {xs : List Nat} (h : xs.Nodup) (ht : t ∉ xs) : (xs ++ [t]).Nodup := by
  rw [List.nodup_append]
  refine ⟨h, by simp, fun a ha b hb => ?_⟩
  rintro rfl
  exact ht (List.mem_singleton.1 hb ▸ ha)

theorem mem_append_singleton_of_ne {xs : List Nat} {t' : Nat} (htt : t' ≠ t) : t' ∈ xs ++ [t] ↔ t' ∈ xs := by simp [htt]

namespace Core

/-! ## One thread -/

section

variable (h : Core s H) (hL : x.pc.onLock = (s.thread t).pc.onLock)
  (hF : x.pc.onFutex = (s.thread t).pc.onFutex) (hok : x.Ok)

include h hL hF hok

/-- A thread goes on, with the lock or not, and in no other list than before. -/
theorem move (hH : H' = some t ↔ x.pc.holds = true) (hH' : ∀ t', t' ≠ t → (H' = some t' ↔ H = some t')) :
    Core { s with thread := update s.thread t x } H' :=
  ⟨placed_update h.placed ⟨hH, by rw [hL]; exact (h.placed t).onLock, by rw [hF]; exact (h.placed t).onFutex, hok⟩ hH'
      (fun _ _ => .rfl) fun _ _ => .rfl,
    h.lockNodup, h.waitNodup, h.free, h.hold, h.sorted, h.arrived, h.wakes, h.returned⟩

/-- A thread goes on and keeps the lock, or does not have it. -/
theorem keep (hH : x.pc.holds = (s.thread t).pc.holds) : Core { s with thread := update s.thread t x } H :=
  h.move hL hF hok (by rw [hH]; exact (h.placed t).holder) fun _ _ => .rfl

end

/-- A call returns. -/
theorem log (h : Core s H) (hresult : ∀ expected timeout, op = .wait expected timeout → WaitResult how value) :
    Core { s with returned := (op, how, value) :: s.returned } H := by
  refine ⟨h.placed, h.lockNodup, h.waitNodup, h.free, h.hold, h.sorted, h.arrived, h.wakes, ?_⟩
  intro expected timeout how' v hv
  rcases List.mem_cons.1 hv with heq | hv
  · obtain ⟨hop, rfl, rfl⟩ : FutexOp.wait expected timeout = op ∧ how' = how ∧ v = value := by simpa using heq
    exact hresult expected timeout hop.symm
  · exact h.returned expected timeout how' v hv

/-- A call of a thread in no list returns. -/
theorem ret (h : Core s H) (hL : (s.thread t).pc.onLock = false) (hF : (s.thread t).pc.onFutex = false)
    (htimer : (s.thread t).timer = false) (hH : H' ≠ some t) (hH' : ∀ t', t' ≠ t → (H' = some t' ↔ H = some t'))
    (hresult : ∀ expected timeout, op = .wait expected timeout → WaitResult how value) :
    Core (s.ret t op how value) H' :=
  (h.move (t := t) (x := { s.thread t with pc := .user }) hL.symm hF.symm htimer
    ⟨fun e => absurd e hH, fun e => (nomatch e)⟩ hH').log hresult

/-! ## The lock -/

/-- A thread takes the lock, which nobody has. -/
theorem acquire (h : Core s none) (hL : x.pc.onLock = (s.thread t).pc.onLock)
    (hF : x.pc.onFutex = (s.thread t).pc.onFutex) (hok : x.Ok) (hx : x.pc.holds = true) :
    Inv { s with owner := some t, hold := 1, thread := update s.thread t x } := by
  have h1 : Core { s with owner := some t, hold := 1 } none :=
    ⟨h.placed, h.lockNodup, h.waitNodup, fun e => (nomatch e), fun _ => rfl, h.sorted, h.arrived, h.wakes, h.returned⟩
  exact h1.move hL hF hok ⟨fun _ => hx, fun _ => rfl⟩
    fun t' htt => ⟨fun e => absurd (Option.some.inj e).symm htt, nofun⟩

/-- A thread is suspended on the lock. -/
theorem suspend {ts : List Nat} (h : Core s s.owner) (howner : s.owner ≠ none) (hx : s.thread t = ⟨RT_EOK, false, .take op⟩)
    (hts : ts.Perm (t :: s.lockList)) : Inv ({ s with lockList := ts }.goto t (.lockWait op)) := by
  have hplaced := h.placed t
  rw [hx] at hplaced
  have hnot : t ∉ s.lockList := fun ht => nomatch hplaced.onLock.1 ht
  have hmem (t' : Nat) (htt : t' ≠ t) : t' ∈ ts ↔ t' ∈ s.lockList := by rw [hts.mem_iff, List.mem_cons, or_iff_right htt]
  refine ⟨placed_update h.placed ⟨hplaced.holder, ⟨fun _ => rfl, fun _ => hts.mem_iff.2 List.mem_cons_self⟩,
      hplaced.onFutex, ?_⟩ (fun _ _ => .rfl) hmem fun _ _ => .rfl,
    hts.nodup_iff.2 (List.nodup_cons.2 ⟨hnot, h.lockNodup⟩), h.waitNodup, fun e => absurd e howner, h.hold, h.sorted,
    h.arrived, h.wakes, h.returned⟩
  rw [hx]
  exact ⟨rfl, rfl⟩

/-- The threads that wait for the lock change places. -/
theorem reorder {ts : List Nat} (h : Core s H) (hts : ts.Perm s.lockList) : Core { s with lockList := ts } H :=
  ⟨fun t => ⟨(h.placed t).holder, hts.mem_iff.trans (h.placed t).onLock, (h.placed t).onFutex, (h.placed t).ok⟩,
    hts.nodup_iff.2 h.lockNodup, h.waitNodup, fun e => (h.free e ▸ hts).eq_nil, h.hold, h.sorted, h.arrived, h.wakes,
    h.returned⟩

/-- A thread that is not at a pc with the lock any more releases it, to the first that waits for it. -/
theorem release (h : Core s none) (howner : s.owner = some t) : Inv (s.rtMutexRelease t) := by
  have hhold : s.hold - 1 = 0 := by rw [h.hold (by simp [howner])]
  rw [rtMutexRelease, if_pos howner, if_pos hhold]
  cases hlist : s.lockList with
  | nil =>
    have hplaced := h.placed
    rw [hlist] at hplaced
    exact ⟨hplaced, List.nodup_nil, h.waitNodup, fun _ => rfl, fun e => absurd rfl e, h.sorted, h.arrived, h.wakes, h.returned⟩
  | cons next rest =>
    have hplaced := h.placed
    have hnd := h.lockNodup
    rw [hlist] at hplaced hnd
    have hnext := hplaced next
    obtain ⟨op, hpc⟩ := FutexPc.exists_of_onLock (hnext.onLock.1 List.mem_cons_self)
    have hok := hnext.ok
    rw [FutexThread.Ok, hpc] at hok
    dsimp only
    rw [resume]
    rw [hpc, List.erase_cons_head]
    refine ⟨placed_update hplaced ⟨⟨fun _ => rfl, fun _ => rfl⟩, ?_, ?_, rfl, hok.2⟩ (fun t' htt => ?_) (fun t' htt => ?_)
        fun _ _ => .rfl,
      (List.nodup_cons.1 hnd).2, h.waitNodup, fun e => (nomatch e), fun _ => rfl, h.sorted, h.arrived, h.wakes, h.returned⟩
    · exact ⟨fun e => absurd e (List.nodup_cons.1 hnd).1, nofun⟩
    · rw [hnext.onFutex, hpc]
      exact .rfl
    · exact ⟨fun e => absurd (Option.some.inj e).symm htt, nofun⟩
    · rw [List.mem_cons]
      exact ⟨.inr, fun e => e.resolve_left htt⟩

/-! ## The list of the futex -/

variable {error : Int} {fuel : Nat}

theorem leave_eq (hpc : (s.thread t).pc = .wait op) : (s.setError t error).resume t how =
    { s with waitList := s.waitList.erase t, thread := update s.thread t ⟨error, false, .resumed op how⟩ } := by
  simp [setError, resume, hpc]

/-- A waiting thread gets on. -/
theorem leave (h : Core s H) (hpc : (s.thread t).pc = .wait op) (hresult : WaitResult how error) :
    Core { s with waitList := s.waitList.erase t, thread := update s.thread t ⟨error, false, .resumed op how⟩ } H := by
  have hplaced := h.placed t
  have hok := hplaced.ok
  have hholder := hplaced.holder
  have hlock := hplaced.onLock
  rw [FutexThread.Ok, hpc] at hok
  rw [hpc] at hholder hlock
  obtain ⟨-, expected, timeout, rfl, -⟩ := hok
  refine ⟨placed_update h.placed ⟨hholder, hlock, ?_, rfl, hresult, expected, timeout, rfl⟩ (fun _ _ => .rfl) (fun _ _ => .rfl)
      fun t' htt => ?_,
    h.lockNodup, h.waitNodup.erase t, h.free, h.hold, h.sorted.sublist List.erase_sublist,
    fun t' ht' => h.arrived t' (List.mem_of_mem_erase ht'), h.wakes, h.returned⟩
  · rw [h.waitNodup.mem_erase_iff]
    exact ⟨fun e => absurd rfl e.1, nofun⟩
  · rw [h.waitNodup.mem_erase_iff]
    exact ⟨fun e => e.2, fun e => ⟨htt, e⟩⟩

/-- A thread whose value was the expected one waits. -/
theorem enqueue (h : Core s (some t)) (hpc : (s.thread t).pc = .block (.wait value timeout)) :
    Core { s with
      waitList := s.waitList ++ [t]
      thread := update s.thread t ⟨(s.thread t).error, timeout, .wait (.wait value timeout)⟩
      arrived := update s.arrived t s.arrivals
      arrivals := s.arrivals + 1 } none := by
  have hplaced := h.placed t
  have hok := hplaced.ok
  have hlock := hplaced.onLock
  have hwait := hplaced.onFutex
  rw [FutexThread.Ok, hpc] at hok
  rw [hpc] at hlock hwait
  have hnot : t ∉ s.waitList := fun ht => nomatch hwait.1 ht
  have harrived : ∀ t' ∈ s.waitList, update s.arrived t s.arrivals t' = s.arrived t' := by
    intro t' ht'
    refine Function.update_of_ne ?_ _ _
    rintro rfl
    exact hnot ht'
  refine ⟨placed_update h.placed ⟨⟨fun e => (nomatch e), fun e => (nomatch e)⟩, hlock, by simp [FutexPc.onFutex], hok.2.1, value,
      timeout, rfl, id⟩ (fun t' htt => ?_) (fun _ _ => .rfl) fun _ => mem_append_singleton_of_ne,
    h.lockNodup, nodup_append_singleton h.waitNodup hnot, h.free, h.hold, ?_, fun t' ht' => ?_, h.wakes, h.returned⟩
  · exact ⟨fun e => (nomatch e), fun e => absurd (Option.some.inj e).symm htt⟩
  · refine List.pairwise_append.2 ⟨h.sorted.imp_of_mem ?_, List.pairwise_singleton _ _, ?_⟩
    · intro a b ha hb hab
      dsimp only
      rw [harrived a ha, harrived b hb]
      exact hab
    · intro a ha b hb
      obtain rfl := List.mem_singleton.1 hb
      dsimp only
      rw [harrived a ha, Function.update_self]
      exact h.arrived a ha
  · dsimp only at ht' ⊢
    rcases List.mem_append.1 ht' with ht' | ht'
    · rw [harrived t' ht']
      exact Nat.lt_succ_of_lt (h.arrived t' ht')
    · rw [List.mem_singleton.1 ht', Function.update_self]
      exact Nat.lt_succ_self _

/-- What the loop of `futex_wake` leaves. -/
structure Woken (s s' : FutexWorld) (H : Option Nat) (number : Int) (ts : List Nat) : Prop where
  core : Core s' H
  list : s.waitList = ts ++ s'.waitList
  length : (ts.length : Int) = min number s.waitList.length
  owner : s'.owner = s.owner
  wakes : s'.wakes = s.wakes
  thread : ∀ t, t ∉ s.waitList → s'.thread t = s.thread t

theorem wakeLoop_stop (h : s.waitList = [] ∨ number = 0) : wakeLoop fuel number s = (s, []) := by
  cases fuel with
  | zero => rfl
  | succ fuel =>
    rw [wakeLoop]
    split
    · rfl
    next hlist => rw [if_pos (h.resolve_left (by simp [hlist]))]

theorem wakeLoop_cons {rest : List Nat} (hlist : s.waitList = t :: rest) (hn : number ≠ 0) :
    wakeLoop (fuel + 1) number s = ((wakeLoop fuel (number - 1) ((s.setError t RT_EOK).resume t .wake)).1,
      t :: (wakeLoop fuel (number - 1) ((s.setError t RT_EOK).resume t .wake)).2) := by
  rw [wakeLoop]
  split
  next hnil => simp [hlist] at hnil
  next hcons =>
    obtain ⟨rfl, -⟩ := List.cons.inj (hcons.symm.trans hlist)
    rw [if_neg hn]

theorem wakeLoop_spec (h : Core s H) (hfuel : s.waitList.length ≤ fuel) (hn : 0 ≤ number) :
    Woken s (wakeLoop fuel number s).1 H number (wakeLoop fuel number s).2 := by
  induction fuel generalizing s number with
  | zero =>
    have hnil : s.waitList = [] := List.eq_nil_of_length_eq_zero (Nat.le_zero.1 hfuel)
    exact ⟨h, rfl, by rw [hnil]; exact (Int.min_eq_right hn).symm, rfl, rfl, fun _ _ => rfl⟩
  | succ fuel ih =>
    by_cases hstop : s.waitList = [] ∨ number = 0
    · rw [wakeLoop_stop hstop]
      refine ⟨h, rfl, ?_, rfl, rfl, fun _ _ => rfl⟩
      rcases hstop with hnil | rfl
      · rw [hnil]
        exact (Int.min_eq_right hn).symm
      · exact (Int.min_eq_left (Int.natCast_nonneg _)).symm
    · rw [not_or] at hstop
      obtain ⟨t, rest, hlist⟩ := List.exists_cons_of_ne_nil hstop.1
      obtain ⟨op, hpc⟩ := FutexPc.exists_of_onFutex ((h.placed t).onFutex.1 (by simp [hlist]))
      have hcore := h.leave hpc (show WaitResult .wake RT_EOK from rfl)
      have herase : s.waitList.erase t = rest := by rw [hlist, List.erase_cons_head]
      rw [hlist, List.length_cons] at hfuel
      rw [wakeLoop_cons hlist hstop.2, leave_eq hpc]
      obtain ⟨h1, h2, h3, h4, h5, h6⟩ := ih hcore (by dsimp only; rw [herase]; omega) (show 0 ≤ number - 1 by omega)
      generalize wakeLoop fuel (number - 1) _ = r at h1 h2 h3 h4 h5 h6 ⊢
      dsimp only at h2 h3 h4 h5 h6
      rw [herase] at h2 h3 h6
      refine ⟨h1, ?_, ?_, h4, h5, fun t' ht' => ?_⟩
      · rw [hlist, List.cons_append, ← h2]
      · rw [hlist, List.length_cons, List.length_cons]
        omega
      · rw [hlist, List.mem_cons, not_or] at ht'
        rw [h6 t' ht'.2]
        exact Function.update_of_ne ht'.1 _ _

end Core

/-! ## One step -/

/-- What the contract of futexes says. -/
structure Contract (s : FutexWorld) : Prop where
  returned : ∀ value timeout how v, (.wait value timeout, how, v) ∈ s.returned → WaitResult how v
  /-- The threads that a wake resumed are the first ones of those that waited, in order of arrival. -/
  wakes : ∀ n ws ts, (n, ws, ts) ∈ s.wakes → ts <+: ws ∧ (ts.length : Int) = min n ws.length ∧ ws.Pairwise (· < ·)
  /-- At a wake every thread whose value was the expected one is in the list. -/
  checked : ∀ t n, (s.thread t).pc = .locked (.wake n) → ∀ t' op, (s.thread t').pc = .block op ∨ (s.thread t').pc = .wait op →
    t' ∈ s.waitList

/-- No suspended thread is woken up for a signal, and no wake has a negative number. -/
def Clean (s : FutexWorld) : FutexEv → Prop
  | .signal t => ∀ op, (s.thread t).pc ≠ .lockWait op ∧ (s.thread t).pc ≠ .wait op
  | .wake t => ∀ n, (s.thread t).pc = .locked (.wake n) → 0 ≤ n
  | _ => True

def CleanStep (s : FutexWorld) (ev : FutexEv) (s' : FutexWorld) : Prop := Step s ev s' ∧ Clean s ev

namespace Inv

theorem goto_inv (h : Inv s) {pc pc' : FutexPc} (hpc : (s.thread t).pc = pc) (hL : pc'.onLock = pc.onLock)
    (hF : pc'.onFutex = pc.onFutex) (hH : pc'.holds = pc.holds) (hok : FutexThread.Ok { s.thread t with pc := pc' }) :
    Inv (s.goto t pc') := by
  subst hpc
  exact h.keep hL hF hok hH

/-- A call of a thread without the lock returns. -/
theorem ret_inv (h : Inv s) (hL : (s.thread t).pc.onLock = false) (hF : (s.thread t).pc.onFutex = false)
    (hH : (s.thread t).pc.holds = false) (htimer : (s.thread t).timer = false)
    (hresult : ∀ expected timeout, op = .wait expected timeout → WaitResult how value) : Inv (s.ret t op how value) := by
  refine h.ret hL hF htimer (fun e => ?_) (fun _ _ => .rfl) hresult
  rw [(h.placed t).holder.1 e] at hH
  cases hH

/-- A thread with the lock releases it behind its last step. -/
theorem unlock_inv (h : Inv s) (hL : (s.thread t).pc.onLock = false) (hF : (s.thread t).pc.onFutex = false)
    (hH : (s.thread t).pc.holds = true) (htimer : (s.thread t).timer = false)
    (hresult : ∀ expected timeout, op = .wait expected timeout → WaitResult how value) :
    Inv ((s.ret t op how value).rtMutexRelease t) := by
  have howner := (h.placed t).holder.2 hH
  refine Core.release (h.ret hL hF htimer (fun e => (nomatch e)) (fun t' htt => ?_) hresult) howner
  rw [howner]
  exact ⟨fun e => (nomatch e), fun e => absurd (Option.some.inj e).symm htt⟩

theorem take_inv (h : Inv s) (hpc : (s.thread t).pc = .take op) (place : Nat) :
    Inv (s.rtMutexTake t op pending place) := by
  have hok := (h.placed t).ok
  have hholder := (h.placed t).holder
  rw [FutexThread.Ok, hpc] at hok
  rw [hpc] at hholder
  have h1 : Inv (s.setError t RT_EOK) := by
    refine h.keep rfl rfl ?_ rfl
    rw [FutexThread.Ok, hpc]
    exact hok
  have hx : (s.setError t RT_EOK).thread t = ⟨RT_EOK, false, .take op⟩ := by
    simp [setError, hpc, show (s.thread t).timer = false from hok]
  have howner : (s.setError t RT_EOK).owner = s.owner := rfl
  rw [rtMutexTake]
  generalize s.setError t RT_EOK = s1 at h1 hx howner ⊢
  cases how : s1.owner with
  | none =>
    have h2 : Core s1 none := how ▸ h1
    refine h2.acquire ?_ ?_ ?_ rfl
    · dsimp only
      rw [hx]
      rfl
    · dsimp only
      rw [hx]
      rfl
    · dsimp only
      rw [hx]
      exact ⟨rfl, rfl⟩
  | some self =>
    have hself : self ≠ t := by
      rintro rfl
      rw [howner] at how
      exact nomatch hholder.1 how
    dsimp only
    rw [if_neg hself]
    cases pending with
    | true =>
      refine h1.ret_inv (by rw [hx]; rfl) (by rw [hx]; rfl) (by rw [hx]; rfl) (by rw [hx]) ?_
      exact fun _ _ _ => ⟨by decide, by decide⟩
    | false =>
      have hts : (s1.lockList.take place ++ t :: s1.lockList.drop place).Perm (t :: (s1.lockList.take place ++ _)) :=
        List.perm_middle
      rw [List.take_append_drop] at hts
      have h2 := h1.suspend (by rw [how]; exact Option.some_ne_none _) hx hts
      rw [how] at h2
      exact h2

theorem futexWake_inv (h : Inv s) (hpc : (s.thread t).pc = .locked (.wake number)) (hn : 0 ≤ number) :
    Inv (s.futexWake t number) := by
  have hok := (h.placed t).ok
  rw [FutexThread.Ok, hpc] at hok
  have hnot : t ∉ s.waitList := by
    rw [(h.placed t).onFutex, hpc]
    exact nofun
  have hw := Core.wakeLoop_spec h (Nat.le_refl _) hn
  rw [futexWake]
  generalize wakeLoop s.waitList.length number s = r at hw ⊢
  obtain ⟨h1, h2, h3, h4, h5, h6⟩ := hw
  have hthread := h6 t hnot
  have h7 : Inv { r.1 with wakes := (number, s.waitList.map s.arrived, r.2.map s.arrived) :: s.wakes } := by
    have h1' : Core r.1 r.1.owner := h4 ▸ h1
    refine ⟨h1'.placed, h1'.lockNodup, h1'.waitNodup, h1'.free, h1'.hold, h1'.sorted, h1'.arrived, fun n ws ts hm => ?_, h1'.returned⟩
    rcases List.mem_cons.1 hm with heq | hm
    · obtain ⟨rfl, rfl, rfl⟩ : n = number ∧ ws = s.waitList.map s.arrived ∧ ts = r.2.map s.arrived := by simpa using heq
      refine ⟨?_, by rw [List.length_map, List.length_map]; exact h3, List.pairwise_map.2 h.sorted⟩
      rw [h2, List.map_append]
      exact List.prefix_append _ _
    · exact h.wakes n ws ts hm
  refine h7.unlock_inv ?_ ?_ ?_ ?_ fun _ _ e => nomatch e
  all_goals
    rw [hthread]
  · rw [hpc]
    rfl
  · rw [hpc]
    rfl
  · rw [hpc]
    rfl
  · exact hok.1

theorem cleanStep_inv (h : Inv s) (hs : CleanStep s ev s') : Inv s' := by
  obtain ⟨hs, hclean⟩ := hs
  have hok : ∀ {t : Nat} {pc : FutexPc}, (s.thread t).pc = pc → FutexThread.Ok { s.thread t with pc := pc } := by
    rintro t _ rfl
    exact (h.placed t).ok
  cases hs with
  | store value => exact ⟨h.placed, h.lockNodup, h.waitNodup, h.free, h.hold, h.sorted, h.arrived, h.wakes, h.returned⟩
  | setError error ht =>
    refine h.keep rfl rfl ?_ rfl
    rw [FutexThread.Ok, ht]
    exact hok ht
  | call op ht =>
    have htimer := hok ht
    exact h.goto_inv ht rfl rfl rfl htimer
  | denied ht =>
    exact h.ret_inv (by rw [ht]; rfl) (by rw [ht]; rfl) (by rw [ht]; rfl) (hok ht) fun _ _ _ => ⟨by decide, by decide⟩
  | take pending place ht => exact h.take_inv ht place
  | reorder hts => exact Core.reorder h hts
  | taken ht =>
    have htaken := hok ht
    rw [rtMutexTaken, if_pos htaken.2]
    exact h.goto_inv ht rfl rfl rfl htaken
  | noMemory ht => exact h.goto_inv ht rfl rfl rfl ⟨(hok ht).1, by decide, by decide⟩
  | check ht =>
    rw [check]
    split
    · exact h.goto_inv ht rfl rfl rfl ⟨(hok ht).1, (hok ht).2, _, _, rfl⟩
    · exact h.goto_inv ht rfl rfl rfl ⟨(hok ht).1, by decide, by decide⟩
  | @block t value timeout pending ht =>
    have howner := (h.placed t).holder.2 (by rw [ht]; rfl)
    rw [block]
    split
    · exact h.unlock_inv (by rw [ht]; rfl) (by rw [ht]; rfl) (by rw [ht]; rfl) (hok ht).1 fun _ _ _ => ⟨by decide, by decide⟩
    · exact Core.release (Core.enqueue (howner ▸ h) ht) howner
  | wake ht => exact h.futexWake_inv ht (hclean _ ht)
  | other ht => exact h.goto_inv ht rfl rfl rfl ⟨(hok ht).1, by decide, by decide⟩
  | unlock ht =>
    exact h.unlock_inv (by rw [ht]; rfl) (by rw [ht]; rfl) (by rw [ht]; rfl) (hok ht).1 fun _ _ _ => (hok ht).2
  | @timeout t ht =>
    obtain ⟨op, hpc⟩ := (h.placed t).ok.wait_of_timer ht
    rw [threadTimeout, Core.leave_eq hpc]
    exact h.leave hpc rfl
  | signal t =>
    have heq : s.resume t .signal = s := by
      rw [resume]
      split
      next op hpc => exact absurd hpc (hclean op).1
      next op hpc => exact absurd hpc (hclean op).2
      next => rfl
    rw [heq]
    exact h
  | ret ht =>
    refine h.ret_inv (by rw [ht]; rfl) (by rw [ht]; rfl) (by rw [ht]; rfl) (hok ht).1 fun _ _ _ => (hok ht).2.1

theorem init_inv (word : Int) (error : Nat → Int) : Inv (init word error) := by
  refine ⟨fun t => ⟨?_, ?_, ?_, rfl⟩, List.nodup_nil, List.nodup_nil, fun _ => rfl, fun e => absurd rfl e, .nil, ?_, ?_, ?_⟩
  all_goals simp [init, FutexPc.holds, FutexPc.onLock, FutexPc.onFutex]

theorem contract (h : Inv s) : Contract s := by
  refine ⟨h.returned, h.wakes, fun t n ht t' op ht' => ?_⟩
  have howner := (h.placed t).holder.2 (by rw [ht]; rfl)
  rcases ht' with ht' | ht'
  · -- the lock is held from the comparison to the list
    have howner' := (h.placed t').holder.2 (by rw [ht']; rfl)
    cases howner.symm.trans howner'
    rw [ht] at ht'
    cases ht'
  · rw [(h.placed t').onFutex, ht']
    rfl

end Inv

theorem futex_run {word : Int} {error : Nat → Int} {evs : List FutexEv} (hr : Run CleanStep (init word error) evs s) :
    Contract s :=
  (hr.invariant (Inv.init_inv word error) fun _ _ _ h hs => Inv.cleanStep_inv h hs).contract

theorem clean_wake (ht : (s.thread t).pc = .locked (.wake number)) (hn : 0 ≤ number) : Clean s (.wake t) := by
  intro n hpc
  obtain rfl := FutexOp.wake.inj (FutexPc.locked.inj (ht.symm.trans hpc))
  exact hn

/-- Two threads wait, the second one with a timeout that ends, a third one does not find its value, and a fourth one wakes up
the first. -/
theorem futex_run_four :
    ∃ evs s, Run CleanStep (init 5 fun t => t) evs s ∧
      s.returned = [(.wait 5 false, .wake, 0), (.wake 3, .none, 0), (.wait 5 true, .timer, -2), (.wait 4 false, .none, -9)] ∧
      s.wakes = [(3, [0], [0])] ∧ Contract s := by
  have h1 : Run CleanStep (init 5 fun t => t) ([] ++ [.call 0 (.wait 5 false)]) _ := .snoc .nil ⟨.call _ rfl, trivial⟩
  have h2 : Run CleanStep (init 5 fun t => t) (_ ++ [.take 0 false 0]) _ := h1.snoc ⟨.take _ _ rfl, trivial⟩
  have h3 : Run CleanStep (init 5 fun t => t) (_ ++ [.call 1 (.wait 5 true)]) _ := h2.snoc ⟨.call _ rfl, trivial⟩
  have h4 : Run CleanStep (init 5 fun t => t) (_ ++ [.take 1 false 0]) _ := h3.snoc ⟨.take _ _ rfl, trivial⟩
  have h5 : Run CleanStep (init 5 fun t => t) (_ ++ [.check 0]) _ := h4.snoc ⟨.check rfl, trivial⟩
  have h6 : Run CleanStep (init 5 fun t => t) (_ ++ [.block 0 false]) _ := h5.snoc ⟨.block _ rfl, trivial⟩
  have h7 : Run CleanStep (init 5 fun t => t) (_ ++ [.taken 1]) _ := h6.snoc ⟨.taken rfl, trivial⟩
  have h8 : Run CleanStep (init 5 fun t => t) (_ ++ [.check 1]) _ := h7.snoc ⟨.check rfl, trivial⟩
  have h9 : Run CleanStep (init 5 fun t => t) (_ ++ [.block 1 false]) _ := h8.snoc ⟨.block _ rfl, trivial⟩
  have h10 : Run CleanStep (init 5 fun t => t) (_ ++ [.call 2 (.wait 4 false)]) _ := h9.snoc ⟨.call _ rfl, trivial⟩
  have h11 : Run CleanStep (init 5 fun t => t) (_ ++ [.take 2 false 0]) _ := h10.snoc ⟨.take _ _ rfl, trivial⟩
  have h12 : Run CleanStep (init 5 fun t => t) (_ ++ [.check 2]) _ := h11.snoc ⟨.check rfl, trivial⟩
  have h13 : Run CleanStep (init 5 fun t => t) (_ ++ [.unlock 2]) _ := h12.snoc ⟨.unlock rfl, trivial⟩
  have h14 : Run CleanStep (init 5 fun t => t) (_ ++ [.timeout 1]) _ := h13.snoc ⟨.timeout rfl, trivial⟩
  have h15 : Run CleanStep (init 5 fun t => t) (_ ++ [.ret 1]) _ := h14.snoc ⟨.ret rfl, trivial⟩
  have h16 : Run CleanStep (init 5 fun t => t) (_ ++ [.call 3 (.wake 3)]) _ := h15.snoc ⟨.call _ rfl, trivial⟩
  have h17 : Run CleanStep (init 5 fun t => t) (_ ++ [.take 3 false 0]) _ := h16.snoc ⟨.take _ _ rfl, trivial⟩
  have h18 : Run CleanStep (init 5 fun t => t) (_ ++ [.wake 3]) _ := h17.snoc ⟨.wake rfl, clean_wake rfl (by decide)⟩
  have h19 : Run CleanStep (init 5 fun t => t) (_ ++ [.ret 0]) _ := h18.snoc ⟨.ret rfl, trivial⟩
  exact ⟨_, _, h19, rfl, rfl, futex_run h19⟩

/-- A signal wakes up the thread that waits. -/
theorem futex_signal_returns_zero : ∃ evs s, Run Step (init 5 fun _ => 0) evs s ∧ ¬ Contract s := by
  have h1 : Run Step (init 5 fun _ => 0) ([] ++ [.call 0 (.wait 5 false)]) _ := .snoc .nil (.call _ rfl)
  have h2 : Run Step (init 5 fun _ => 0) (_ ++ [.take 0 false 0]) _ := h1.snoc (.take _ _ rfl)
  have h3 : Run Step (init 5 fun _ => 0) (_ ++ [.check 0]) _ := h2.snoc (.check rfl)
  have h4 : Run Step (init 5 fun _ => 0) (_ ++ [.block 0 false]) _ := h3.snoc (.block _ rfl)
  have h5 : Run Step (init 5 fun _ => 0) (_ ++ [.signal 0]) _ := h4.snoc (.signal 0)
  have h6 : Run Step (init 5 fun _ => 0) (_ ++ [.ret 0]) _ := h5.snoc (.ret rfl)
  refine ⟨_, _, h6, fun h => ?_⟩
  have hresult := h.returned 5 false .signal 0 List.mem_cons_self
  exact absurd hresult.1 (by decide)

end FutexWorld

end RtThread.Futex
