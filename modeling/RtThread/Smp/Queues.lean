import RtThread.Lib.Runs
import RtThread.Sched.Queues
import RtThread.Smp.Scheduler

/-!
# The ready queues of several processors

`Inv`: each family of ready queues, the global one and that of each processor, fits its bitmap, and a thread in a queue is
ready and in the queue of its processor and priority. A function that moves a thread takes it off its queue, changes it, and
puts it into one again; every call keeps the invariant.
-/

namespace RtThread

open Function (update update_of_ne update_self)

open Bitmap

namespace Smp

variable {k k' : Smp} {t u : ThreadId} {c : CpuId} {q : Option CpuId} {p bits : Nat} {f : SmpThread → SmpThread}
  {beyond : Beyond}

/-! ## Fields -/

@[simp] theorem modThread_tlist : (k.modThread t f).tlist = k.tlist := rfl
@[simp] theorem modThread_priorityMax : (k.modThread t f).priorityMax = k.priorityMax := rfl

@[simp] theorem modThread_thread_self : (k.modThread t f).thread t = f (k.thread t) := update_self _ _ _

theorem modThread_thread_of_ne (h : u ≠ t) : (k.modThread t f).thread u = k.thread u := update_of_ne h _ _

theorem insert_thread_of_ne (h : u ≠ t) : (k.rtScheduleInsertThread t).thread u = k.thread u := by
  unfold rtScheduleInsertThread
  split_ifs
  · exact modThread_thread_of_ne h
  · dsimp only
    split_ifs <;> exact update_of_ne h _ _

/-! ## The invariant -/

/-- The ready queues of one family. -/
def queues (k : Smp) (q : Option CpuId) : ListHead → List ThreadId
  | .ready p => k.tlist (q, p)
  | _ => []

/-- The masks of a thread are those of its current priority. -/
def Masked (x : SmpThread) : Prop :=
  x.number = x.currentPriority >>> 3 ∧ x.numberMask = 1#32 <<< (x.currentPriority >>> 3) ∧
    x.highMask = 1#8 <<< (x.currentPriority &&& 0x07)

structure Inv (k : Smp) : Prop where
  wf : Links.Wf k.tlist
  queued : ∀ t h, t ∈ k.tlist h → h = home (k.thread t) ∧ (k.thread t).stat = .ready
  masked : ∀ t, (k.thread t).stat ≠ .init → (k.thread t).stat ≠ .close → Masked (k.thread t)
  prio_lt : ∀ t, (k.thread t).currentPriority < k.priorityMax
  max_le : k.priorityMax ≤ 256
  bits : ∀ q, BitsOk True (k.ready q).group (k.ready q).table (k.queues q)

theorem masked_calcPriorityAttribute (x : SmpThread) : Masked (calcPriorityAttribute x) := ⟨rfl, rfl, rfl⟩

namespace Inv

theorem modCpu (h : k.Inv) (g : RtCpu → RtCpu) : (k.modCpu c g).Inv := ⟨h.wf, h.queued, h.masked, h.prio_lt, h.max_le, h.bits⟩

/-- A thread that is not ready is in no queue. -/
theorem free (h : k.Inv) (hs : (k.thread t).stat ≠ .ready) : Links.Free k.tlist t := fun hd hm => hs (h.queued t hd hm).2

/-- A thread may be written to that is in no queue. -/
theorem modThread_of_free (h : k.Inv) (hf : Links.Free k.tlist t)
    (hm : (f (k.thread t)).stat ≠ .init → (f (k.thread t)).stat ≠ .close → Masked (f (k.thread t)))
    (hp : (f (k.thread t)).currentPriority < k.priorityMax) : (k.modThread t f).Inv where
  wf := h.wf
  queued u hd hu := by
    have e : u ≠ t := by
      rintro rfl
      exact hf hd hu
    rw [modThread_thread_of_ne e]
    exact h.queued u hd hu
  masked u := by
    by_cases e : u = t
    · subst e
      rw [modThread_thread_self]
      exact hm
    · rw [modThread_thread_of_ne e]
      exact h.masked u
  prio_lt u := by
    by_cases e : u = t
    · subst e
      rw [modThread_thread_self]
      exact hp
    · rw [modThread_thread_of_ne e]
      exact h.prio_lt u
  max_le := h.max_le
  bits := h.bits

/-- The part of a thread that the queues depend on. -/
def part (x : SmpThread) : Stat × Nat × Option CpuId × Nat × BitVec 32 × BitVec 8 :=
  (x.stat, x.currentPriority, x.bindCpu, x.number, x.numberMask, x.highMask)

/-- A write that the queues do not see. -/
theorem modThread_congr (h : k.Inv) (hf : part (f (k.thread t)) = part (k.thread t)) : (k.modThread t f).Inv := by
  have hpart : ∀ u, part ((k.modThread t f).thread u) = part (k.thread u) := by
    intro u
    by_cases e : u = t
    · subst e
      rw [modThread_thread_self]
      exact hf
    · rw [modThread_thread_of_ne e]
  simp only [part, Prod.mk.injEq] at hpart
  refine ⟨h.wf, fun u hd hu => ?_, fun u h1 h2 => ?_, fun u => ?_, h.max_le, h.bits⟩
  · obtain ⟨hs, hp, hb, -⟩ := hpart u
    rw [hs]
    unfold home
    rw [hp, hb]
    exact h.queued u hd hu
  · obtain ⟨hs, hp, -, hn, hm, hh⟩ := hpart u
    unfold Masked
    rw [hn, hm, hh, hp]
    rw [hs] at h1 h2
    exact h.masked u h1 h2
  · rw [(hpart u).2.1]
    exact h.prio_lt u

variable {x : SmpThread} {L : Option CpuId × Nat → List ThreadId}

/-- The bitmaps when one ready queue is no longer empty. -/
theorem bits_mark (h : k.Inv) (hm : Masked x)
    (hne : L (home x) ≠ []) (hL : ∀ hd, hd ≠ home x → L hd = k.tlist hd) (q : Option CpuId) :
    BitsOk True (update k.ready x.bindCpu ((k.ready x.bindCpu).mark x) q).group
      (update k.ready x.bindCpu ((k.ready x.bindCpu).mark x) q).table (({ k with tlist := L } : Smp).queues q) := by
  by_cases e : q = x.bindCpu
  · subst e
    rw [update_self]
    unfold ReadyBits.mark
    obtain ⟨hn, hnm, hhm⟩ := hm
    rw [hn, hnm, hhm]
    refine (h.bits _).set_two trivial hne fun p hp => ?_
    exact hL (x.bindCpu, p) fun e => hp (Prod.mk.inj e).2
  · rw [update_of_ne e]
    refine (h.bits q).congr fun p => ?_
    have hsame : L (q, p) = k.tlist (q, p) := hL _ fun e' => e (Prod.mk.inj e').1
    change L (q, p) = [] ↔ k.tlist (q, p) = []
    rw [hsame]

/-- The bitmaps when one ready queue is empty. -/
theorem bits_unmark (h : k.Inv) (hm : Masked x)
    (hnil : L (home x) = []) (hL : ∀ hd, hd ≠ home x → L hd = k.tlist hd) (q : Option CpuId) :
    BitsOk True (update k.ready x.bindCpu ((k.ready x.bindCpu).unmark x) q).group
      (update k.ready x.bindCpu ((k.ready x.bindCpu).unmark x) q).table (({ k with tlist := L } : Smp).queues q) := by
  by_cases e : q = x.bindCpu
  · subst e
    rw [update_self]
    unfold ReadyBits.unmark
    obtain ⟨hn, hnm, hhm⟩ := hm
    dsimp only
    rw [update_self, hn, hnm, hhm]
    refine (h.bits _).clear_two trivial hnil (fun p hp => ?_) rfl
    exact hL (x.bindCpu, p) fun e => hp (Prod.mk.inj e).2
  · rw [update_of_ne e]
    refine (h.bits q).congr fun p => ?_
    have hsame : L (q, p) = k.tlist (q, p) := hL _ fun e' => e (Prod.mk.inj e').1
    change L (q, p) = [] ↔ k.tlist (q, p) = []
    rw [hsame]

/-- A thread that is in no queue is put into its own, at the front or at the end. -/
theorem enqueue (h : k.Inv) (hf : Links.Free k.tlist t) (hs : (k.thread t).stat = .ready) {xs : List ThreadId}
    (hxs : xs.Perm (t :: k.tlist (home (k.thread t)))) :
    ({ k with
      ready := update k.ready (k.thread t).bindCpu ((k.ready (k.thread t).bindCpu).mark (k.thread t))
      tlist := update k.tlist (home (k.thread t)) xs } : Smp).Inv where
  wf := h.wf.update hf hxs
  queued u hd hu := by
    dsimp only at hu ⊢
    by_cases e : hd = home (k.thread t)
    · subst e
      rw [update_self, hxs.mem_iff, List.mem_cons] at hu
      rcases hu with rfl | hu
      · exact ⟨rfl, hs⟩
      · exact h.queued u _ hu
    · rw [update_of_ne e] at hu
      exact h.queued u hd hu
  masked := h.masked
  prio_lt := h.prio_lt
  max_le := h.max_le
  bits := by
    have hm : Masked (k.thread t) := h.masked t (by rw [hs]; simp) (by rw [hs]; simp)
    refine h.bits_mark hm ?_ fun hd e => update_of_ne e _ _
    rw [update_self]
    rintro rfl
    simpa using hxs.length_eq

/-- `rt_schedule_insert_thread`, for a thread that is in no queue. -/
theorem insert (h : k.Inv) (hf : Links.Free k.tlist t) (hm : Masked (k.thread t)) : (k.rtScheduleInsertThread t).Inv := by
  unfold rtScheduleInsertThread
  split_ifs with hcpu
  · exact h.modThread_of_free hf (fun _ _ => hm) (h.prio_lt t)
  · have h1 : (k.modThread t fun x => { x with stat := .ready }).Inv :=
      h.modThread_of_free hf (fun _ _ => hm) (h.prio_lt t)
    have hf1 : Links.Free (k.modThread t fun x => { x with stat := .ready }).tlist t := hf
    have hs1 : ((k.modThread t fun x => { x with stat := .ready }).thread t).stat = .ready := by
      rw [modThread_thread_self]
    generalize k.modThread t (fun x => { x with stat := .ready }) = k1 at h1 hf1 hs1 ⊢
    dsimp only
    split_ifs with hy
    · exact h1.enqueue hf1 hs1 (List.perm_append_singleton _ _)
    · exact h1.enqueue hf1 hs1 (List.Perm.refl _)

/-- `rt_schedule_remove_thread`, for a thread with its masks. -/
theorem remove (h : k.Inv) (hm : Masked (k.thread t)) :
    (k.rtScheduleRemoveThread t).Inv ∧ Links.Free (k.rtScheduleRemoveThread t).tlist t ∧
      (k.rtScheduleRemoveThread t).thread = k.thread ∧ (k.rtScheduleRemoveThread t).priorityMax = k.priorityMax := by
  have hfree : Links.Free (Links.remove k.tlist t) t := Links.free_remove k.tlist t
  have hother : ∀ hd, hd ≠ home (k.thread t) → Links.remove k.tlist t hd = k.tlist hd := fun hd hne =>
    Links.remove_of_notMem fun hmem => hne (h.queued t hd hmem).1
  have hqueued : ∀ u hd, u ∈ Links.remove k.tlist t hd → hd = home (k.thread u) ∧ (k.thread u).stat = .ready :=
    fun u hd hu => h.queued u hd (Links.mem_remove.1 hu).1
  unfold rtScheduleRemoveThread
  dsimp only
  split_ifs with hnil
  · exact ⟨⟨h.wf.remove t, hqueued, h.masked, h.prio_lt, h.max_le, h.bits_unmark hm hnil hother⟩, hfree, rfl, rfl⟩
  · refine ⟨⟨h.wf.remove t, hqueued, h.masked, h.prio_lt, h.max_le, fun q => ?_⟩, hfree, rfl, rfl⟩
    refine (h.bits q).congr fun p => ?_
    change Links.remove k.tlist t (q, p) = [] ↔ k.tlist (q, p) = []
    by_cases e : (q, p) = home (k.thread t)
    · rw [e]
      refine ⟨fun hn => absurd hn hnil, fun hn => ?_⟩
      rw [Links.remove, hn]
      rfl
    · rw [hother _ e]

end Inv

end Smp

end RtThread
