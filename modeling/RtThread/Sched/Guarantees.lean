import RtThread.Sched.Steps
import RtThread.Kernel.Run

/-!
# What the scheduler guarantees

- `ready_queues`: in every state the kernel reaches, the ready queues hold the ready threads, each in the queue of its
  priority, and the bitmap says which queues are not empty.
- `rtSchedule_strict`: `rt_schedule` leaves a thread running that no ready thread has a higher priority than, and does
  nothing while the scheduler is locked.
-/

namespace RtThread

open Bitmap

namespace Kernel

variable {k k0 k' : Kernel} {ls : List (Ev × Option Ret)}

/-- Before anything happens all lists are empty. -/
theorem Boot.schedInv (h : Boot k) : k.SchedInv none where
  queues :=
    { wf := ⟨fun hd => by simp [h.tlist], fun hm => by simp [h.tlist] at hm⟩
      free := by simp
      ready := fun t p _ => by simp [h.tlist, h.stat]
      wait := fun t hd _ _ hm => by simp [h.tlist] at hm
      defunct := fun t _ hm => by simp [h.tlist] at hm
      masked := fun t hs => absurd (h.stat t) hs
      prio_lt := fun t => by rw [prio, h.currentPriority]; exact h.initPriority_lt t
      init_lt := h.initPriority_lt
      max_le := h.priorityMax_le
      bits := ⟨fun _ i _ => by simp [h.readyPriorityGroup, h.tlist],
        fun _ i _ => by simp [h.readyPriorityGroup, h.readyTable],
        fun _ n i _ => by simp [h.readyTable, h.tlist]⟩ }
  current c _ hc := by simp [h.currentThread] at hc
  running t _ ht := by simp [h.stat] at ht

/-- The scheduler invariant holds in every state a run reaches. -/
theorem KRun.schedInv {ok : Kernel → Ev → Prop} (hr : KRun ok k0 ls k) (hb : Boot k0) : k.SchedInv none :=
  Runs.Run.invariant (I := fun k => k.SchedInv none) hb.schedInv
    (fun _ _ _ h hs => step_schedInv h hs.2.choose_spec) hr

/-! ## The ready queues -/

/-- The bit of priority `p` in the ready bitmap: with two levels, both the bit of its byte and the bit in the byte. -/
def readyBit (k : Kernel) (p : Nat) : Bool :=
  if k.twoLevel then k.readyPriorityGroup.getLsbD (p >>> 3) && (k.readyTable (p >>> 3)).getLsbD (p &&& 7)
  else k.readyPriorityGroup.getLsbD p

/-- The number of priorities the bitmap has bits for. -/
def readyBits (k : Kernel) : Nat := if k.twoLevel then 256 else 32

/-- The bitmap says which queues are not empty. -/
theorem Queues.readyBit_iff (h : k.Queues none) {p : Nat} (hp : p < k.readyBits) :
    k.readyBit p = true ↔ k.tlist (.ready p) ≠ [] := by
  unfold readyBits at hp
  unfold readyBit
  split at hp
  · rename_i h2
    have h2' : k.twoLevel := h2
    have hn : p >>> 3 < 32 := by rw [Nat.shiftRight_eq_div_pow]; omega
    have htable := h.bits.table h2' (p >>> 3) (p &&& 7) (BitsOk.and_seven_lt p)
    simp only [BitsOk.split_priority] at htable
    rw [if_pos h2, Bool.and_eq_true, h.bits.group h2' _ hn, htable, and_iff_right_iff_imp]
    intro hne
    exact (h.bits.table h2' (p >>> 3)).ne_zero_iff.2
      ⟨p &&& 7, BitsOk.and_seven_lt p, by rwa [BitsOk.split_priority]⟩
  · rename_i h2
    rw [if_neg h2]
    exact h.bits.one h2 p hp

/-- In every state reached: a thread is in the queue of priority `p` iff it is ready, not the current thread, and has
priority `p`; it is there once; the bitmap has a bit for each queue that is not empty, and with two levels a bit for
each byte that is not zero. -/
theorem ready_queues (hb : Boot k0) (hr : KRun (fun _ _ => True) k0 ls k) :
    (∀ t p, t ∈ k.tlist (.ready p) ↔
      (k.thread t).stat = .ready ∧ k.currentThread ≠ some t ∧ (k.thread t).currentPriority = p) ∧
    (∀ t p, (k.tlist (.ready p)).count t ≤ 1) ∧
    (∀ p < k.readyBits, (k.readyBit p = true ↔ k.tlist (.ready p) ≠ [])) ∧
    (k.twoLevel → ∀ n < 32, (k.readyPriorityGroup.getLsbD n = true ↔ k.readyTable n ≠ 0#8)) := by
  have h := hr.schedInv hb
  refine ⟨fun t p => ?_, fun t p => List.nodup_iff_count_le_one.1 (h.queues.wf.nodup _) t,
    fun p hp => h.queues.readyBit_iff hp, fun h2 => h.queues.bits.group h2⟩
  rw [h.queues.ready t p (by simp)]
  constructor
  · rintro ⟨hs, hp⟩
    exact ⟨hs, fun hc => (h.current t (by simp) hc).1 hs, hp⟩
  · rintro ⟨hs, -, hp⟩
    exact ⟨hs, hp⟩

/-- Three threads of priority `10`, started, with the last one running. -/
def threeReady : Kernel :=
  after 0 (boot 32 fun _ => 10) [.startup true 0, .startup true 1, .startup true 2, .schedulerStart]

theorem threeReady_run :
    KRun (fun _ _ => True) (boot 32 fun _ => 10)
      (labels 0 (boot 32 fun _ => 10) [.startup true 0, .startup true 1, .startup true 2, .schedulerStart])
      threeReady :=
  KRun.of_exec _ _ _ (by decide) fun _ _ _ => trivial

theorem boot_ten : Boot (boot 32 fun _ => 10) := boot_boot (by decide) fun _ => by decide

theorem ready_queues_threeReady :
    (∀ t p, t ∈ threeReady.tlist (.ready p) ↔
      (threeReady.thread t).stat = .ready ∧ threeReady.currentThread ≠ some t ∧
        (threeReady.thread t).currentPriority = p) ∧
    (∀ t p, (threeReady.tlist (.ready p)).count t ≤ 1) ∧
    (∀ p < threeReady.readyBits, (threeReady.readyBit p = true ↔ threeReady.tlist (.ready p) ≠ [])) ∧
    (threeReady.twoLevel → ∀ n < 32, (threeReady.readyPriorityGroup.getLsbD n = true ↔ threeReady.readyTable n ≠ 0#8)) :=
  ready_queues boot_ten threeReady_run

/-! ## Strict priorities -/

/-- The highest ready priority, and the first thread of its queue. -/
theorem Queues.highest (h : k.Queues none) (hg : k.readyPriorityGroup ≠ 0#32) :
    ∃ hp t, schedulerGetHighestPriorityThread k = (hp, some t) ∧ ∀ q < hp, k.tlist (.ready q) = [] := by
  have key : ∃ hp, (schedulerGetHighestPriorityThread k).1 = hp ∧ k.tlist (.ready hp) ≠ [] ∧
      ∀ q < hp, k.tlist (.ready q) = [] := by
    unfold schedulerGetHighestPriorityThread
    by_cases h2 : k.twoLevel
    · obtain ⟨n, b, hn, hb, hffs, hffs', hne, hlow⟩ := h.bits.highest h2 hg
      refine ⟨8 * n + b, ?_, hne, hlow⟩
      simp only [h2, if_true, hffs, Nat.add_sub_cancel, hffs', Nat.shiftLeft_eq]
      omega
    · obtain ⟨p, hp, hffs, hne, hlow⟩ := rtFfs_marks (by omega) (h.bits.one h2) hg
      rw [BitVec.setWidth_eq] at hffs
      refine ⟨p, ?_, hne, fun q hq => not_not.1 (hlow q hq)⟩
      simp only [h2, if_false, hffs, Nat.add_sub_cancel]
  obtain ⟨hp, hfst, hne, hlow⟩ := key
  obtain ⟨t, ts, hts⟩ := List.exists_cons_of_ne_nil hne
  refine ⟨hp, t, Prod.ext hfst ?_, hlow⟩
  change (k.tlist (.ready (schedulerGetHighestPriorityThread k).1)).head? = some t
  rw [hfst, hts]
  rfl

/-- With no bit set in the bitmap no thread is ready. -/
theorem Queues.not_ready (h : k.Queues none) (hg : k.readyPriorityGroup = 0#32) (u : ThreadId) :
    (k.thread u).stat ≠ .ready := by
  intro hs
  have hmem := (h.ready u (k.prio u) (by simp)).2 ⟨hs, rfl⟩
  have hlt := h.prio_lt u
  have hbit := h.readyBit_iff (p := k.prio u) (by
    unfold readyBits
    have := h.max_le
    split <;> omega)
  rw [iff_true_right (List.ne_nil_of_mem hmem)] at hbit
  simp [readyBit, hg] at hbit

/-- The priority of every ready thread is at least the highest one of the bitmap. -/
theorem Queues.highest_le (h : k.Queues none) {hp : Nat} {t : ThreadId}
    (hh : schedulerGetHighestPriorityThread k = (hp, some t)) (hg : k.readyPriorityGroup ≠ 0#32) {u : ThreadId}
    (hu : (k.thread u).stat = .ready) : hp ≤ k.prio u := by
  obtain ⟨hp', t', hh', hlow⟩ := h.highest hg
  rw [hh] at hh'
  cases hh'
  by_contra hlt
  have := hlow _ (Nat.lt_of_not_le hlt)
  have hmem := (h.ready u (k.prio u) (by simp)).2 ⟨hu, rfl⟩
  rw [this] at hmem
  cases hmem

/-- `rt_schedule` with the scheduler unlocked, from a state with a thread to run. -/
theorem SchedInv.rtSchedule_highest (h : k.SchedInv none) (hl : k.schedulerLockNest = 0#16) {c : ThreadId}
    (hc : k.currentThread = some c) (hrun : (∃ t, (k.thread t).stat = .ready) ∨ (k.thread c).stat = .running) :
    ∃ t, k.rtSchedule.currentThread = some t ∧ (k.rtSchedule.thread t).stat = .running ∧
      ∀ u, (k.rtSchedule.thread u).stat = .ready → k.rtSchedule.prio t ≤ k.rtSchedule.prio u := by
  by_cases hg : k.readyPriorityGroup = 0#32
  · have hnone := h.queues.not_ready hg
    have hrc : (k.thread c).stat = .running := by
      rcases hrun with ⟨t, ht⟩ | hrc
      · exact absurd ht (hnone t)
      · exact hrc
    have e : k.rtSchedule = k := by simp [Kernel.rtSchedule, hg]
    rw [e]
    exact ⟨c, hc, hrc, fun u hu => absurd hu (hnone u)⟩
  · have hle {hp : Nat} {t : ThreadId} (hh : schedulerGetHighestPriorityThread k = (hp, some t)) (u : ThreadId)
        (hu : (k.thread u).stat = .ready) : hp ≤ k.prio u := h.queues.highest_le hh hg hu
    rcases h.rtSchedule_cases with ⟨hno, -⟩ | ⟨c', hp, t, hc', hh, hr, hstay, e⟩ | ⟨c', hp, t, hc', hh, ht, hsw, e⟩
    · obtain ⟨hp, t, hh, -⟩ := h.queues.highest hg
      simp [hl, hg, hc, hh] at hno
    · -- The current thread stays.
      obtain rfl := Option.some.inj (hc'.symm.trans hc)
      have hth : ∀ u, u ≠ c' → k.rtSchedule.thread u = k.thread u := by
        intro u hu
        rw [e, modThread_thread_of_ne hu, rtScheduleRemoveThread_thread, modThread_thread_of_ne hu]
      refine ⟨c', by rw [e]; simpa using hc, by rw [e]; simp, fun u hu => ?_⟩
      have hpc : k.rtSchedule.prio c' = k.prio c' := by rw [e]; simp [prio]
      have huc : u ≠ c' := by
        rintro rfl
        rw [e] at hu
        simp at hu
      rw [hth u huc] at hu
      rw [hpc, prio, prio, hth u huc]
      exact hstay.trans (hle hh u hu)
    · -- The head of the highest queue takes over.
      obtain rfl := Option.some.inj (hc'.symm.trans hc)
      obtain ⟨hts, htp⟩ := h.ready_of_head ht
      have hct : c' ≠ t := by
        rintro rfl
        exact (h.current c' (by simp) hc).1 hts
      set k1 := if (k.thread c').stat = .running then k.modThread c' fun x => { x with statYield := false } else k
        with hk1
      have hstat (u : ThreadId) : (k1.thread u).stat = (k.thread u).stat := by
        rw [hk1]; split
        · exact modThread_part Thread.stat rfl u
        · rfl
      have hprio (u : ThreadId) : (k1.thread u).currentPriority = k.prio u := by
        rw [hk1]; split
        · exact modThread_part Thread.currentPriority rfl u
        · rfl
      have hp' (u : ThreadId) : k.rtSchedule.prio u = k.prio u := by
        rw [e, prio, switchTo_thread _ _ hct, ← hprio]
        by_cases eu : u = t
        · subst eu; rw [Function.update_self]
        · rw [Function.update_of_ne eu]
          split
          · by_cases euc : u = c'
            · subst euc; rw [Function.update_self]
            · rw [Function.update_of_ne euc]
          · rfl
      refine ⟨t, by rw [e, switchTo_currentThread], ?_, fun u hu => ?_⟩
      · rw [e, switchTo_thread _ _ hct, Function.update_self]
      · rw [hp', hp', htp]
        rw [e, switchTo_thread _ _ hct] at hu
        by_cases eu : u = t
        · subst eu; rw [htp]
        · rw [Function.update_of_ne eu] at hu
          by_cases hrc : (k.thread c').stat = .running
          · by_cases euc : u = c'
            · subst euc; exact hsw hrc
            · rw [if_pos (by simpa using hrc), Function.update_of_ne euc, hstat] at hu
              exact hle hh u hu
          · rw [if_neg (by simpa using hrc), hstat] at hu
            exact hle hh u hu

/-- In every state reached: with the scheduler unlocked and a thread to run, `rt_schedule` leaves a thread current that
runs, is in no ready queue, and has the highest priority; with the scheduler locked it changes nothing. -/
theorem rtSchedule_strict (hb : Boot k0) (hr : KRun (fun _ _ => True) k0 ls k) :
    (k.schedulerLockNest ≠ 0#16 → k.rtSchedule = k) ∧
    ∀ c, k.schedulerLockNest = 0#16 → k.currentThread = some c →
      ((∃ t, (k.thread t).stat = .ready) ∨ (k.thread c).stat = .running) →
      ∃ t, k.rtSchedule.currentThread = some t ∧ (k.rtSchedule.thread t).stat = .running ∧
        (∀ p, t ∉ k.rtSchedule.tlist (.ready p)) ∧
        ∀ u, (k.rtSchedule.thread u).stat = .ready →
          (k.rtSchedule.thread t).currentPriority ≤ (k.rtSchedule.thread u).currentPriority := by
  have h := hr.schedInv hb
  refine ⟨fun hl => by simp [rtSchedule, hl], fun c hl hc hrun => ?_⟩
  obtain ⟨t, hcur, hs, hmax⟩ := h.rtSchedule_highest hl hc hrun
  exact ⟨t, hcur, hs, fun p hmem => h.rtSchedule.free_of_running hs _ hmem, hmax⟩

theorem rtSchedule_strict_threeReady :
    ∃ t, threeReady.rtSchedule.currentThread = some t ∧ (threeReady.rtSchedule.thread t).stat = .running ∧
      (∀ p, t ∉ threeReady.rtSchedule.tlist (.ready p)) ∧
      ∀ u, (threeReady.rtSchedule.thread u).stat = .ready →
        (threeReady.rtSchedule.thread t).currentPriority ≤ (threeReady.rtSchedule.thread u).currentPriority :=
  (rtSchedule_strict boot_ten threeReady_run).2 2 (by decide +kernel) (by decide +kernel)
    (.inr (by decide))

end Kernel

end RtThread
