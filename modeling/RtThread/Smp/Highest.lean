import RtThread.Smp.Queues

/-!
# The highest ready thread of several processors

An empty priority group makes `__rt_ffs(group) - 1` wrap around. The priority computed from it is larger than any other, so
the thread that is chosen is right; but the wrapped number has then been used as an index of the ready table.
-/

namespace RtThread

open Bitmap

namespace Smp

variable {k k' : Smp} {t : ThreadId} {c : CpuId} {q : Option CpuId} {bits : Nat} {beyond : Beyond}

/-! ## One family of queues -/

/-- The index is one of the table if and only if the group is not empty. -/
theorem number_lt_iff (hbits : 32 ≤ bits) (b : ReadyBits) : b.number bits < 32 ↔ b.group ≠ 0#32 := by
  have hpow : 2 ^ 32 ≤ 2 ^ bits := Nat.pow_le_pow_right (by decide) hbits
  unfold ReadyBits.number
  constructor
  · rintro h e
    have hzero : rtFfs 0#32 = 0 := rfl
    rw [e, hzero, Nat.zero_add, Nat.mod_eq_of_lt (by omega)] at h
    omega
  · intro h
    obtain ⟨n, hn, hffs, -⟩ := rtFfs_spec h
    have he : n + 1 + (2 ^ bits - 1) = n + 2 ^ bits := by omega
    rw [hffs, he, Nat.add_mod_right, Nat.mod_eq_of_lt (by omega)]
    exact hn

theorem rtFfs_byte_le (x : BitVec 8) : rtFfs (x.setWidth 32) ≤ 8 := by
  by_cases hx : x = 0#8
  · have hzero : rtFfs ((0#8).setWidth 32) = 0 := rfl
    rw [hx, hzero]
    exact Nat.zero_le 8
  · have hmarks : Marks x fun i => x.getLsbD i = true := fun _ _ => Iff.rfl
    obtain ⟨i, hi, hffs, -⟩ := rtFfs_marks (by decide) hmarks hx
    omega

/-- With an empty group the priority that is computed is none of the table. -/
theorem highest_of_empty (hbits : 32 ≤ bits) {b : ReadyBits} (h : b.group = 0#32) (x : BitVec 8) :
    256 ≤ b.highest bits x := by
  have hpow : 2 ^ 32 ≤ 2 ^ bits := Nat.pow_le_pow_right (by decide) hbits
  have hzero : rtFfs 0#32 = 0 := rfl
  have hnum : b.number bits = 2 ^ bits - 1 := by
    unfold ReadyBits.number
    rw [h, hzero, Nat.zero_add, Nat.mod_eq_of_lt (by omega)]
  have hle := rtFfs_byte_le (b.read x (b.number bits))
  unfold ReadyBits.highest
  generalize rtFfs ((b.read x (b.number bits)).setWidth 32) = f at hle ⊢
  have he : ((2 ^ bits - 1) <<< 3) + f + (2 ^ bits - 1) = (2 ^ bits - 9 + f) + 2 ^ bits * 8 := by
    omega
  rw [hnum, he, Nat.add_mul_mod_self_left, Nat.mod_eq_of_lt (by omega)]
  omega

/-- With a group that is not empty, it is the first queue that is not empty. -/
theorem Inv.highest (h : k.Inv) (hbits : 32 ≤ bits) (hg : (k.ready q).group ≠ 0#32) (x : BitVec 8) :
    (k.ready q).highest bits x < 256 ∧ k.tlist (q, (k.ready q).highest bits x) ≠ [] ∧
      ∀ p < (k.ready q).highest bits x, k.tlist (q, p) = [] := by
  have hpow : 2 ^ 32 ≤ 2 ^ bits := Nat.pow_le_pow_right (by decide) hbits
  obtain ⟨n, b, hn, hb, hffs, hffs', hne, hlow⟩ := (h.bits q).highest trivial hg
  have hnum : (k.ready q).number bits = n := by
    unfold ReadyBits.number
    have he : n + 1 + (2 ^ bits - 1) = n + 2 ^ bits := by omega
    rw [hffs, he, Nat.add_mod_right, Nat.mod_eq_of_lt (by omega)]
  have hhigh : (k.ready q).highest bits x = 8 * n + b := by
    unfold ReadyBits.highest ReadyBits.read
    have he : (n <<< 3) + (b + 1) + (2 ^ bits - 1) = 8 * n + b + 2 ^ bits := by
      omega
    rw [hnum, if_pos hn, hffs', he, Nat.add_mod_right, Nat.mod_eq_of_lt (by omega)]
  rw [hhigh]
  exact ⟨by omega, hne, hlow⟩

/-- With an empty group, no thread is ready there. -/
theorem Inv.queue_nil (h : k.Inv) (hg : (k.ready q).group = 0#32) (p : Nat) : k.tlist (q, p) = [] := by
  by_contra hne
  obtain ⟨t, ts, hts⟩ := List.exists_cons_of_ne_nil hne
  have hhome := (h.queued t (q, p) (hts ▸ List.mem_cons_self)).1
  have hp : p = (k.thread t).currentPriority := (Prod.mk.inj hhome).2
  have hlt := h.prio_lt t
  have hmax := h.max_le
  exact hne ((h.bits q).queue_nil trivial hg (by omega))

/-! ## The choice -/

/-- The thread is the first of the highest queue that is not empty, of the processor's own where there are two. -/
def Picks (k : Smp) (c : CpuId) (r : Nat × Option ThreadId) : Prop :=
  (∃ t, r.2 = some t ∧ ((k.tlist (some c, r.1)).head? = some t ∨
      k.tlist (some c, r.1) = [] ∧ (k.tlist (none, r.1)).head? = some t)) ∧
    ∀ p < r.1, k.tlist (some c, p) = [] ∧ k.tlist (none, p) = []

/-- Both tables are read at one of their entries. -/
def InTables (bits : Nat) (k : Smp) (c : CpuId) : Prop :=
  (k.ready none).number bits < 32 ∧ (k.ready (some c)).number bits < 32

theorem exists_head {L : List ThreadId} (h : L ≠ []) : ∃ t, L.head? = some t := by
  obtain ⟨t, ts, rfl⟩ := List.exists_cons_of_ne_nil h
  exact ⟨t, rfl⟩

theorem Inv.picks (h : k.Inv) (hbits : 32 ≤ bits) (beyond : Beyond)
    (hg : (k.ready none).group ≠ 0#32 ∨ (k.ready (some c)).group ≠ 0#32) :
    k.Picks c (k.schedulerGetHighestPriorityThread bits beyond c) := by
  unfold schedulerGetHighestPriorityThread
  dsimp only
  by_cases hglobal : (k.ready none).group = 0#32
  · obtain ⟨hlt, hne, hlow⟩ := h.highest hbits (hg.resolve_left (not_not.2 hglobal)) beyond.2
    have hge := highest_of_empty hbits hglobal beyond.1
    obtain ⟨t, ht⟩ := exists_head hne
    rw [if_neg (by omega)]
    exact ⟨⟨t, ht, Or.inl ht⟩, fun p hp => ⟨hlow p hp, h.queue_nil hglobal p⟩⟩
  · obtain ⟨hlt, hne, hlow⟩ := h.highest hbits hglobal beyond.1
    by_cases hlocal : (k.ready (some c)).group = 0#32
    · have hge := highest_of_empty hbits hlocal beyond.2
      obtain ⟨t, ht⟩ := exists_head hne
      rw [if_pos (by omega)]
      exact ⟨⟨t, ht, Or.inr ⟨h.queue_nil hlocal _, ht⟩⟩, fun p hp => ⟨h.queue_nil hlocal p, hlow p hp⟩⟩
    · obtain ⟨hlt', hne', hlow'⟩ := h.highest hbits hlocal beyond.2
      split_ifs with hcmp
      · obtain ⟨t, ht⟩ := exists_head hne
        exact ⟨⟨t, ht, Or.inr ⟨hlow' _ hcmp, ht⟩⟩, fun p hp => ⟨hlow' p (hp.trans hcmp), hlow p hp⟩⟩
      · obtain ⟨t, ht⟩ := exists_head hne'
        exact ⟨⟨t, ht, Or.inl ht⟩, fun p hp => ⟨hlow' p hp, hlow p (hp.trans_le (not_lt.1 hcmp))⟩⟩

/-- The thread that is picked is in its queue. -/
theorem Picks.ready {p : Nat} (h : k.Inv) (hp : k.Picks c (p, some t)) : (k.thread t).stat = .ready := by
  obtain ⟨⟨u, hu, hhead⟩, -⟩ := hp
  obtain rfl : t = u := Option.some.inj hu
  rcases hhead with hhead | ⟨-, hhead⟩
  · exact (h.queued t _ (List.mem_of_head? hhead)).2
  · exact (h.queued t _ (List.mem_of_head? hhead)).2

/-! ## Calls -/

namespace Inv

theorem resume (h : k.Inv) (t : ThreadId) : (k.rtThreadResume t).Inv := by
  unfold rtThreadResume
  split_ifs with hs
  · have hready : (k.thread t).stat ≠ .ready := by
      intro e
      rw [e] at hs
      cases hs
    have hm : Masked (k.thread t) := h.masked t (fun e => by rw [e] at hs; cases hs) fun e => by rw [e] at hs; cases hs
    have hf := h.free hready
    rw [Links.remove_of_free hf]
    exact h.insert hf hm
  · exact h

theorem startup (h : k.Inv) (hr : k.rtThreadStartup t = some k') : k'.Inv := by
  unfold rtThreadStartup at hr
  split_ifs at hr with hs
  cases hr
  have hf : Links.Free k.tlist t := h.free (by rw [hs]; simp)
  apply Inv.resume
  exact h.modThread_of_free hf (fun _ _ => masked_calcPriorityAttribute _) (h.prio_lt t)

theorem suspend (h : k.Inv) (t : ThreadId) (flag : SuspendFlag) : (k.rtThreadSuspendWithFlag t flag).Inv := by
  unfold rtThreadSuspendWithFlag
  split_ifs with hs
  · have hm : Masked (k.thread t) := h.masked t (fun e => by simp [e] at hs) fun e => by simp [e] at hs
    obtain ⟨h1, hf, hth, hmax⟩ := h.remove hm
    refine h1.modThread_of_free hf (fun _ _ => ?_) ?_
    · rw [hth]
      exact hm
    · rw [hth, hmax]
      exact h.prio_lt t
  · exact h

theorem close (h : k.Inv) (t : ThreadId) : (k.threadClose t).Inv := by
  unfold threadClose
  split_ifs with hc hi
  · exact h
  · dsimp only
    exact h.modThread_of_free (h.free (by rw [hi]; simp)) (fun _ hne => absurd rfl hne) (h.prio_lt t)
  · obtain ⟨h1, hf, hth, hmax⟩ := h.remove (h.masked t hi hc)
    refine h1.modThread_of_free hf (fun _ hne => absurd rfl hne) ?_
    rw [hth, hmax]
    exact h.prio_lt t

/-- A thread that is ready is taken out of its queue, changed, and put into one again. -/
theorem requeue {f : SmpThread → SmpThread} (h : k.Inv) (hs : (k.thread t).stat = .ready)
    (hm : Masked (f (k.thread t))) (hp : (f (k.thread t)).currentPriority < k.priorityMax) :
    (((k.rtScheduleRemoveThread t).modThread t f).rtScheduleInsertThread t).Inv := by
  have hm0 : Masked (k.thread t) := h.masked t (by rw [hs]; simp) (by rw [hs]; simp)
  obtain ⟨h1, hf, hth, hmax⟩ := h.remove hm0
  have h2 : ((k.rtScheduleRemoveThread t).modThread t f).Inv := by
    refine h1.modThread_of_free hf (fun _ _ => ?_) ?_
    · rw [hth]
      exact hm
    · rw [hth, hmax]
      exact hp
  refine h2.insert hf ?_
  rw [modThread_thread_self, hth]
  exact hm

theorem changePriority {p : Nat} (h : k.Inv) (hp : p < k.priorityMax) : (k.changePriority t p).Inv := by
  unfold Smp.changePriority
  split_ifs with hs
  · exact h.requeue hs (masked_calcPriorityAttribute _) hp
  · exact h.modThread_of_free (h.free hs) (fun _ _ => masked_calcPriorityAttribute _) hp

theorem bind {cpu : CpuId} (h : k.Inv) : (k.rtThreadCpuBind t cpu).Inv := by
  unfold rtThreadCpuBind
  generalize (if cpu ≥ k.cpusNr then none else some cpu : Option CpuId) = b
  split_ifs with hs
  · exact h.requeue hs (show Masked (k.thread t) from h.masked t (by rw [hs]; simp) (by rw [hs]; simp)) (h.prio_lt t)
  · exact h.modThread_of_free (h.free hs) (h.masked t) (h.prio_lt t)

/-- What `rt_schedule` does with the current thread. -/
theorem scheduleChoice (h : k.Inv) (hto : (k.thread t).stat = .ready) (c0 : ThreadId) (hp : Nat) :
    (k.scheduleChoice c c0 hp t).1.Inv ∧
      ((k.scheduleChoice c c0 hp t).2 = c0 ∨ (k.scheduleChoice c c0 hp t).2 = t ∧
        (t ≠ c0 → ((k.scheduleChoice c c0 hp t).1.thread t).stat = .ready)) := by
  have h1 : (k.modThread c0 fun x => { x with oncpu := none }).Inv := h.modThread_congr rfl
  have hstat : t ≠ c0 → ((k.modThread c0 fun x => { x with oncpu := none }).thread t).stat = .ready := by
    intro hne
    rw [modThread_thread_of_ne hne]
    exact hto
  unfold Smp.scheduleChoice
  generalize k.modThread c0 (fun x => { x with oncpu := none }) = k1 at h1 hstat ⊢
  have hyield : ∀ k2 : Smp, k2.Inv → (k2.modThread c0 fun x => { x with statYield := false }).Inv := fun k2 h2 =>
    h2.modThread_congr rfl
  have hother : ∀ k2 : Smp, t ≠ c0 → (k2.thread t).stat = .ready →
      ((k2.modThread c0 fun x => { x with statYield := false }).thread t).stat = .ready := fun k2 hne hs => by
    rw [modThread_thread_of_ne hne]
    exact hs
  by_cases hrun : (k1.thread c0).stat = .running
  · rw [if_pos hrun]
    have hm : Masked (k1.thread c0) := h1.masked c0 (by rw [hrun]; simp) (by rw [hrun]; simp)
    have hins : (k1.rtScheduleInsertThread c0).Inv := h1.insert (h1.free (by rw [hrun]; simp)) hm
    have hins' : t ≠ c0 → ((k1.rtScheduleInsertThread c0).thread t).stat = .ready := by
      intro hne
      rw [insert_thread_of_ne hne]
      exact hstat hne
    split_ifs
    · exact ⟨hyield k1 h1, Or.inl rfl⟩
    · exact ⟨hyield k1 h1, Or.inl rfl⟩
    · exact ⟨hyield _ hins, Or.inr ⟨rfl, fun hne => hother _ hne (hins' hne)⟩⟩
    · exact ⟨hyield _ hins, Or.inr ⟨rfl, fun hne => hother _ hne (hins' hne)⟩⟩
  · rw [if_neg hrun]
    exact ⟨h1, Or.inr ⟨rfl, hstat⟩⟩

theorem run_thread (h : k.Inv) (hs : (k.thread t).stat = .ready) (f : SmpThread → SmpThread)
    (hf : ∀ x, (f x).currentPriority = x.currentPriority ∧ (f x).number = x.number ∧ (f x).numberMask = x.numberMask ∧
      (f x).highMask = x.highMask) : ((k.rtScheduleRemoveThread t).modThread t f).Inv := by
  have hm : Masked (k.thread t) := h.masked t (by rw [hs]; simp) (by rw [hs]; simp)
  obtain ⟨h1, hfree, hth, hmax⟩ := h.remove hm
  obtain ⟨hp, hn, hnm, hhm⟩ := hf (k.thread t)
  refine h1.modThread_of_free hfree (fun _ _ => ?_) ?_
  · rw [hth]
    unfold Masked
    rw [hp, hn, hnm, hhm]
    exact hm
  · rw [hth, hmax, hp]
    exact h.prio_lt t

theorem switchTo (h : k.Inv) {c0 : ThreadId} {hp : Nat} (hs : t = c0 ∨ (k.thread t).stat = .ready) :
    (k.switchTo c c0 hp t).Inv := by
  have h1 : (k.modThread t fun x => { x with oncpu := some c }).Inv := h.modThread_congr rfl
  have hs1 : t = c0 ∨ ((k.modThread t fun x => { x with oncpu := some c }).thread t).stat = .ready := by
    rw [modThread_thread_self]
    exact hs
  unfold Smp.switchTo
  generalize k.modThread t (fun x => { x with oncpu := some c }) = k1 at h1 hs1 ⊢
  split_ifs with he
  · exact h1
  · exact (h1.modCpu _).run_thread (hs1.resolve_left he) _ fun x => ⟨rfl, rfl, rfl, rfl⟩

theorem reschedule (c : CpuId) (beyond : Beyond) (h : k.Inv) (hbits : 32 ≤ bits) (c0 : ThreadId) :
    (k.reschedule bits beyond c c0).Inv := by
  unfold Smp.reschedule
  split_ifs with hg
  · have hpick := h.picks (c := c) hbits beyond hg
    generalize k.schedulerGetHighestPriorityThread bits beyond c = r at hpick ⊢
    rcases r with ⟨hp, _ | t⟩
    · exact h
    · have hready := hpick.ready h
      obtain ⟨h1, hnext⟩ := h.scheduleChoice (c := c) hready c0 hp
      apply h1.switchTo
      rcases hnext with he | ⟨he, hs⟩
      · exact Or.inl he
      · rw [he]
        by_cases ht : t = c0
        · exact Or.inl ht
        · exact Or.inr (hs ht)
  · exact h

section

variable (h : k.Inv) (hbits : 32 ≤ bits)

include h hbits

theorem schedule : (k.rtSchedule bits beyond c).Inv := by
  unfold rtSchedule
  split_ifs with hirq
  · exact h.modCpu _
  · split
    · split_ifs
      · exact h.reschedule _ _ hbits _
      · exact h
    · exact h

theorem irqSwitch : (k.rtSchedulerDoIrqSwitch bits beyond c).Inv := by
  unfold rtSchedulerDoIrqSwitch
  split
  · next c0 _ =>
    split_ifs with hcond
    · have h1 := (h.modCpu (c := c) fun p => { p with irqSwitchFlag := false }).reschedule c beyond hbits c0
      dsimp only
      split_ifs
      · exact h1
      · exact h1.modThread_congr rfl
    · exact h
  · exact h

theorem start (hg : (k.ready none).group ≠ 0#32 ∨ (k.ready (some c)).group ≠ 0#32)
    (hr : k.rtSystemSchedulerStart bits beyond c = some k') : k'.Inv := by
  have hpick := h.picks (c := c) hbits beyond hg
  unfold rtSystemSchedulerStart at hr
  generalize k.schedulerGetHighestPriorityThread bits beyond c = r at hpick hr
  rcases r with ⟨hp, _ | t⟩
  · cases hr
  · have h1 : (k.modThread t fun x => { x with oncpu := some c }).Inv := h.modThread_congr rfl
    have hs1 : ((k.modThread t fun x => { x with oncpu := some c }).thread t).stat = .ready := by
      rw [modThread_thread_self]
      exact hpick.ready h
    cases hr
    exact (h1.run_thread hs1 (fun x => { x with stat := .running, statYield := false })
      fun x => ⟨rfl, rfl, rfl, rfl⟩).modCpu _

/-- Any call keeps the invariant. -/
theorem step {x : Call} (hr : k.call bits x = some k') : k'.Inv := by
  cases x with
  | start c beyond =>
    dsimp only [call] at hr
    split_ifs at hr with hc
    exact h.start hbits hc.2 hr
  | schedule c beyond =>
    cases hr
    exact h.schedule hbits
  | irqSwitch c beyond =>
    cases hr
    exact h.irqSwitch hbits
  | startup t => exact h.startup hr
  | resume t =>
    cases hr
    exact h.resume t
  | suspend t flag =>
    cases hr
    exact h.suspend t flag
  | close t =>
    cases hr
    exact h.close t
  | changePriority t p =>
    dsimp only [call] at hr
    split_ifs at hr with hp
    cases hr
    exact h.changePriority hp
  | bind t cpu =>
    cases hr
    exact h.bind
  | yield t =>
    cases hr
    exact h.modThread_congr rfl
  | lockNest t n =>
    cases hr
    exact h.modThread_congr rfl
  | irqNest c n =>
    cases hr
    exact h.modCpu _

end

end Inv

/-! ## Runs -/

/-- Before the first thread is started: all queues are empty, and `rt_thread_init` has set the priorities. -/
structure Boot (k : Smp) : Prop where
  tlist : ∀ hd, k.tlist hd = []
  ready : ∀ q, (k.ready q).group = 0#32 ∧ ∀ n, (k.ready q).table n = 0#8
  stat : ∀ t, (k.thread t).stat = .init
  prio_lt : ∀ t, (k.thread t).currentPriority < k.priorityMax
  lt_max : 32 < k.priorityMax
  max_le : k.priorityMax ≤ 256

theorem Boot.inv (h : k.Boot) : k.Inv where
  wf := ⟨fun hd => by simp [h.tlist], fun hm => by simp [h.tlist] at hm⟩
  queued t hd hm := by simp [h.tlist] at hm
  masked t hs := absurd (h.stat t) hs
  prio_lt := h.prio_lt
  max_le := h.max_le
  bits q := by
    obtain ⟨hg, ht⟩ := h.ready q
    have hnil : ∀ p, k.queues q (.ready p) = [] := fun p => h.tlist (q, p)
    refine ⟨fun hn => absurd trivial hn, fun _ n hn => ?_, fun _ n b hb => ?_⟩
    · simp [hg, ht]
    · simp [ht, hnil]

def Step (bits : Nat) (k : Smp) (x : Call) (k' : Smp) : Prop := k.call bits x = some k'

/-- In every state that is reached, on a processor that has a thread to choose, the thread that is chosen is the first of
the highest queue; and the tables are read at their entries if and only if neither group is empty. -/
theorem highest_iff {k0 : Smp} {ls : List Call} (h0 : k0.Boot) (hbits : 32 ≤ bits) (hr : Runs.Run (Step bits) k0 ls k)
    (c : CpuId) (hg : (k.ready none).group ≠ 0#32 ∨ (k.ready (some c)).group ≠ 0#32) (beyond : Beyond) :
    k.Picks c (k.schedulerGetHighestPriorityThread bits beyond c) ∧
      (InTables bits k c ∧ k.Picks c (k.schedulerGetHighestPriorityThread bits beyond c) ↔
        (k.ready none).group ≠ 0#32 ∧ (k.ready (some c)).group ≠ 0#32) := by
  have h : k.Inv := hr.invariant h0.inv fun k x k' h hs => h.step hbits hs
  have hp := h.picks (c := c) hbits beyond hg
  refine ⟨hp, ?_⟩
  rw [and_iff_left hp]
  exact and_congr (number_lt_iff hbits _) (number_lt_iff hbits _)

/-- Two processors, and threads of priority 10. -/
def twoCpus : Smp :=
  { cpusNr := 2
    priorityMax := 64
    thread := fun _ => ⟨.init, false, 10, 0, 0#32, 0#8, none, none, 0⟩
    cpu := fun _ => ⟨none, 0, false, 63⟩
    ready := fun _ => ⟨0#32, fun _ => 0#8⟩
    tlist := fun _ => [] }

theorem boot_twoCpus : Boot twoCpus :=
  ⟨fun _ => rfl, fun _ => ⟨rfl, fun _ => rfl⟩, fun _ => rfl, fun _ => (show 10 < 64 by decide), by decide, by decide⟩

/-- A thread runs on processor 0, a second one is bound to it, and a third one may run anywhere. -/
theorem highest_iff_twoCpus :
    ∃ k, Runs.Run (Step 32) twoCpus [.startup 0, .start 0 (0#8, 0#8), .bind 1 0, .startup 1, .startup 2] k ∧
      k.Picks 0 (k.schedulerGetHighestPriorityThread 32 (0#8, 0#8) 0) ∧
      (InTables 32 k 0 ∧ k.Picks 0 (k.schedulerGetHighestPriorityThread 32 (0#8, 0#8) 0) ↔
        (k.ready none).group ≠ 0#32 ∧ (k.ready (some 0)).group ≠ 0#32) := by
  obtain ⟨k, hr, hg⟩ := Runs.Run.of_foldlM (f := call 32) (s := twoCpus)
    (P := fun k : Smp => (k.ready none).group ≠ 0#32)
    [.startup 0, .start 0 (0#8, 0#8), .bind 1 0, .startup 1, .startup 2] (by decide)
  exact ⟨k, hr, highest_iff boot_twoCpus (by decide) hr 0 (Or.inl hg) (0#8, 0#8)⟩

/-- In every state that is reached: a thread in a queue is ready, it is there once, and the queue is the one of its processor
and priority; and the bitmaps of every family say which of its queues are not empty. -/
theorem smp_ready_queues {k0 : Smp} {ls : List Call} (h0 : k0.Boot) (hbits : 32 ≤ bits) (hr : Runs.Run (Step bits) k0 ls k) :
    (∀ t hd, t ∈ k.tlist hd → hd = home (k.thread t) ∧ (k.thread t).stat = .ready) ∧ (∀ t hd, (k.tlist hd).count t ≤ 1) ∧
    ∀ q, (∀ n < 32, ((k.ready q).group.getLsbD n = true ↔ (k.ready q).table n ≠ 0#8)) ∧
      ∀ n, ∀ b < 8, (((k.ready q).table n).getLsbD b = true ↔ k.tlist (q, 8 * n + b) ≠ []) := by
  have h : k.Inv := hr.invariant h0.inv fun k x k' h hs => h.step hbits hs
  exact ⟨h.queued, fun t hd => List.nodup_iff_count_le_one.1 (h.wf.nodup hd) t,
    fun q => ⟨(h.bits q).group trivial, (h.bits q).table trivial⟩⟩

theorem smp_ready_queues_twoCpus :
    ∃ k, Runs.Run (Step 32) twoCpus [.startup 0, .start 0 (0#8, 0#8), .bind 1 0, .startup 1, .startup 2] k ∧
      1 ∈ k.tlist (some 0, 10) ∧ (some 0, 10) = home (k.thread 1) := by
  obtain ⟨k, hr, hm⟩ := Runs.Run.of_foldlM (f := call 32) (s := twoCpus) (P := fun k : Smp => 1 ∈ k.tlist (some 0, 10))
    [.startup 0, .start 0 (0#8, 0#8), .bind 1 0, .startup 1, .startup 2] (by decide)
  exact ⟨k, hr, hm, ((smp_ready_queues boot_twoCpus (by decide) hr).1 1 _ hm).1⟩

/-- A thread runs on processor 0, and a second one that may run anywhere is ready: the processor's own group is empty, and
its table is read at the largest `rt_ubase_t`. -/
theorem highest_outOfTable :
    ∃ k, Runs.Run (Step 32) twoCpus [.startup 0, .start 0 (0#8, 0#8), .startup 1, .lockNest 0 1] k ∧
      (k.cpu 0).irqNest = 0 ∧ (k.cpu 0).currentThread = some 0 ∧ (k.thread 0).schedulerLockNest = 1 ∧
      (k.ready none).group ≠ 0#32 ∧ (k.ready (some 0)).number 32 = 2 ^ 32 - 1 ∧ ¬InTables 32 k 0 := by
  obtain ⟨k, hr, h1, h2, h3, h4, h5⟩ := Runs.Run.of_foldlM (f := call 32) (s := twoCpus)
    (P := fun k : Smp => (k.cpu 0).irqNest = 0 ∧ (k.cpu 0).currentThread = some 0 ∧
      (k.thread 0).schedulerLockNest = 1 ∧ (k.ready none).group ≠ 0#32 ∧ (k.ready (some 0)).number 32 = 2 ^ 32 - 1)
    [.startup 0, .start 0 (0#8, 0#8), .startup 1, .lockNest 0 1] (by decide)
  refine ⟨k, hr, h1, h2, h3, h4, h5, fun hin => ?_⟩
  have hlt := hin.2
  rw [h5] at hlt
  exact absurd hlt (by decide)

end Smp

end RtThread
