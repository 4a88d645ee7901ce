import RtThread.Sched.Guarantees

/-!
# Time sharing at one priority

What happens when the threads of the highest priority do nothing but give up the processor, by `rt_thread_yield` or
at the end of their time slice. `rt_schedule` clears the YIELD bit before it puts the thread back, so
`rt_schedule_insert_thread` links it at the head of the queue: the first two threads alternate (`Turn.rtSchedule`), and
the others never run. The order is a round robin iff there are exactly two of them (`roundRobin_iff`).
-/

namespace RtThread

namespace Kernel

/-- The current thread `c` runs with priority `p`, `ts` is the queue of that priority, and none is higher. -/
structure Turn (k : Kernel) (p : Nat) (c : ThreadId) (ts : List ThreadId) : Prop where
  inv : k.SchedInv none
  unlocked : k.schedulerLockNest = 0#16
  current : k.currentThread = some c
  running : (k.thread c).stat = .running
  prio : k.prio c = p
  queue : k.tlist (.ready p) = ts
  highest : ∀ q < p, k.tlist (.ready q) = []

/-- A tick of the clock that does not end the time slice of the current thread. -/
def QuietTick (k k' : Kernel) : Prop :=
  k.Step (.tick, none) k' ∧ ∀ c, k.currentThread = some c → (k.thread c).remainingTick ≠ 1#64

/-- The current thread yields, or its time slice ends. -/
def GiveUp (k k' : Kernel) : Prop :=
  k.Step (.yield, none) k' ∨
    (k.Step (.tick, none) k' ∧ ∀ c, k.currentThread = some c → (k.thread c).remainingTick = 1#64)

/-- The turn of one thread: some ticks, then it gives up the processor. -/
def Slice (k k' : Kernel) : Prop := ∃ k1, Relation.ReflTransGen QuietTick k k1 ∧ k1.GiveUp k'

/-- The threads `ts` take turns in a round robin: whoever gives up the processor is put at the tail of the queue, every
`ts.length` turns in a row are those of all of them, each once, and the order repeats. -/
structure RoundRobin (p : Nat) (ts : List ThreadId) (s : Nat → Kernel) : Prop where
  tail : ∀ i c, (s i).currentThread = some c → ((s (i + 1)).tlist (.ready p)).getLast? = some c
  visits : ∀ i, ((List.range ts.length).map fun j => (s (i + j)).currentThread).Perm (ts.map some)
  cyclic : ∀ i, (s (i + ts.length)).currentThread = (s i).currentThread

namespace Turn

variable {k k' : Kernel} {p : Nat} {c b : ThreadId} {ts : List ThreadId}

/-- Writes that leave the scheduling alone leave the turn alone. -/
theorem congr (h : Turn k p c ts) (hth : ∀ u, queuePart (k'.thread u) = queuePart (k.thread u))
    (hl : k'.tlist = k.tlist) (hk : k'.priorityMax = k.priorityMax)
    (hg : k'.readyPriorityGroup = k.readyPriorityGroup) (ht : k'.readyTable = k.readyTable)
    (hc : k'.currentThread = k.currentThread) (hn : k'.schedulerLockNest = k.schedulerLockNest) : Turn k' p c ts where
  inv := h.inv.congr hth hl hk hg ht hc
  unlocked := hn.trans h.unlocked
  current := hc.trans h.current
  running := (congrArg (·.1) (hth c)).trans h.running
  prio := (congrArg (·.2.1) (hth c)).trans h.prio
  queue := by rw [hl]; exact h.queue
  highest q hq := by rw [hl]; exact h.highest q hq

theorem modThread_congr (h : Turn k p c ts) {t : ThreadId} {f : Thread → Thread}
    (hf : queuePart (f (k.thread t)) = queuePart (k.thread t)) : Turn (k.modThread t f) p c ts :=
  h.congr (modThread_part queuePart hf) rfl rfl rfl rfl rfl rfl

/-- The queue of the current thread is the highest one. -/
theorem getHighest (h : Turn k p c (b :: ts)) :
    k.readyPriorityGroup ≠ 0#32 ∧ schedulerGetHighestPriorityThread k = (p, some b) := by
  have hb : b ∈ k.tlist (.ready p) := by simp [h.queue]
  have hg : k.readyPriorityGroup ≠ 0#32 := fun e => h.inv.queues.not_ready e b ((h.inv.queues.ready b p (by simp)).1 hb).1
  obtain ⟨hp, t, hh, hlow⟩ := h.inv.queues.highest hg
  have hhead : (k.tlist (.ready hp)).head? = some t := by
    simp only [schedulerGetHighestPriorityThread, Prod.mk.injEq] at hh
    rw [← hh.1]; exact hh.2
  have e : hp = p := by
    rcases Nat.lt_trichotomy hp p with hlt | heq | hgt
    · rw [h.highest hp hlt] at hhead; cases hhead
    · exact heq
    · rw [hlow p hgt] at hb; cases hb
  subst e
  rw [h.queue] at hhead
  rw [hh, ← hhead]
  exact ⟨hg, rfl⟩

/-- One turn: the head of the queue runs, and the thread that gave up the processor is the new head. -/
theorem rtSchedule (h : Turn k p c (b :: ts)) (hy : (k.thread c).statYield = true) : Turn k.rtSchedule p b (c :: ts) := by
  obtain ⟨hg, hh⟩ := h.getHighest
  have hb : b ∈ k.tlist (.ready p) := by simp [h.queue]
  have hbr := (h.inv.queues.ready b p (by simp)).1 hb
  have hcb : c ≠ b := by
    rintro rfl
    rw [h.running] at hbr
    cases hbr.1
  have hchoice : k.scheduleChoice c p b = (b, true) := by
    unfold scheduleChoice
    rw [if_pos h.running, if_neg (by have := h.prio; omega), if_neg (by simp [hy])]
  set k1 := k.modThread c fun x => { x with statYield := false } with hk1
  have e : k.rtSchedule = k1.switchTo p c b true := by
    simp [Kernel.rtSchedule, h.unlocked, hg, h.current, hh, hchoice, hcb.symm, h.running, hk1]
  have hprio (u : ThreadId) : (k1.switchTo p c b true).prio u = k.prio u := by
    rw [Kernel.prio, switchTo_thread _ _ hcb]
    by_cases eb : u = b
    · subst eb; rw [Function.update_self]; exact modThread_part Thread.currentPriority rfl u
    · rw [Function.update_of_ne eb, if_pos rfl]
      by_cases ec : u = c
      · subst ec; rw [Function.update_self]; exact modThread_part Thread.currentPriority rfl u
      · rw [Function.update_of_ne ec]; exact modThread_part Thread.currentPriority rfl u
  have hlist : (k1.switchTo p c b true).tlist = Links.remove (Links.insertAfter k.tlist (.ready p) c) b := by
    have hp : (k.thread c).currentPriority = p := h.prio
    simp [switchTo, rtScheduleInsertThread_tlist, hcb.symm, hk1, Kernel.prio, hp]
  have hnd := h.inv.queues.wf.nodup (.ready p)
  rw [h.queue, List.nodup_cons] at hnd
  refine ⟨h.inv.rtSchedule, ?_, ?_, ?_, ?_, ?_, fun q hq => ?_⟩
  · rw [e, switchTo_schedulerLockNest]; exact h.unlocked
  · rw [e, switchTo_currentThread]
  · rw [e, switchTo_thread _ _ hcb, Function.update_self]
  · rw [e, hprio]; exact hbr.2
  · rw [e, hlist]
    simp only [Links.remove, Links.insertAfter, Function.update_self, h.queue, ne_eq, decide_not, List.filter_cons,
      hcb, decide_false, Bool.not_false, if_true, decide_true, Bool.not_true, Bool.false_eq_true, if_false]
    congr 1
    refine List.filter_eq_self.2 fun u hu => ?_
    have : u ≠ b := by rintro rfl; exact hnd.1 hu
    simp [this]
  · rw [e, hlist, Links.remove, Links.insertAfter_ne (by simpa using Nat.ne_of_lt hq), h.highest q hq]
    rfl

theorem quietTick (h : Turn k p c ts) (hk : QuietTick k k') : Turn k' p c ts := by
  obtain ⟨⟨fuel, hstep⟩, hne⟩ := hk
  cases hstep
  have hne := hne c h.current
  have hrem : (k.thread c).remainingTick - 1#64 ≠ 0#64 := by
    intro e
    apply hne
    have := congrArg (· + 1#64) e
    simpa using this
  have e : k.rtTickIncrease =
      { k with tick := k.tick + 1#32 }.modThread c fun x => { x with remainingTick := x.remainingTick - 1#64 } := by
    simp [rtTickIncrease, h.current, hrem]
  rw [e]
  have h1 : Turn { k with tick := k.tick + 1#32 } p c ts := h.congr (fun _ => rfl) rfl rfl rfl rfl rfl rfl
  exact modThread_congr h1 rfl

/-- A thread that gives up the processor is put at the head of the queue. -/
theorem giveUp (h : Turn k p c (b :: ts)) (hk : GiveUp k k') : Turn k' p b (c :: ts) := by
  rcases hk with ⟨fuel, hstep⟩ | ⟨⟨fuel, hstep⟩, hrem⟩
  · obtain ⟨t, ht, he⟩ := Option.map_eq_some_iff.1 hstep
    cases he
    obtain rfl := Option.some.inj ((self_eq_some.1 ht).1.symm.trans h.current)
    exact Turn.rtSchedule (h.modThread_congr (t := t)
      (f := fun x => { x with remainingTick := x.initTick, statYield := true }) rfl) (by simp)
  · cases hstep
    have hrem := hrem c h.current
    set k1 : Kernel := { k with tick := k.tick + 1#32 } with hk1
    have e : k.rtTickIncrease =
        ((k1.modThread c fun x => { x with remainingTick := x.remainingTick - 1#64 }).modThread c
          fun x => { x with remainingTick := x.initTick, statYield := true }).rtSchedule := by
      simp [rtTickIncrease, h.current, hrem, hk1]
    rw [e]
    have h1 : Turn k1 p c (b :: ts) := h.congr (fun _ => rfl) rfl rfl rfl rfl rfl rfl
    have h2 := h1.modThread_congr (t := c) (f := fun x => { x with remainingTick := x.remainingTick - 1#64 }) rfl
    exact Turn.rtSchedule (h2.modThread_congr (t := c)
      (f := fun x => { x with remainingTick := x.initTick, statYield := true }) rfl) (by simp)

theorem slice (h : Turn k p c (b :: ts)) (hk : Slice k k') : Turn k' p b (c :: ts) := by
  obtain ⟨k1, hquiet, hgive⟩ := hk
  have h1 : Turn k1 p c (b :: ts) := by
    clear hgive
    induction hquiet with
    | refl => exact h
    | tail _ htick ih => exact ih.quietTick htick
  exact h1.giveUp hgive

/-- The first two threads alternate for ever. -/
theorem alternate {s : Nat → Kernel} (h : Turn (s 0) p c (b :: ts)) (hs : ∀ i, Slice (s i) (s (i + 1))) (i : Nat) :
    Turn (s i) p (if i % 2 = 0 then c else b) ((if i % 2 = 0 then b else c) :: ts) := by
  induction i with
  | zero => exact h
  | succ i ih =>
    have := ih.slice (hs i)
    rcases Nat.mod_two_eq_zero_or_one i with h0 | h1
    · simpa [h0, Nat.add_mod] using this
    · simpa [h1, Nat.add_mod] using this

end Turn

/-- The kernel after the current thread has yielded `i` times, each time to the thread that then yields. -/
def yielding (k : Kernel) : Nat → Kernel
  | 0 => k
  | i + 1 =>
    match (yielding k i).self with
    | none => yielding k i
    | some t => (yielding k i).rtThreadYield t

theorem yielding_cont (k : Kernel) (i : Nat) (u : ThreadId) : ((yielding k i).thread u).cont = (k.thread u).cont := by
  induction i with
  | zero => rfl
  | succ i ih =>
    rw [yielding]
    split
    · exact ih
    · rw [rtThreadYield, rtSchedule_part (g := Thread.cont) (fun _ _ => rfl) fun _ _ => rfl,
        modThread_part Thread.cont rfl]
      exact ih

variable {k : Kernel} {c : ThreadId} {p : Nat} {ts : List ThreadId}

theorem yielding_step {i : Nat} (hc : (yielding k i).self = some c) :
    (yielding k i).Step (.yield, none) (yielding k (i + 1)) :=
  ⟨0, by simp [step, hc, yielding]⟩

/-- Threads that are not inside a kernel call can go on yielding for ever. -/
theorem Turn.slice_yielding {b : ThreadId} (h : Turn k p c (b :: ts))
    (hc : (k.thread c).cont = []) (hb : (k.thread b).cont = []) (i : Nat) : Slice (yielding k i) (yielding k (i + 1)) := by
  have hturn : ∃ c' b', Turn (yielding k i) p c' (b' :: ts) ∧ (k.thread c').cont = [] ∧ (k.thread b').cont = [] := by
    induction i with
    | zero => exact ⟨c, b, h, hc, hb⟩
    | succ i ih =>
      obtain ⟨c', b', h', hc', hb'⟩ := ih
      have hself := self_eq_some.2 ⟨h'.current, (yielding_cont k i c').trans hc'⟩
      exact ⟨b', c', h'.giveUp (.inl (yielding_step hself)), hb', hc'⟩
  obtain ⟨c', b', h', hc', -⟩ := hturn
  have hself := self_eq_some.2 ⟨h'.current, (yielding_cont k i c').trans hc'⟩
  exact ⟨_, .refl, .inl (yielding_step hself)⟩

/-- The order of the turns of `n ≥ 2` threads is a round robin iff `n = 2`. -/
theorem Turn.roundRobin_iff_two {s : Nat → Kernel} (h : Turn (s 0) p c ts)
    (hs : ∀ i, Slice (s i) (s (i + 1))) (h2 : 2 ≤ (c :: ts).length) : RoundRobin p (c :: ts) s ↔ (c :: ts).length = 2 := by
  obtain ⟨b, ts, rfl⟩ : ∃ b ts', ts = b :: ts' := List.exists_cons_of_ne_nil (by rintro rfl; simp at h2)
  have halt := h.alternate hs
  have hcur (i : Nat) : (s i).currentThread = some (if i % 2 = 0 then c else b) := (halt i).current
  constructor
  · intro hrr
    cases ts with
    | nil => rfl
    | cons d ts =>
      -- The third thread is never current.
      exfalso
      have hmem : some d ∈ (c :: b :: d :: ts).map some := by simp
      obtain ⟨j, -, hj⟩ := List.mem_map.1 ((hrr.visits 0).mem_iff.2 hmem)
      have hd : d ∈ (s 0).tlist (.ready p) := by simp [h.queue]
      have hnd := h.inv.queues.wf.nodup (.ready p)
      rw [h.queue] at hnd
      have hdb : d ≠ b := by rintro rfl; simp at hnd
      have hdc : d ≠ c := by rintro rfl; exact h.inv.free_of_running h.running _ hd
      rw [hcur] at hj
      split at hj
      · exact hdc (Option.some.inj hj).symm
      · exact hdb (Option.some.inj hj).symm
  · intro hlen
    obtain rfl : ts = [] := by simpa using hlen
    refine ⟨fun i c' hc' => ?_, fun i => ?_, fun i => ?_⟩
    · rw [(halt (i + 1)).queue]
      rw [hcur] at hc'
      cases hc'
      rcases Nat.mod_two_eq_zero_or_one i with h0 | h1
      · simp [h0, Nat.add_mod]
      · simp [h1, Nat.add_mod]
    · simp only [List.length_cons, List.length_nil, List.range_succ, List.range_zero, List.nil_append,
        List.cons_append, List.map_cons, List.map_nil, hcur]
      rcases Nat.mod_two_eq_zero_or_one i with h0 | h1
      · simp [h0, Nat.add_mod]
      · simp [h1, Nat.add_mod, List.Perm.swap]
    · rw [hcur, hcur]
      simp

/-- From every state reached in which the current thread runs, the scheduler is unlocked, and the threads of the queue
of its priority `p`, `n` of them with the current one, are the only ready ones of priority `p` or higher: if these
threads do nothing but give up the processor, they take turns in a round robin iff `n = 2`. -/
theorem roundRobin_iff {k0 : Kernel} {ls : List (Ev × Option Ret)} {s : Nat → Kernel} {p n : Nat} {c : ThreadId}
    {ts : List ThreadId} (hb : Boot k0) (hr : KRun (fun _ _ => True) k0 ls (s 0))
    (hlock : (s 0).schedulerLockNest = 0#16) (hcur : (s 0).currentThread = some c)
    (hrun : ((s 0).thread c).stat = .running) (hp : ((s 0).thread c).currentPriority = p)
    (hq : (s 0).tlist (.ready p) = ts) (hhigh : ∀ q < p, (s 0).tlist (.ready q) = [])
    (hs : ∀ i, Slice (s i) (s (i + 1))) (hn : (c :: ts).length = n) (h2 : 2 ≤ n) :
    RoundRobin p (c :: ts) s ↔ n = 2 := by
  subst hn
  exact Turn.roundRobin_iff_two ⟨hr.schedInv hb, hlock, hcur, hrun, hp, hq, hhigh⟩ hs h2

theorem threeReady_turn :
    Turn threeReady 10 2 [1, 0] ∧ (threeReady.thread 2).cont = [] ∧ (threeReady.thread 1).cont = [] := by
  refine ⟨⟨threeReady_run.schedInv boot_ten, ?_, ?_, ?_, ?_, ?_, ?_⟩, ?_, ?_⟩
  all_goals decide +kernel

theorem threeReady_slice (i : Nat) : Slice (yielding threeReady i) (yielding threeReady (i + 1)) :=
  threeReady_turn.1.slice_yielding threeReady_turn.2.1 threeReady_turn.2.2 i

theorem roundRobin_iff_threeReady : RoundRobin 10 [2, 1, 0] (yielding threeReady) ↔ 3 = 2 :=
  roundRobin_iff boot_ten threeReady_run threeReady_turn.1.unlocked threeReady_turn.1.current threeReady_turn.1.running
    threeReady_turn.1.prio threeReady_turn.1.queue threeReady_turn.1.highest threeReady_slice rfl (by decide)

/-- Three threads that only yield do not take turns in a round robin. -/
theorem not_roundRobin_threeReady :
    ¬∀ (k0 : Kernel) (ls : List (Ev × Option Ret)) (s : Nat → Kernel) (p n : Nat) (c : ThreadId) (ts : List ThreadId),
      Boot k0 → KRun (fun _ _ => True) k0 ls (s 0) → (s 0).schedulerLockNest = 0#16 →
      (s 0).currentThread = some c → ((s 0).thread c).stat = .running → ((s 0).thread c).currentPriority = p →
      (s 0).tlist (.ready p) = ts → (∀ q < p, (s 0).tlist (.ready q) = []) → (∀ i, Slice (s i) (s (i + 1))) →
      (c :: ts).length = n → 2 ≤ n → RoundRobin p (c :: ts) s := by
  intro h
  have hrr := h _ _ (yielding threeReady) 10 3 2 [1, 0] boot_ten threeReady_run threeReady_turn.1.unlocked
    threeReady_turn.1.current threeReady_turn.1.running threeReady_turn.1.prio threeReady_turn.1.queue threeReady_turn.1.highest
    threeReady_slice rfl (by decide)
  -- The thread that yielded is at the head of the queue.
  have htail := hrr.tail 0 2 threeReady_turn.1.current
  rw [(threeReady_turn.1.slice (threeReady_slice 0)).queue] at htail
  exact absurd htail (by decide)

end Kernel

end RtThread
