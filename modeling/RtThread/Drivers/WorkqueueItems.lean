import RtThread.Drivers.WorkqueueSteps

/-!
# Where the work items are

The flags, the timer and the queue of a work item say in which list it is (`Consistent`). An item that is submitted to run
now while it is delayed, one that is put before the others without being submitted, one that is cancelled before its timer is
started, and one that is cancelled while its timer has expired break this, and nothing else does (`workqueue_items`). `Items`
is the invariant.
-/

namespace RtThread.WorkqueueState

/-- The timer of `w` is started or about to be, or it has expired and the handler is not through. -/
def TimerActive (s : WorkqueueState) (w : Nat) : Prop :=
  (s.work w).timer.activated = true ∨ w ∈ s.starting ∨ s.timerThread = .expired w ∨ ∃ q, s.timerThread = .handling w q

structure Consistent (s : WorkqueueState) : Prop where
  lists : Intrusive.Sound s.list
  pending : ∀ w, (s.work w).pending = true ↔ ∃ q, w ∈ s.list (.workList q)
  delayed : ∀ w q, w ∈ s.list (.delayedList q) ↔
    (s.work w).submitting = true ∧ TimerActive s w ∧ (s.work w).workqueue = some q
  timer : ∀ w, (s.work w).timer.activated = true → (s.work w).submitting = true
  handler : ∀ w, s.timerThread = .expired w → (s.work w).workqueue ≠ none

/-- No item is submitted to run now while it is delayed, none is urgent that is not pending, none is delayed no longer when its
timer is started, and none is cancelled whose timer has expired. -/
def Calm (s : WorkqueueState) : WorkEv → Prop
  | .dowork _ w | .submit _ w 0 => (s.work w).submitting = false
  | .urgent _ w => (s.work w).pending = true
  | .startTimer w => (s.work w).submitting = true
  | .cancel _ w | .cancelFirst _ w | .syncCancel _ w => s.timerThread ≠ .expired w
  | _ => True

/-- What is known of one item. -/
structure Item (s : WorkqueueState) (w : Nat) : Prop where
  pending : (s.work w).pending = true ↔ ∃ q, w ∈ s.list (.workList q)
  delayed : (s.work w).submitting = true ↔ ∃ q, w ∈ s.list (.delayedList q)
  workqueue : ∀ q, w ∈ s.list (.delayedList q) → (s.work w).workqueue = some q
  active : (s.work w).submitting = true → TimerActive s w
  isTimer : (s.work w).timer.isTimer = (s.work w).submitting
  activated : (s.work w).timer.activated = true → (s.work w).submitting = true
  expired : s.timerThread = .expired w → (s.work w).submitting = true

structure Items (s : WorkqueueState) : Prop where
  lists : Intrusive.Sound s.list
  item : ∀ w, Item s w

/-- Nothing has changed for the item. -/
structure Unmoved (s s' : WorkqueueState) (w : Nat) : Prop where
  list : ∀ l, w ∈ s'.list l ↔ w ∈ s.list l
  work : s'.work w = s.work w
  starting : w ∈ s'.starting ↔ w ∈ s.starting
  expired : s'.timerThread = .expired w ↔ s.timerThread = .expired w
  handling : ∀ q, s'.timerThread = .handling w q ↔ s.timerThread = .handling w q

variable {s s' : WorkqueueState} {q w v t : Nat} {l l' : WorkList}

/-! ## Items that a step does not move -/

theorem Unmoved.timerActive (h : Unmoved s s' w) : TimerActive s' w ↔ TimerActive s w := by
  simp only [TimerActive, h.work, h.starting, h.expired, h.handling]

theorem Unmoved.item (h : Unmoved s s' w) (hi : Item s w) : Item s' w where
  pending := by simpa only [h.work, h.list] using hi.pending
  delayed := by simpa only [h.work, h.list] using hi.delayed
  workqueue q := by simpa only [h.work, h.list] using hi.workqueue q
  active := by simpa only [h.work, h.timerActive] using hi.active
  isTimer := by simpa only [h.work] using hi.isTimer
  activated := by simpa only [h.work] using hi.activated
  expired := by simpa only [h.work, h.expired] using hi.expired

theorem SameItems.unmoved (h : SameItems s s') : Unmoved s s' w where
  list l := by rw [h.list]
  work := by rw [h.work]
  starting := by rw [h.starting]
  expired := by rw [h.timerThread]
  handling q := by rw [h.timerThread]

theorem SameItems.items (h : SameItems s s') (hi : Items s) : Items s' where
  lists := by rw [h.list]; exact hi.lists
  item w := h.unmoved.item (hi.item w)

section

variable (h : MovedTo s s' w l) (hs : Intrusive.Sound s.list)

include h hs

theorem MovedTo.mem : v ∈ s'.list l' ↔ v ≠ w ∧ v ∈ s.list l' ∨ v = w ∧ l' = l := by
  obtain ⟨xs, heq, hp⟩ := h
  rw [heq]
  exact hs.mem_move hp

theorem MovedTo.mem_self : w ∈ s'.list l' ↔ l' = l := by
  simp [h.mem hs]

theorem MovedTo.mem_of_ne (hv : v ≠ w) : v ∈ s'.list l' ↔ v ∈ s.list l' := by
  simp [h.mem hs, hv]

theorem MovedTo.sound : Intrusive.Sound s'.list := by
  obtain ⟨xs, heq, hp⟩ := h
  rw [heq]
  exact hs.move hp

end

theorem mem_remove_of_ne (h : s'.list = Intrusive.remove w s.list) (hs : Intrusive.Sound s.list) (hv : v ≠ w) :
    v ∈ s'.list l ↔ v ∈ s.list l := by
  rw [h, hs.mem_remove, and_iff_right hv]

theorem not_mem_remove_self (h : s'.list = Intrusive.remove w s.list) (hs : Intrusive.Sound s.list) : w ∉ s'.list l := by
  rw [h]
  exact hs.not_mem_remove

theorem update_work_of_ne {x : RtWork} (h : s'.work = Function.update s.work w x) (hv : v ≠ w) : s'.work v = s.work v := by
  rw [h, Function.update_of_ne hv]

theorem update_work_self {x : RtWork} (h : s'.work = Function.update s.work w x) : s'.work w = x := by
  rw [h, Function.update_self]

/-- The items other than the one that a step is about. -/
theorem unmoved_of_same (hlist : ∀ l, v ∈ s'.list l ↔ v ∈ s.list l) (hwork : s'.work v = s.work v)
    (hstarting : s'.starting = s.starting) (htimer : s'.timerThread = s.timerThread) : Unmoved s s' v where
  list := hlist
  work := hwork
  starting := by rw [hstarting]
  expired := by rw [htimer]
  handling q := by rw [htimer]

theorem Queued.unmoved (h : Queued s q w s') (hs : Intrusive.Sound s.list) (hv : v ≠ w) : Unmoved s s' v :=
  unmoved_of_same (fun _ => h.list.mem_of_ne hs hv) (update_work_of_ne h.work hv) h.starting h.timerThread

theorem Urgent.unmoved (h : Urgent s q w s') (hs : Intrusive.Sound s.list) (hv : v ≠ w) : Unmoved s s' v :=
  unmoved_of_same (fun _ => h.list.mem_of_ne hs hv) (by rw [h.work]) h.starting h.timerThread

theorem Cancelled.unmoved (h : Cancelled s w s') (hs : Intrusive.Sound s.list) (hv : v ≠ w) : Unmoved s s' v :=
  unmoved_of_same (fun _ => mem_remove_of_ne h.list hs hv) (update_work_of_ne h.work hv) h.starting h.timerThread

theorem Taken.unmoved (h : Taken s q w s') (hs : Intrusive.Sound s.list) (hv : v ≠ w) : Unmoved s s' v :=
  unmoved_of_same (fun _ => mem_remove_of_ne h.list hs hv) (update_work_of_ne h.work hv) h.starting h.timerThread

theorem Delayed.unmoved (h : Delayed s q w s') (hs : Intrusive.Sound s.list) (hv : v ≠ w) : Unmoved s s' v where
  list _ := h.list.mem_of_ne hs hv
  work := update_work_of_ne h.work hv
  starting := by simp [h.starting, hv]
  expired := by rw [h.timerThread]
  handling q := by rw [h.timerThread]

theorem Started.unmoved (h : Started s w s') (hv : v ≠ w) : Unmoved s s' v where
  list l := by rw [h.list]
  work := update_work_of_ne h.work hv
  starting := by rw [h.starting, List.mem_erase_of_ne hv]
  expired := by rw [h.timerThread]
  handling q := by rw [h.timerThread]

theorem Expired.unmoved (h : Expired s w s') (hv : v ≠ w) : Unmoved s s' v where
  list l := by rw [h.list]
  work := update_work_of_ne h.work hv
  starting := by rw [h.starting]
  expired := by simp [h.timerThread, h.idle, hv.symm]
  handling q := by simp [h.timerThread, h.idle]

theorem Read.unmoved (h : Read s w q s') (hv : v ≠ w) : Unmoved s s' v where
  list l := by rw [h.list]
  work := by rw [h.work]
  starting := by rw [h.starting]
  expired := by simp [h.timerThread, h.expired, hv.symm]
  handling q := by simp [h.timerThread, h.expired, hv.symm]

theorem Handled.mem_of_ne (h : Handled s w q s') (hs : Intrusive.Sound s.list) (hv : v ≠ w) :
    v ∈ s'.list l ↔ v ∈ s.list l := by
  rcases h.list with ⟨-, hm⟩ | ⟨-, hr⟩
  · exact hm.mem_of_ne hs hv
  · exact mem_remove_of_ne hr hs hv

theorem Handled.unmoved (h : Handled s w q s') (hstage : s.timerThread = .handling w q) (hs : Intrusive.Sound s.list)
    (hv : v ≠ w) : Unmoved s s' v where
  list l := h.mem_of_ne hs hv
  work := update_work_of_ne h.work hv
  starting := by rw [h.starting]
  expired := by simp [h.timerThread, hstage]
  handling q := by simp [h.timerThread, hstage, hv.symm]

/-! ## The item that a step is about -/

theorem Queued.item (h : Queued s q w s') (hs : Intrusive.Sound s.list) (hi : Item s w)
    (hcalm : (s.work w).submitting = false) : Item s' w := by
  have hwork := update_work_self h.work
  have hmem {l} : w ∈ s'.list l ↔ l = .workList q := h.list.mem_self hs
  constructor
  · simp [hwork, hmem]
  · simp [hwork, hmem, hcalm]
  · intro q' hq
    simp [hmem] at hq
  · simp [hwork, hcalm]
  · simpa only [hwork] using hi.isTimer
  · simpa only [hwork] using hi.activated
  · simpa only [hwork, h.timerThread] using hi.expired

theorem Urgent.item (h : Urgent s q w s') (hs : Intrusive.Sound s.list) (hi : Item s w)
    (hcalm : (s.work w).pending = true) : Item s' w := by
  have hmem {l} : w ∈ s'.list l ↔ l = .workList q := h.list.mem_self hs
  have hsub : (s.work w).submitting = false := by
    obtain ⟨q1, h1⟩ := hi.pending.1 hcalm
    rw [Bool.eq_false_iff]
    intro hsub
    obtain ⟨q2, h2⟩ := hi.delayed.1 hsub
    cases hs.one h1 h2
  constructor
  · simp [h.work, hmem, hcalm]
  · simp [h.work, hmem, hsub]
  · intro q' hq
    simp [hmem] at hq
  · simp [h.work, hsub]
  · simpa only [h.work] using hi.isTimer
  · simpa only [h.work] using hi.activated
  · simpa only [h.work, h.timerThread] using hi.expired

theorem Delayed.item (h : Delayed s q w s') (hs : Intrusive.Sound s.list) : Item s' w := by
  have hwork := update_work_self h.work
  have hmem {l} : w ∈ s'.list l ↔ l = .delayedList q := h.list.mem_self hs
  constructor
  · simp [hwork, hmem]
  · simp [hwork, hmem]
  · intro q' hq
    obtain rfl : q' = q := by simpa [hmem] using hq
    rw [hwork]
  · intro _
    exact .inr (.inl (by simp [h.starting]))
  · rw [hwork]
  · simp [hwork]
  · simp [hwork]

theorem Cancelled.item (h : Cancelled s w s') (hs : Intrusive.Sound s.list) (hi : Item s w)
    (hcalm : s.timerThread ≠ .expired w) : Item s' w := by
  have hwork := update_work_self h.work
  have hmem {l} : w ∉ s'.list l := not_mem_remove_self h.list hs
  have htimer : (s'.work w).timer.isTimer = false := by
    have := hi.isTimer
    rw [hwork]
    split
    · rfl
    · rename_i hsub
      rw [this]
      simpa using hsub
  constructor
  · simp [hwork, hmem]
  · simp [hwork, hmem]
  · intro q hq
    exact absurd hq hmem
  · simp [hwork]
  · rw [htimer, hwork]
  · intro hact
    rw [hwork] at hact
    split at hact
    · cases hact
    · rename_i hsub
      exact absurd (hi.activated hact) hsub
  · intro hexp
    exact absurd (h.timerThread ▸ hexp) hcalm

theorem Taken.item (h : Taken s q w s') (hs : Intrusive.Sound s.list) (hi : Item s w) : Item s' w := by
  have hwork := update_work_self h.work
  have hmem {l} : w ∉ s'.list l := not_mem_remove_self h.list hs
  have hsub : (s.work w).submitting = false := by
    rw [Bool.eq_false_iff]
    intro hsub
    obtain ⟨q2, h2⟩ := hi.delayed.1 hsub
    cases hs.one h.mem h2
  constructor
  · simp [hwork, hmem]
  · simp [hwork, hmem, hsub]
  · intro q' hq
    exact absurd hq hmem
  · simp [hwork, hsub]
  · simpa only [hwork] using hi.isTimer
  · simpa only [hwork] using hi.activated
  · simpa only [hwork, h.timerThread] using hi.expired

theorem Started.item (h : Started s w s') (hi : Item s w) (hsub : (s.work w).submitting = true) : Item s' w := by
  have hwork := update_work_self h.work
  constructor
  · simpa only [hwork, h.list] using hi.pending
  · simpa only [hwork, h.list] using hi.delayed
  · simpa only [hwork, h.list] using hi.workqueue
  · intro _
    exact .inl (by rw [hwork])
  · simpa only [hwork] using hi.isTimer
  · simp [hwork, hsub]
  · simp [hwork, hsub]

theorem Expired.item (h : Expired s w s') (hi : Item s w) : Item s' w := by
  have hwork := update_work_self h.work
  have hsub : (s.work w).submitting = true := hi.activated h.activated
  constructor
  · simpa only [hwork, h.list] using hi.pending
  · simpa only [hwork, h.list] using hi.delayed
  · simpa only [hwork, h.list] using hi.workqueue
  · intro _
    exact .inr (.inr (.inl h.timerThread))
  · simpa only [hwork] using hi.isTimer
  · simp [hwork]
  · simp [hwork, hsub]

theorem Read.item (h : Read s w q s') (hi : Item s w) : Item s' w := by
  constructor
  · simpa only [h.work, h.list] using hi.pending
  · simpa only [h.work, h.list] using hi.delayed
  · simpa only [h.work, h.list] using hi.workqueue
  · intro _
    exact .inr (.inr (.inr ⟨q, h.timerThread⟩))
  · simpa only [h.work] using hi.isTimer
  · simpa only [h.work] using hi.activated
  · simp [h.timerThread]

theorem Handled.item (h : Handled s w q s') (hs : Intrusive.Sound s.list) (hi : Item s w) : Item s' w := by
  have hwork := update_work_self h.work
  have hpending : (s.work w).pending = false := by
    rw [Bool.eq_false_iff]
    intro hp
    obtain ⟨q1, h1⟩ := hi.pending.1 hp
    obtain ⟨q2, h2⟩ := hi.delayed.1 (by rw [← hi.isTimer, h.isTimer])
    cases hs.one h1 h2
  have hsub : (s'.work w).submitting = false := by rw [hwork]
  rcases h.list with ⟨hcur, hm⟩ | ⟨hcur, hr⟩
  · have hmem {l} : w ∈ s'.list l ↔ l = .workList q := hm.mem_self hs
    constructor
    · simp [hwork, hmem, hcur]
    · simp [hwork, hmem]
    · intro q' hq
      simp [hmem] at hq
    · simp [hsub]
    · rw [hwork]
    · simp [hwork]
    · simp [h.timerThread]
  · have hmem {l} : w ∉ s'.list l := not_mem_remove_self hr hs
    constructor
    · simp [hwork, hmem, hcur, hpending]
    · simp [hwork, hmem]
    · intro q' hq
      exact absurd hq hmem
    · simp [hsub]
    · rw [hwork]
    · simp [hwork]
    · simp [h.timerThread]

/-! ## Runs -/

theorem items_of {w : Nat} (hlists : Intrusive.Sound s'.list) (hitem : Item s' w) (hi : Items s)
    (hothers : ∀ v, v ≠ w → Unmoved s s' v) : Items s' where
  lists := hlists
  item v := by
    by_cases hv : v = w
    · rw [hv]
      exact hitem
    · exact (hothers v hv).item (hi.item v)

theorem remove_sound (h : s'.list = Intrusive.remove w s.list) (hs : Intrusive.Sound s.list) : Intrusive.Sound s'.list := by
  rw [h]
  exact hs.remove

theorem Queued.items (h : Queued s q w s') (hi : Items s) (hcalm : (s.work w).submitting = false) : Items s' :=
  items_of (h.list.sound hi.lists) (h.item hi.lists (hi.item w) hcalm) hi fun _ hv => h.unmoved hi.lists hv

theorem Cancelled.items (h : Cancelled s w s') (hi : Items s) (hcalm : s.timerThread ≠ .expired w) : Items s' :=
  items_of (remove_sound h.list hi.lists) (h.item hi.lists (hi.item w) hcalm) hi fun _ hv => h.unmoved hi.lists hv

theorem Handled.sound (h : Handled s w q s') (hs : Intrusive.Sound s.list) : Intrusive.Sound s'.list := by
  rcases h.list with ⟨-, hm⟩ | ⟨-, hr⟩
  · exact hm.sound hs
  · exact remove_sound hr hs

/-- A calm step keeps the items in order. -/
theorem items_step {x : WorkEv × WorkRet} (hi : Items s) (hs : Step s x s') (hcalm : Calm s x.1) : Items s' := by
  have heff := step_effect hs
  obtain ⟨e, r⟩ := x
  cases heff with
  | dowork h => exact h.items hi hcalm
  | submit h => exact h.items hi hcalm
  | delayed _ _ h =>
    exact items_of (h.list.sound hi.lists) (h.item hi.lists) hi fun _ hv => h.unmoved hi.lists hv
  | started h => exact items_of (by rw [h.list]; exact hi.lists) (h.item (hi.item _) hcalm) hi fun _ hv => h.unmoved hv
  | urgent h =>
    exact items_of (h.list.sound hi.lists) (h.item hi.lists (hi.item _) hcalm) hi fun _ hv => h.unmoved hi.lists hv
  | cancelled h => exact h.items hi hcalm
  | cancelledFirst _ h => exact h.items hi hcalm
  | expired h => exact items_of (by rw [h.list]; exact hi.lists) (h.item (hi.item _)) hi fun _ hv => h.unmoved hv
  | read h => exact items_of (by rw [h.list]; exact hi.lists) (h.item (hi.item _)) hi fun _ hv => h.unmoved hv
  | handled hstage h =>
    exact items_of (h.sound hi.lists) (h.item hi.lists (hi.item _)) hi fun _ hv => h.unmoved hstage hi.lists hv
  | suspended _ h => exact h.items hi
  | taken _ h =>
    exact items_of (remove_sound h.list hi.lists) (h.item hi.lists (hi.item _)) hi fun _ hv => h.unmoved hi.lists hv
  | finished _ h => exact h.items hi
  | acked _ h =>
    rw [h]
    exact sameItems_ackCompletion.items hi
  | tested _ h =>
    rw [h]
    exact sameItems_setCaller.items hi
  | syncCancelled _ h => exact h.items hi hcalm
  | syncTook _ h =>
    rw [h]
    exact sameItems_semTake.items hi
  | returned _ h =>
    rw [h]
    exact sameItems_setCaller.items hi

theorem Items.consistent (hi : Items s) : Consistent s where
  lists := hi.lists
  pending w := (hi.item w).pending
  delayed w q := by
    constructor
    · intro hq
      have hsub := (hi.item w).delayed.2 ⟨q, hq⟩
      exact ⟨hsub, (hi.item w).active hsub, (hi.item w).workqueue q hq⟩
    · rintro ⟨hsub, -, hq⟩
      obtain ⟨q', hq'⟩ := (hi.item w).delayed.1 hsub
      have hq'' := (hi.item w).workqueue q' hq'
      cases hq.symm.trans hq''
      exact hq'
  timer w := (hi.item w).activated
  handler w hexp := by
    obtain ⟨q, hq⟩ := (hi.item w).delayed.1 ((hi.item w).expired hexp)
    rw [(hi.item w).workqueue q hq]
    exact Option.some_ne_none q

theorem items_initial : Items initial where
  lists := ⟨fun _ => List.nodup_nil, nofun⟩
  item w := by
    constructor <;> simp [initial]

/-- An item that is delayed and submitted to run now is not where its flags say. -/
theorem Queued.not_submitting (h : Queued s q w s') (hi : Items s) (hc : Consistent s') : (s.work w).submitting = false := by
  rw [Bool.eq_false_iff]
  intro hsub
  have hwork := update_work_self h.work
  have hactive : TimerActive s' w := by
    have := (hi.item w).active hsub
    simpa only [TimerActive, hwork, h.starting, h.timerThread] using this
  have hmem := (hc.delayed w q).2 ⟨by rw [hwork]; exact hsub, hactive, by rw [hwork]⟩
  rw [h.list.mem_self hi.lists] at hmem
  cases hmem

theorem Urgent.pending (h : Urgent s q w s') (hi : Items s) (hc : Consistent s') : (s.work w).pending = true := by
  rw [← h.work]
  exact (hc.pending w).2 ⟨q, (h.list.mem_self hi.lists).2 rfl⟩

theorem Started.submitting (h : Started s w s') (hc : Consistent s') : (s.work w).submitting = true := by
  have hwork := update_work_self h.work
  have hsub := hc.timer w (by rw [hwork])
  rwa [hwork] at hsub

/-- The handler of an item that has been cancelled finds no queue. -/
theorem Cancelled.not_expired (h : Cancelled s w s') (hc : Consistent s') : s.timerThread ≠ .expired w := by
  intro hexp
  refine hc.handler w (h.timerThread.trans hexp) ?_
  rw [update_work_self h.work]

theorem calm_of_consistent {x : WorkEv × WorkRet} (hi : Items s) (hs : Step s x s') (hc : Consistent s') : Calm s x.1 := by
  have heff := step_effect hs
  obtain ⟨e, r⟩ := x
  cases heff with
  | dowork h => exact h.not_submitting hi hc
  | submit h => exact h.not_submitting hi hc
  | delayed hn =>
    obtain ⟨n, rfl⟩ := Nat.exists_eq_succ_of_ne_zero hn
    trivial
  | started h => exact h.submitting hc
  | urgent h => exact h.pending hi hc
  | cancelled h => exact h.not_expired hc
  | cancelledFirst _ h => exact h.not_expired hc
  | syncCancelled _ h => exact h.not_expired hc
  | _ => trivial

/-- A work item is delayed, submitted to run now, and called; then its timer expires. -/
def resubmitted : List (WorkEv × WorkRet) :=
  [(.submit 0 1 10, .done), (.startTimer 1, .eok), (.dowork 0 1, .eok), (.take 0, .called 1), (.finish 0, .done),
    (.ack 0, .done), (.expire 1, .done)]

end RtThread.WorkqueueState
