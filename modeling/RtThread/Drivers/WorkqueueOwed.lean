import RtThread.Drivers.WorkqueueItems

/-!
# No work is lost

A work item that has been submitted is owed a call until its function is called or it is cancelled (`owed`). An owed item
is in a list, and has an active timer if it is delayed (`NotLost`), unless the timer of a linked item has expired while its
function was running (`no_work_lost`): then the handler takes the item out of its list and puts it into none.
-/

namespace RtThread.WorkqueueState

/-- Whether a call of `w` is owed after a step. -/
def owes (w : Nat) (owed : Bool) : WorkEv × WorkRet → Bool
  | (.dowork _ v, _) | (.submit _ v _, _) | (.urgent _ v, _) => owed || v = w
  | (.cancel _ v, _) | (.cancelFirst _ v, _) | (.syncCancel _ v, _) | (.take _, .called v) => owed && v ≠ w
  | _ => owed

/-- Whether `w` has been submitted, and neither cancelled nor called since. -/
def owed (ls : List (WorkEv × WorkRet)) (w : Nat) : Bool := ls.foldl (owes w) false

/-- The item that a label is about, if it is called, cancelled or submitted. -/
def itemOf : WorkEv × WorkRet → Option Nat
  | (.dowork _ v, _) | (.submit _ v _, _) | (.urgent _ v, _) => some v
  | (.cancel _ v, _) | (.cancelFirst _ v, _) | (.syncCancel _ v, _) | (.take _, .called v) => some v
  | _ => none

/-- Every item that is owed is in a list, and with an active timer if it is delayed. -/
def NotLost (ls : List (WorkEv × WorkRet)) (s : WorkqueueState) : Prop :=
  ∀ w, owed ls w = true → (∃ q, w ∈ s.list (.workList q)) ∨ (∃ q, w ∈ s.list (.delayedList q)) ∧ TimerActive s w

/-- The handler does not run for a linked item whose function is running. -/
def Kept (s : WorkqueueState) : WorkEv → Prop
  | .handlerSection => ∀ w q, s.timerThread = .handling w q → (s.queue q).workCurrent = some w → ∀ l, w ∉ s.list l
  | _ => True

/-- What is known of one item, whatever the calls are. -/
structure TimerItem (s : WorkqueueState) (w : Nat) : Prop where
  isTimer : (s.work w).timer.isTimer = (s.work w).submitting
  delayed : ∀ q, w ∈ s.list (.delayedList q) → (s.work w).submitting = true ∧ TimerActive s w

structure TimerItems (s : WorkqueueState) : Prop where
  lists : Intrusive.Sound s.list
  item : ∀ w, TimerItem s w

variable {s s' : WorkqueueState} {q w v t : Nat} {l l' : WorkList} {ls : List (WorkEv × WorkRet)} {x : WorkEv × WorkRet}

/-! ## Timers -/

theorem Unmoved.timerItem (h : Unmoved s s' w) (hi : TimerItem s w) : TimerItem s' w where
  isTimer := by simpa only [h.work] using hi.isTimer
  delayed q := by simpa only [h.work, h.list, h.timerActive] using hi.delayed q

theorem timerItems_of (hlists : Intrusive.Sound s'.list) (hitem : TimerItem s' w) (hi : TimerItems s)
    (hothers : ∀ v, v ≠ w → Unmoved s s' v) : TimerItems s' where
  lists := hlists
  item v := by
    by_cases hv : v = w
    · rw [hv]
      exact hitem
    · exact (hothers v hv).timerItem (hi.item v)

theorem SameItems.timerItems (h : SameItems s s') (hi : TimerItems s) : TimerItems s' where
  lists := by rw [h.list]; exact hi.lists
  item w := h.unmoved.timerItem (hi.item w)

/-- The item is moved to a `work_list`. -/
theorem MovedTo.timerItem (h : MovedTo s s' w (.workList q)) (hs : Intrusive.Sound s.list)
    (htimer : (s'.work w).timer.isTimer = (s'.work w).submitting) : TimerItem s' w where
  isTimer := htimer
  delayed q' hq := by
    rw [h.mem_self hs] at hq
    cases hq

theorem timerItem_of_unlinked (hlist : ∀ l, w ∉ s'.list l) (htimer : (s'.work w).timer.isTimer = (s'.work w).submitting) :
    TimerItem s' w where
  isTimer := htimer
  delayed _ hq := absurd hq (hlist _)

theorem Delayed.timerItem (h : Delayed s q w s') : TimerItem s' w := by
  have hwork := update_work_self h.work
  constructor
  · rw [hwork]
  · intro q' _
    exact ⟨by rw [hwork], .inr (.inl (by simp [h.starting]))⟩

theorem Cancelled.isTimer (h : Cancelled s w s') (hi : TimerItem s w) :
    (s'.work w).timer.isTimer = (s'.work w).submitting := by
  have := hi.isTimer
  rw [update_work_self h.work]
  cases hsub : (s.work w).submitting with
  | true => simp
  | false => simpa [hsub] using this

theorem Cancelled.timerItems (h : Cancelled s w s') (hi : TimerItems s) : TimerItems s' :=
  timerItems_of (remove_sound h.list hi.lists)
    (timerItem_of_unlinked (fun _ => not_mem_remove_self h.list hi.lists) (h.isTimer (hi.item w))) hi
    fun _ hv => h.unmoved hi.lists hv

theorem Queued.timerItems (h : Queued s q w s') (hi : TimerItems s) : TimerItems s' := by
  refine timerItems_of (h.list.sound hi.lists) (h.list.timerItem hi.lists ?_) hi fun _ hv => h.unmoved hi.lists hv
  simpa only [update_work_self h.work] using (hi.item w).isTimer

theorem Handled.timerItem (h : Handled s w q s') (hs : Intrusive.Sound s.list) : TimerItem s' w := by
  have htimer : (s'.work w).timer.isTimer = (s'.work w).submitting := by rw [update_work_self h.work]
  rcases h.list with ⟨-, hm⟩ | ⟨-, hr⟩
  · exact hm.timerItem hs htimer
  · exact timerItem_of_unlinked (fun _ => not_mem_remove_self hr hs) htimer

theorem timerItems_step (hi : TimerItems s) (hs : Step s x s') : TimerItems s' := by
  have heff := step_effect hs
  obtain ⟨e, r⟩ := x
  cases heff with
  | dowork h => exact h.timerItems hi
  | submit h => exact h.timerItems hi
  | delayed _ _ h => exact timerItems_of (h.list.sound hi.lists) h.timerItem hi fun _ hv => h.unmoved hi.lists hv
  | started h =>
    refine timerItems_of (by rw [h.list]; exact hi.lists) ?_ hi fun _ hv => h.unmoved hv
    have hwork := update_work_self h.work
    constructor
    · rw [hwork]
      exact (hi.item _).isTimer
    · intro q hq
      rw [h.list] at hq
      exact ⟨by rw [hwork]; exact ((hi.item _).delayed q hq).1, .inl (by rw [hwork])⟩
  | urgent h =>
    refine timerItems_of (h.list.sound hi.lists) (h.list.timerItem hi.lists ?_) hi fun _ hv => h.unmoved hi.lists hv
    rw [h.work]
    exact (hi.item _).isTimer
  | cancelled h => exact h.timerItems hi
  | cancelledFirst _ h => exact h.timerItems hi
  | expired h =>
    refine timerItems_of (by rw [h.list]; exact hi.lists) ?_ hi fun _ hv => h.unmoved hv
    have hwork := update_work_self h.work
    constructor
    · rw [hwork]
      exact (hi.item _).isTimer
    · intro q hq
      rw [h.list] at hq
      exact ⟨by rw [hwork]; exact ((hi.item _).delayed q hq).1, .inr (.inr (.inl h.timerThread))⟩
  | read h =>
    refine timerItems_of (by rw [h.list]; exact hi.lists) ?_ hi fun _ hv => h.unmoved hv
    constructor
    · rw [h.work]
      exact (hi.item _).isTimer
    · intro q hq
      rw [h.list] at hq
      exact ⟨by rw [h.work]; exact ((hi.item _).delayed q hq).1, .inr (.inr (.inr ⟨_, h.timerThread⟩))⟩
  | handled hstage h =>
    exact timerItems_of (h.sound hi.lists) (h.timerItem hi.lists) hi fun _ hv => h.unmoved hstage hi.lists hv
  | suspended _ h => exact h.timerItems hi
  | taken _ h =>
    refine timerItems_of (remove_sound h.list hi.lists)
      (timerItem_of_unlinked (fun _ => not_mem_remove_self h.list hi.lists) ?_) hi fun _ hv => h.unmoved hi.lists hv
    simpa only [update_work_self h.work] using (hi.item _).isTimer
  | finished _ h => exact h.timerItems hi
  | acked _ h =>
    rw [h]
    exact sameItems_ackCompletion.timerItems hi
  | tested _ h =>
    rw [h]
    exact sameItems_setCaller.timerItems hi
  | syncCancelled _ h => exact h.timerItems hi
  | syncTook _ h =>
    rw [h]
    exact sameItems_semTake.timerItems hi
  | returned _ h =>
    rw [h]
    exact sameItems_setCaller.timerItems hi

theorem timerItems_initial : TimerItems initial where
  lists := ⟨fun _ => List.nodup_nil, nofun⟩
  item w := by
    constructor <;> simp [initial]

/-! ## Accounts -/

/-- Between the calls that are owed and the lists. -/
structure Account (ls : List (WorkEv × WorkRet)) (s : WorkqueueState) (w : Nat) : Prop where
  linked : owed ls w = true → ∃ l, w ∈ s.list l
  owed : (s.work w).submitting = true → ∀ l, w ∈ s.list l → owed ls w = true

theorem owed_snoc : owed (ls ++ [x]) w = owes w (owed ls w) x := by simp [owed]

theorem owes_of_ne {b : Bool} (hx : itemOf x ≠ some w) : owes w b x = b := by
  obtain ⟨e, r⟩ := x
  have hne {v : Nat} (h : some v ≠ some w) : v ≠ w := fun he => h (by rw [he])
  cases e with
  | take q => cases r with
    | called v => simp [owes, hne hx]
    | _ => rfl
  | dowork | submit | urgent | cancel | cancelFirst | syncCancel => simp [owes, hne hx]
  | _ => rfl

theorem owed_of_ne (hx : itemOf x ≠ some w) : owed (ls ++ [x]) w = owed ls w := by rw [owed_snoc, owes_of_ne hx]

/-- A step that does not move the item, and is not about it. -/
theorem Account.same (ha : Account ls s v) (hx : itemOf x ≠ some v) (hlist : ∀ l, v ∈ s'.list l ↔ v ∈ s.list l)
    (hsub : (s'.work v).submitting = (s.work v).submitting) : Account (ls ++ [x]) s' v where
  linked h := by
    rw [owed_of_ne hx] at h
    simpa only [hlist] using ha.linked h
  owed h l hl := by
    rw [hsub] at h
    rw [owed_of_ne hx]
    exact ha.owed h l ((hlist l).1 hl)

theorem Account.unmoved (ha : Account ls s v) (hx : itemOf x ≠ some v) (h : Unmoved s s' v) : Account (ls ++ [x]) s' v :=
  ha.same hx h.list (by rw [h.work])

theorem account_of_moved (h : MovedTo s s' w l) (hs : Intrusive.Sound s.list) (howed : owed ls w = true) :
    Account ls s' w where
  linked _ := ⟨l, (h.mem_self hs).2 rfl⟩
  owed _ _ _ := howed

theorem account_of_unlinked (h : ∀ l, w ∉ s'.list l) (howed : owed ls w = false) : Account ls s' w where
  linked ho := by
    rw [howed] at ho
    cases ho
  owed _ l hl := absurd hl (h l)

/-- A step about the item `w`. -/
theorem account_all {w : Nat} (ha : ∀ v, Account ls s v) (hx : ∀ v, v ≠ w → itemOf x ≠ some v)
    (hothers : ∀ v, v ≠ w → Unmoved s s' v) (hw : Account (ls ++ [x]) s' w) (v : Nat) : Account (ls ++ [x]) s' v := by
  by_cases hv : v = w
  · rw [hv]
    exact hw
  · exact (ha v).unmoved (hx v hv) (hothers v hv)

theorem ne_itemOf (h : itemOf x = some w) (hv : v ≠ w) : itemOf x ≠ some v := by
  rw [h]
  exact fun he => hv (Option.some.inj he).symm

theorem ne_none (h : itemOf x = none) : itemOf x ≠ some v := by
  rw [h]
  exact nofun

theorem Queued.account (h : Queued s q w s') (hs : Intrusive.Sound s.list) (ha : ∀ v, Account ls s v)
    (hx : itemOf x = some w) (howed : owed (ls ++ [x]) w = true) (v : Nat) : Account (ls ++ [x]) s' v :=
  account_all ha (fun _ => ne_itemOf hx) (fun _ hv => h.unmoved hs hv) (account_of_moved h.list hs howed) v

theorem Cancelled.account (h : Cancelled s w s') (hs : Intrusive.Sound s.list) (ha : ∀ v, Account ls s v)
    (hx : itemOf x = some w) (howed : owed (ls ++ [x]) w = false) (v : Nat) : Account (ls ++ [x]) s' v :=
  account_all ha (fun _ => ne_itemOf hx) (fun _ hv => h.unmoved hs hv)
    (account_of_unlinked (fun _ => not_mem_remove_self h.list hs) howed) v

theorem SameItems.account (h : SameItems s s') (ha : ∀ v, Account ls s v) (hx : itemOf x = none) (v : Nat) :
    Account (ls ++ [x]) s' v :=
  (ha v).unmoved (ne_none hx) h.unmoved

/-- The handler puts the item into the queue, or it takes it out of no list. -/
theorem Handled.account (h : Handled s w q s') (hstage : s.timerThread = .handling w q) (hs : Intrusive.Sound s.list)
    (ha : ∀ v, Account ls s v) (hkept : Kept s .handlerSection) (hx : itemOf x = none) (v : Nat) :
    Account (ls ++ [x]) s' v := by
  refine account_all ha (fun _ _ => ne_none hx) (fun _ hv => h.unmoved hstage hs hv) ?_ v
  have hsub : (s'.work w).submitting = false := by rw [update_work_self h.work]
  rcases h.list with ⟨-, hm⟩ | ⟨hcur, hr⟩
  · constructor
    · intro _
      exact ⟨_, (hm.mem_self hs).2 rfl⟩
    · intro hsub'
      rw [hsub] at hsub'
      cases hsub'
  · refine account_of_unlinked (fun _ => not_mem_remove_self hr hs) ?_
    rw [owed_of_ne (ne_none hx), Bool.eq_false_iff]
    intro howed
    obtain ⟨l, hl⟩ := (ha w).linked howed
    exact hkept w q hstage hcur l hl

theorem account_step (hi : TimerItems s) (ha : ∀ v, Account ls s v) (hs : Step s x s') (hkept : Kept s x.1) (v : Nat) :
    Account (ls ++ [x]) s' v := by
  have heff := step_effect hs
  obtain ⟨e, r⟩ := x
  cases heff with
  | dowork h => exact h.account hi.lists ha rfl (by simp [owed_snoc, owes]) v
  | submit h => exact h.account hi.lists ha rfl (by simp [owed_snoc, owes]) v
  | delayed _ _ h =>
    exact account_all ha (fun _ => ne_itemOf rfl) (fun _ hv => h.unmoved hi.lists hv)
      (account_of_moved h.list hi.lists (by simp [owed_snoc, owes])) v
  | started h =>
    refine account_all ha (fun _ _ => ne_none rfl) (fun _ hv => h.unmoved hv) ?_ v
    exact (ha _).same (ne_none rfl) (fun l => by rw [h.list]) (by rw [update_work_self h.work])
  | urgent h =>
    exact account_all ha (fun _ => ne_itemOf rfl) (fun _ hv => h.unmoved hi.lists hv)
      (account_of_moved h.list hi.lists (by simp [owed_snoc, owes])) v
  | cancelled h => exact h.account hi.lists ha rfl (by simp [owed_snoc, owes]) v
  | cancelledFirst _ h => exact h.account hi.lists ha rfl (by simp [owed_snoc, owes]) v
  | expired h =>
    refine account_all ha (fun _ _ => ne_none rfl) (fun _ hv => h.unmoved hv) ?_ v
    exact (ha _).same (ne_none rfl) (fun l => by rw [h.list]) (by rw [update_work_self h.work])
  | read h =>
    refine account_all ha (fun _ _ => ne_none rfl) (fun _ hv => h.unmoved hv) ?_ v
    exact (ha _).same (ne_none rfl) (fun l => by rw [h.list]) (by rw [h.work])
  | handled hstage h => exact h.account hstage hi.lists ha hkept rfl v
  | suspended _ h => exact h.account ha rfl v
  | taken _ h =>
    exact account_all ha (fun _ => ne_itemOf rfl) (fun _ hv => h.unmoved hi.lists hv)
      (account_of_unlinked (fun _ => not_mem_remove_self h.list hi.lists) (by simp [owed_snoc, owes])) v
  | finished _ h => exact h.account ha rfl v
  | acked _ h =>
    rw [h]
    exact sameItems_ackCompletion.account ha rfl v
  | tested _ h =>
    rw [h]
    exact sameItems_setCaller.account ha rfl v
  | syncCancelled _ h => exact h.account hi.lists ha rfl (by simp [owed_snoc, owes]) v
  | syncTook _ h =>
    rw [h]
    exact sameItems_semTake.account ha rfl v
  | returned _ h =>
    rw [h]
    exact sameItems_setCaller.account ha rfl v

theorem notLost_of_account (hi : TimerItems s) (ha : ∀ v, Account ls s v) : NotLost ls s := by
  intro w howed
  obtain ⟨l, hl⟩ := (ha w).linked howed
  cases l with
  | workList q => exact .inl ⟨q, hl⟩
  | delayedList q => exact .inr ⟨⟨q, hl⟩, ((hi.item w).delayed q hl).2⟩

/-- The handler of an item that is linked and running loses it. -/
theorem kept_of_notLost (hi : TimerItems s) (ha : ∀ v, Account ls s v) (hs : Step s x s') (hn : NotLost (ls ++ [x]) s') :
    Kept s x.1 := by
  have heff := step_effect hs
  obtain ⟨e, r⟩ := x
  cases heff with
  | handled hstage h =>
    intro w q hstage' hcur l hl
    obtain ⟨rfl, rfl⟩ := TimerStage.handling.inj (hstage.symm.trans hstage')
    have hsub := (hi.item _).isTimer.symm.trans h.isTimer
    have howed := (ha _).owed hsub l hl
    rcases h.list with ⟨hcur', -⟩ | ⟨-, hr⟩
    · exact hcur' hcur
    · rw [← owed_of_ne (ne_none (x := (.handlerSection, .done)) rfl)] at howed
      rcases hn _ howed with ⟨q', hq⟩ | ⟨⟨q', hq⟩, -⟩
      · exact not_mem_remove_self hr hi.lists hq
      · exact not_mem_remove_self hr hi.lists hq
  | _ => trivial

/-- The work that is owed is where it will be called, at every point of the runs in which no timer handler runs for a linked
item whose function is running, and of no others. -/
theorem no_work_lost (ls : List (WorkEv × WorkRet)) (s : WorkqueueState) :
    Runs.RunWith Step NotLost initial ls s ↔ Runs.Run (fun s x s' => Step s x s' ∧ Kept s x.1) initial ls s := by
  have h0 : ∀ v, Account [] initial v := fun v => ⟨(nofun), (nofun)⟩
  refine Runs.RunWith.iff_run (I := fun ls s => TimerItems s ∧ ∀ v, Account ls s v) ⟨timerItems_initial, h0⟩
    (notLost_of_account timerItems_initial h0) ?_ ?_
  · rintro ls s x s' ⟨hi, ha⟩ ⟨hs, hkept⟩
    exact ⟨timerItems_step hi hs, account_step hi ha hs hkept⟩
  · rintro ls s x s' ⟨hi, ha⟩
    constructor
    · rintro ⟨hs, hn⟩
      exact ⟨hs, kept_of_notLost hi ha hs hn⟩
    · rintro ⟨hs, hkept⟩
      exact ⟨hs, notLost_of_account (timerItems_step hi hs) (account_step hi ha hs hkept)⟩

/-- A function submits its own item with a delay, and is still running when the timer expires. -/
def selfResubmitted : List (WorkEv × WorkRet) :=
  [(.dowork 0 1, .eok), (.take 0, .called 1), (.submit 0 1 10, .done), (.startTimer 1, .eok), (.expire 1, .done),
    (.handlerRead, .done), (.handlerSection, .done)]

/-- The item is owed a call, and in no list. -/
theorem delayed_work_lost : ∃ s, Runs.Run Step initial selfResubmitted s ∧ owed selfResubmitted 1 = true ∧
    (∀ l, 1 ∉ s.list l) ∧ ¬ NotLost selfResubmitted s := by
  obtain ⟨s, hs⟩ : ∃ s, Runs.exec step initial (selfResubmitted.map Prod.fst) = some (s, selfResubmitted) := ⟨_, rfl⟩
  have hlast : ∀ l, 1 ∉ s.list l := by
    obtain rfl := (Prod.mk.inj (Option.some.inj hs)).1
    intro l
    cases l with
    | workList q => cases q <;> exact List.not_mem_nil
    | delayedList q => cases q <;> exact List.not_mem_nil
  refine ⟨s, Runs.Run.of_exec (fun _ _ _ _ h (_ : True) => h) hs fun _ _ => trivial, by decide, hlast, ?_⟩
  intro hn
  rcases hn 1 (by decide) with ⟨q, hq⟩ | ⟨⟨q, hq⟩, -⟩
  · exact hlast _ hq
  · exact hlast _ hq

end RtThread.WorkqueueState
