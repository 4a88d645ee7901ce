import Mathlib.Data.List.Nodup
import Mathlib.Data.BitVec
import RtThread.Lib.Runs

/-!
# `timer.c`: `rt_timer_check`

The loop takes timers that are due off the timer list, calls them, and starts the periodic ones again. The list is the last
row of the skip list, which holds all timers; the other rows only choose where the search for a place begins. The tick does
not change during the call.

* `iter_countP`: an iteration that does not restart a timer with `init_tick` 0 leaves fewer timers that are due;
* `Ahead.iter`: in a list whose deadlines compare as they follow each other, a due periodic timer with `init_tick` 0 stays due.
-/

namespace RtThread.TimerCheck

open Function (update update_of_ne update_self)

open Runs

/-- `RT_TICK_MAX`. -/
def rtTickMax : Nat := 2 ^ 32 - 1

/-- `struct rt_timer`, as `rt_timer_init`, `rt_timer_create` and `RT_TIMER_CTRL_SET_TIME` accept it. -/
structure Timer where
  initTick : BitVec 32
  timeoutTick : BitVec 32
  periodic : Bool
  activated : Bool
  initTick_lt : initTick.toNat < rtTickMax / 2

/-- `_timer_init`, behind the assertion of `rt_timer_init` and of `rt_timer_create`. -/
def timerInit (time : BitVec 32) (periodic : Bool) : Option Timer :=
  if h : time.toNat < rtTickMax / 2 then some ⟨time, 0, periodic, false, h⟩ else none

/-- `RT_TIMER_CTRL_SET_TIME`, behind its assertion. -/
def Timer.setTime (t : Timer) (time : BitVec 32) : Option Timer :=
  if h : time.toNat < rtTickMax / 2 then some { t with initTick := time, initTick_lt := h } else none

/-- The timer list, and the timers. -/
structure Timers where
  list : List Nat
  timer : Nat → Timer
  nodup : list.Nodup

/-- The timer `t` has timed out at the tick `now`. -/
def Due (now : BitVec 32) (t : Timer) : Prop := (now - t.timeoutTick).toNat < rtTickMax / 2

instance (now : BitVec 32) (t : Timer) : Decidable (Due now t) := inferInstanceAs (Decidable (_ < _))

/-- The search for the place of a timer stops before `t`. -/
def Stops (deadline : BitVec 32) (t : Timer) : Prop :=
  t.timeoutTick - deadline ≠ 0 ∧ (t.timeoutTick - deadline).toNat < rtTickMax / 2

instance (deadline : BitVec 32) (t : Timer) : Decidable (Stops deadline t) := inferInstanceAs (Decidable (_ ∧ _))

/-- `x` is inserted into a list where a search stops, that begins behind an element it has passed in another row. -/
def Inserted (stop : Nat → Prop) (x : Nat) (l l' : List Nat) : Prop :=
  ∃ ps qs zs, l = ps ++ (qs ++ zs) ∧ l' = ps ++ (qs ++ x :: zs) ∧
    (∀ p ∈ ps.getLast?, ¬stop p) ∧ (∀ q ∈ qs, ¬stop q) ∧ ∀ z ∈ zs.head?, stop z

/-- `rt_timer_start`, for a timer that is in no list. -/
def RtTimerStart (now : BitVec 32) (x : Nat) (s s' : Timers) : Prop :=
  let t := { s.timer x with timeoutTick := now + (s.timer x).initTick, activated := true }
  s'.timer = update s.timer x t ∧ Inserted (fun y => Stops t.timeoutTick (s.timer y)) x s.list s'.list

/-- What the timeout function of a timer may do: from a state to a state, and whether the timer is still in the temporary
list. -/
abbrev Callback := Nat → Timers → Timers → Bool → Prop

/-- An iteration of the loop of `rt_timer_check`. The label is the `init_tick` of a timer that is started again. -/
inductive Iter (now : BitVec 32) (call : Callback) (s : Timers) : Option (BitVec 32) → Timers → Prop
  /-- The timer has been detached or stopped, or is not to be started again. -/
  | drop {t : Nat} {rest : List Nat} {s1 s2 : Timers} {kept : Bool} (hl : s.list = t :: rest) (hd : Due now (s.timer t))
      (hl1 : s1.list = rest)
      (ht1 : s1.timer = update s.timer t { s.timer t with
        activated := (s.timer t).periodic && (s.timer t).activated })
      (hc : call t s1 s2 kept)
      (hk : ¬(kept = true ∧ (s2.timer t).periodic = true ∧ (s2.timer t).activated = true)) : Iter now call s none s2
  | restart {t : Nat} {rest : List Nat} {s1 s2 s3 : Timers} (hl : s.list = t :: rest) (hd : Due now (s.timer t))
      (hl1 : s1.list = rest)
      (ht1 : s1.timer = update s.timer t { s.timer t with
        activated := (s.timer t).periodic && (s.timer t).activated })
      (hc : call t s1 s2 true) (hp : (s2.timer t).periodic = true ∧ (s2.timer t).activated = true)
      (hs : RtTimerStart now t s2 s3) : Iter now call s (some (s2.timer t).initTick) s3

/-- The timeout functions start no timer: they may take timers from the list, and set their times and modes. -/
def StartsNone (call : Callback) : Prop :=
  ∀ t s s' kept, call t s s' kept → s'.list.Sublist s.list ∧
    ∀ x ∈ s'.list, (s'.timer x).timeoutTick = (s.timer x).timeoutTick

/-- The number of timers in the list that are due. -/
def dueCount (now : BitVec 32) (s : Timers) : Nat := s.list.countP fun x => Due now (s.timer x)

variable {now : BitVec 32} {call : Callback} {s s' : Timers} {l : Option (BitVec 32)} {ls : List (Option (BitVec 32))}
  {t x : Nat}

/-! ## An iteration -/

/-- A deadline in the future is not due. -/
theorem not_due_of_ahead {now i : BitVec 32} (h0 : i ≠ 0) (hi : i.toNat < rtTickMax / 2) :
    ¬(now - (now + i)).toNat < rtTickMax / 2 := by
  unfold rtTickMax at hi ⊢
  bv_omega

theorem dueCount_congr {l : List Nat} {f g : Nat → Timer} (h : ∀ x ∈ l, (f x).timeoutTick = (g x).timeoutTick) :
    l.countP (fun x => Due now (f x)) = l.countP fun x => Due now (g x) := by
  refine List.countP_congr fun x hx => ?_
  rw [decide_eq_true_iff, decide_eq_true_iff, Due, Due, h x hx]

variable {u : Timer} {stop : Nat → Prop} {l' : List Nat}

/-- What is left of the list after the timeout function: one timer that is due is gone. -/
theorem countP_called (hcall : StartsNone call) {rest : List Nat} {s1 s2 : Timers} {kept : Bool}
    (hl : s.list = t :: rest) (hd : Due now (s.timer t)) (hl1 : s1.list = rest)
    (ht1 : s1.timer = update s.timer t u) (hc : call t s1 s2 kept) :
    dueCount now s2 + 1 ≤ dueCount now s ∧ t ∉ s2.list := by
  obtain ⟨hsub, htick⟩ := hcall t s1 s2 kept hc
  have hnd := s.nodup
  rw [hl, List.nodup_cons] at hnd
  have hrest : ∀ x ∈ s2.list, x ∈ rest := fun x hx => hl1 ▸ hsub.subset hx
  refine ⟨?_, fun hm => hnd.1 (hrest t hm)⟩
  have h1 : dueCount now s2 = s2.list.countP fun x => Due now (s.timer x) := by
    refine dueCount_congr fun x hx => ?_
    have hne : x ≠ t := fun he => hnd.1 (he ▸ hrest x hx)
    rw [htick x hx, ht1, update_of_ne hne]
  have h2 : (s2.list.countP fun x => Due now (s.timer x)) ≤ rest.countP fun x => Due now (s.timer x) :=
    (hl1 ▸ hsub).countP_le
  have h3 : dueCount now s = (rest.countP fun x => Due now (s.timer x)) + 1 := by
    rw [dueCount, hl, List.countP_cons_of_pos (by simpa using hd)]
  omega

theorem Inserted.perm {l : List Nat} (h : Inserted stop x l l') : l'.Perm (x :: l) := by
  obtain ⟨ps, qs, zs, rfl, rfl, -⟩ := h
  rw [← List.append_assoc, ← List.append_assoc]
  exact List.perm_middle

/-- A timer that is started again with an `init_tick` other than 0 is not due. -/
theorem countP_restarted (hs : RtTimerStart now x s s') (hx : x ∉ s.list) (h0 : (s.timer x).initTick ≠ 0) :
    dueCount now s' = dueCount now s := by
  obtain ⟨ht, hins⟩ := hs
  have hx' : ¬Due now (s'.timer x) := by
    rw [ht, update_self]
    exact not_due_of_ahead h0 (s.timer x).initTick_lt
  rw [dueCount, hins.perm.countP_eq, List.countP_cons_of_neg (by simpa using hx')]
  refine dueCount_congr fun y hy => ?_
  have hne : y ≠ x := fun he => hx (he ▸ hy)
  rw [ht, update_of_ne hne]

/-- An iteration that does not restart a timer with `init_tick` 0 leaves fewer timers that are due. -/
theorem iter_countP (hcall : StartsNone call) (hs : Iter now call s l s') (h0 : l ≠ some 0) :
    dueCount now s' + 1 ≤ dueCount now s := by
  cases hs with
  | drop hl hd hl1 ht1 hc hk => exact (countP_called hcall hl hd hl1 ht1 hc).1
  | restart hl hd hl1 ht1 hc hp hst =>
    obtain ⟨hle, hx⟩ := countP_called hcall hl hd hl1 ht1 hc
    rw [countP_restarted hst hx fun h => h0 (congrArg some h)]
    exact hle

/-- The iterations of such a run are at most as many as the timers that are due at its start. -/
theorem run_length (hcall : StartsNone call) (hr : Run (Iter now call) s ls s') (h0 : some 0 ∉ ls) :
    dueCount now s' + ls.length ≤ dueCount now s := by
  induction hr with
  | nil => exact Nat.le_refl _
  | snoc hr hs ih =>
    have hle := ih fun h => h0 (List.mem_append_left _ h)
    have hlt := iter_countP hcall hs fun h => h0 (List.mem_append_right _ (List.mem_singleton.2 h.symm))
    rw [List.length_append, List.length_singleton]
    omega

/-! ## Timeout functions that leave the timers alone -/

/-- The timeout functions do nothing to the timers. -/
def leavesAlone : Callback := fun _ s s' kept => s' = s ∧ kept = true

theorem startsNone_leavesAlone : StartsNone leavesAlone := by
  rintro t s s' kept ⟨rfl, -⟩
  exact ⟨List.Sublist.refl _, fun _ _ => rfl⟩

/-- The timer is started again for the tick at which it is called. -/
structure Stuck (t : Timer) : Prop where
  periodic : t.periodic = true
  activated : t.activated = true
  initTick : t.initTick = 0

/-- The list is `ds` and then `fs`: timers that are due, and timers in the future. The deadlines that the periodic ones of
`ds` will get compare as behind those of `ds`. -/
structure Ordered (now : BitVec 32) (s : Timers) (ds fs : List Nat) : Prop where
  list : s.list = ds ++ fs
  due : ∀ x ∈ ds, Due now (s.timer x)
  future : ∀ x ∈ fs, Stops now (s.timer x)
  near : ∀ x ∈ ds, ∀ y ∈ ds, (s.timer y).periodic = true → ¬Stops (now + (s.timer y).initTick) (s.timer x)

variable {ds fs : List Nat}

theorem not_stops_of_due (h : Due now u) : ¬Stops now u := by
  rintro ⟨h1, h2⟩
  unfold Due at h
  unfold rtTickMax at h h2
  bv_omega

theorem not_due_of_stops (h : Stops now u) : ¬Due now u := fun hd => not_stops_of_due hd h

/-- A timer is inserted behind all that a search passes. -/
theorem Inserted.split (h : Inserted stop x (ds ++ fs) l') (hds : ∀ d ∈ ds, ¬stop d) :
    ∃ gs, l' = ds ++ gs ∧ gs.Perm (x :: fs) := by
  obtain ⟨ps, qs, zs, hl, rfl, -, -, hz⟩ := h
  rw [← List.append_assoc] at hl
  rcases List.append_eq_append_iff.1 hl.symm with ⟨as, rfl, rfl⟩ | ⟨cs, hcs, rfl⟩
  · cases as with
    | nil =>
      refine ⟨x :: fs, ?_, List.Perm.refl _⟩
      simp [← List.append_assoc]
    | cons a as => exact absurd (hz a rfl) (hds a (by simp))
  · refine ⟨cs ++ x :: zs, ?_, List.perm_middle⟩
    rw [← List.append_assoc, ← List.append_assoc, hcs]

/-- It is inserted in front of all that stop the search. -/
theorem Inserted.eq_of_stop (h : Inserted stop x (ds ++ fs) l')
    (hds : ∀ d ∈ ds, ¬stop d) (hfs : ∀ f ∈ fs, stop f) : l' = ds ++ x :: fs := by
  obtain ⟨ps, qs, zs, hl, rfl, hp, hq, hz⟩ := h
  -- What the search has passed ends with a timer that does not stop it.
  have hlast : ∀ c ∈ (ps ++ qs).getLast?, ¬stop c := by
    intro c hc
    rw [List.getLast?_append] at hc
    cases hqs : qs.getLast? with
    | none =>
      rw [hqs, Option.none_or] at hc
      exact hp c hc
    | some q =>
      rw [hqs, Option.some_or] at hc
      obtain rfl := Option.some.inj hc
      exact hq q (List.mem_of_getLast? hqs)
  rw [← List.append_assoc] at hl
  rcases List.append_eq_append_iff.1 hl.symm with ⟨as, rfl, rfl⟩ | ⟨cs, hcs, rfl⟩
  · cases as with
    | nil => simp [← List.append_assoc]
    | cons a as => exact absurd (hz a rfl) (hds a (by simp))
  · rcases List.eq_nil_or_concat' cs with rfl | ⟨cs, c, rfl⟩
    · rw [← List.append_assoc, hcs, List.append_nil, List.nil_append]
    · rw [hcs, ← List.append_assoc, List.getLast?_concat] at hlast
      exact absurd (hfs c (by simp)) (hlast c rfl)

/-- The list behind its first timer. -/
theorem Ordered.rest (O : Ordered now s (t :: ds) fs) (hl : s'.list = ds ++ fs)
    (ht : ∀ x ∈ ds ++ fs, s'.timer x = s.timer x) : Ordered now s' ds fs where
  list := hl
  due x hx := by
    rw [ht x (List.mem_append_left _ hx)]
    exact O.due x (List.mem_cons_of_mem t hx)
  future x hx := by
    rw [ht x (List.mem_append_right _ hx)]
    exact O.future x hx
  near x hx y hy hp := by
    rw [ht y (List.mem_append_left _ hy)] at hp
    rw [ht x (List.mem_append_left _ hx), ht y (List.mem_append_left _ hy)]
    exact O.near x (List.mem_cons_of_mem t hx) y (List.mem_cons_of_mem t hy) hp

section Start

variable (O : Ordered now s ds fs) (hs : RtTimerStart now t s s') (ht : t ∉ ds ++ fs)
  (hnear : ∀ x ∈ ds, ¬Stops (now + (s.timer t).initTick) (s.timer x))

include O hs ht hnear

/-- A timer that is started again for the future. -/
theorem Ordered.start (h0 : (s.timer t).initTick ≠ 0) : ∃ gs, Ordered now s' ds gs := by
  obtain ⟨hst, hins⟩ := hs
  rw [O.list] at hins
  obtain ⟨gs, hl, hp⟩ := hins.split hnear
  have hself : Stops now (s'.timer t) := by
    have hlt := (s.timer t).initTick_lt
    have hadd : now + (s.timer t).initTick - now = (s.timer t).initTick := by rw [BitVec.add_comm, BitVec.add_sub_cancel]
    rw [hst, update_self, Stops, hadd]
    exact ⟨h0, hlt⟩
  have hkeep (x : Nat) (hx : x ∈ ds ++ fs) : s'.timer x = s.timer x := by
    rw [hst, update_of_ne]
    rintro rfl
    exact ht hx
  refine ⟨gs, hl, fun x hx => ?_, fun x hx => ?_, fun x hx y hy hp' => ?_⟩
  · rw [hkeep x (List.mem_append_left _ hx)]
    exact O.due x hx
  · rcases List.mem_cons.1 (hp.mem_iff.1 hx) with rfl | hx
    · exact hself
    · rw [hkeep x (List.mem_append_right _ hx)]
      exact O.future x hx
  · rw [hkeep y (List.mem_append_left _ hy)] at hp' ⊢
    rw [hkeep x (List.mem_append_left _ hx)]
    exact O.near x hx y hy hp'

/-- A timer that is started again for the present tick. -/
theorem Ordered.start_now (h0 : (s.timer t).initTick = 0) : Ordered now s' (ds ++ [t]) fs := by
  obtain ⟨hst, hins⟩ := hs
  have hself : (s'.timer t).timeoutTick = now ∧ (s'.timer t).initTick = 0 := by
    rw [hst, update_self]
    exact ⟨by simp [h0], h0⟩
  have hnow : now + (s.timer t).initTick = now := by simp [h0]
  rw [hnow] at hnear hins
  rw [O.list] at hins
  have hl := hins.eq_of_stop hnear O.future
  have hkeep (x : Nat) (hx : x ∈ ds ++ fs) : s'.timer x = s.timer x := by
    rw [hst, update_of_ne]
    rintro rfl
    exact ht hx
  refine ⟨by rw [hl, List.append_assoc]; rfl, fun x hx => ?_, fun x hx => ?_, fun x hx y hy hp => ?_⟩
  · rcases List.mem_append.1 hx with hx | hx
    · rw [hkeep x (List.mem_append_left _ hx)]
      exact O.due x hx
    · rw [List.mem_singleton.1 hx, Due, hself.1, BitVec.sub_self]
      decide
  · rw [hkeep x (List.mem_append_right _ hx)]
    exact O.future x hx
  · rcases List.mem_append.1 hx with hx | hx
    · rw [hkeep x (List.mem_append_left _ hx)]
      rcases List.mem_append.1 hy with hy | hy
      · rw [hkeep y (List.mem_append_left _ hy)] at hp ⊢
        exact O.near x hx y hy hp
      · have hnow' : now + (s'.timer y).initTick = now := by simp [List.mem_singleton.1 hy, hself.2]
        rw [hnow']
        exact not_stops_of_due (O.due x hx)
    · -- The deadline is the tick itself.
      rintro ⟨h1, h2⟩
      rw [List.mem_singleton.1 hx, hself.1] at h1 h2
      have hlt := (s'.timer y).initTick_lt
      unfold rtTickMax at hlt h2
      bv_omega

end Start

/-- What an iteration does to such a list: the first timer is gone, or it is behind the tick, or it is due again. -/
theorem Ordered.iter (O : Ordered now s ds fs) (hs : Iter now leavesAlone s l s') :
    ∃ t ds', ds = t :: ds' ∧ (∀ x ∈ ds', s'.timer x = s.timer x) ∧
      ((l = none ∧ ¬Stuck (s.timer t) ∧ Ordered now s' ds' fs) ∨
        (l ≠ some 0 ∧ ¬Stuck (s.timer t) ∧ ∃ gs, Ordered now s' ds' gs) ∨
        (Stuck (s.timer t) ∧ Stuck (s'.timer t) ∧ Ordered now s' (ds' ++ [t]) fs)) := by
  have hhead {t : Nat} {rest : List Nat} (hl : s.list = t :: rest) (hd : Due now (s.timer t)) :
      ∃ ds', ds = t :: ds' ∧ rest = ds' ++ fs ∧ t ∉ ds' ++ fs := by
    have hnd := s.nodup
    rw [hl, List.nodup_cons] at hnd
    have he := O.list.symm.trans hl
    cases ds with
    | nil =>
      rw [List.nil_append] at he
      exact absurd hd (not_due_of_stops (O.future t (by simp [he])))
    | cons d ds' =>
      obtain ⟨rfl, rfl⟩ := List.cons.inj he
      exact ⟨ds', rfl, rfl, hnd.1⟩
  cases hs with
  | @drop t rest s1 _ kept hl hd hl1 ht1 hc hk =>
    obtain ⟨rfl, rfl⟩ := hc
    obtain ⟨ds', rfl, rfl, hnot⟩ := hhead hl hd
    have hkeep (x : Nat) (hx : x ∈ ds' ++ fs) : s'.timer x = s.timer x := by
      rw [ht1, update_of_ne]
      rintro rfl
      exact hnot hx
    refine ⟨t, ds', rfl, fun x hx => hkeep x (List.mem_append_left _ hx), .inl ⟨rfl, fun h => hk ⟨rfl, ?_⟩, ?_⟩⟩
    · rw [ht1, update_self]
      exact ⟨h.periodic, by simp [h.periodic, h.activated]⟩
    · exact O.rest hl1 hkeep
  | @restart t rest s1 s2 _ hl hd hl1 ht1 hc hp hst =>
    obtain ⟨rfl, -⟩ := hc
    obtain ⟨ds', rfl, rfl, hnot⟩ := hhead hl hd
    have hkeep (x : Nat) (hx : x ∈ ds' ++ fs) : s2.timer x = s.timer x := by
      rw [ht1, update_of_ne]
      rintro rfl
      exact hnot hx
    have hself : (s2.timer t).initTick = (s.timer t).initTick ∧ (s2.timer t).periodic = (s.timer t).periodic ∧
        (s2.timer t).activated = ((s.timer t).periodic && (s.timer t).activated) := by
      rw [ht1, update_self]
      exact ⟨rfl, rfl, rfl⟩
    have hact : (s.timer t).periodic = true ∧ (s.timer t).activated = true := by
      rw [hself.2.1, hself.2.2] at hp
      exact Bool.and_eq_true_iff.1 hp.2
    have O2 := O.rest hl1 hkeep
    have hnear : ∀ x ∈ ds', ¬Stops (now + (s2.timer t).initTick) (s2.timer x) := by
      intro x hx
      rw [hkeep x (List.mem_append_left _ hx), hself.1]
      exact O.near x (List.mem_cons_of_mem t hx) t List.mem_cons_self hact.1
    have hkeep' : ∀ x ∈ ds', s'.timer x = s.timer x := by
      intro x hx
      rw [hst.1, update_of_ne, hkeep x (List.mem_append_left _ hx)]
      rintro rfl
      exact hnot (List.mem_append_left _ hx)
    refine ⟨t, ds', rfl, hkeep', .inr ?_⟩
    by_cases h0 : (s2.timer t).initTick = 0
    · refine .inr ⟨⟨hact.1, hact.2, hself.1 ▸ h0⟩, ?_, O2.start_now hst hnot hnear h0⟩
      rw [hst.1, update_self]
      exact ⟨hp.1, rfl, h0⟩
    · refine .inl ⟨fun h => h0 (Option.some.inj h), fun h => h0 (hself.1.trans h.initTick), O2.start hst hnot hnear h0⟩

/-! ## Runs of the loop -/

theorem exists_place (stop : Nat → Prop) (l : List Nat) :
    ∃ qs zs, l = qs ++ zs ∧ (∀ q ∈ qs, ¬stop q) ∧ ∀ z ∈ zs.head?, stop z := by
  induction l with
  | nil => exact ⟨[], [], rfl, nofun, nofun⟩
  | cons a l ih =>
    by_cases ha : stop a
    · exact ⟨[], a :: l, rfl, nofun, fun z hz => Option.some.inj hz ▸ ha⟩
    · obtain ⟨qs, zs, rfl, hq, hz⟩ := ih
      exact ⟨a :: qs, zs, rfl, List.forall_mem_cons.2 ⟨ha, hq⟩, hz⟩

/-- A timer can always be started. -/
theorem exists_start (now : BitVec 32) (s : Timers) (hx : x ∉ s.list) : ∃ s', RtTimerStart now x s s' := by
  let u : Timer := { s.timer x with timeoutTick := now + (s.timer x).initTick, activated := true }
  obtain ⟨qs, zs, hl, hq, hz⟩ := exists_place (fun y => Stops u.timeoutTick (s.timer y)) s.list
  refine ⟨⟨qs ++ x :: zs, update s.timer x u, ?_⟩, rfl, [], qs, zs, hl, rfl, nofun, hq, hz⟩
  exact List.perm_middle.nodup_iff.2 (List.nodup_cons.2 ⟨hl ▸ hx, hl ▸ s.nodup⟩)

/-- The loop goes on while its first timer is due. -/
theorem Ordered.exists_iter (O : Ordered now s ds fs) (hne : ds ≠ []) : ∃ l s', Iter now leavesAlone s l s' := by
  obtain ⟨t, ds, rfl⟩ := List.exists_cons_of_ne_nil hne
  have hd := O.due t List.mem_cons_self
  have hl : s.list = t :: (ds ++ fs) := O.list
  have hnd := s.nodup
  rw [hl, List.nodup_cons] at hnd
  let s1 : Timers := ⟨ds ++ fs, update s.timer t { s.timer t with
    activated := (s.timer t).periodic && (s.timer t).activated }, hnd.2⟩
  by_cases hp : (s1.timer t).periodic = true ∧ (s1.timer t).activated = true
  · obtain ⟨s', hs⟩ := exists_start now s1 hnd.1
    exact ⟨_, s', .restart hl hd rfl rfl ⟨rfl, rfl⟩ hp hs⟩
  · have hc : leavesAlone t s1 s1 true := ⟨rfl, rfl⟩
    exact ⟨none, s1, .drop hl hd rfl rfl hc fun h => hp h.2⟩

/-- The loop performs only finitely many iterations. -/
def Finite (now : BitVec 32) (call : Callback) (s : Timers) : Prop :=
  ∃ n, ∀ ls s', Run (Iter now call) s ls s' → ls.length ≤ n

/-- Without such a timer, none is started again for the present tick. -/
theorem Ordered.not_mem_run (O : Ordered now s ds fs) (h : ∀ x ∈ ds, ¬Stuck (s.timer x))
    (hr : Run (Iter now leavesAlone) s ls s') : some 0 ∉ ls := by
  have hinv : some 0 ∉ ls ∧ ∃ ds fs, Ordered now s' ds fs ∧ ∀ x ∈ ds, ¬Stuck (s'.timer x) := by
    refine hr.history (I := fun ls s => some 0 ∉ ls ∧ ∃ ds fs, Ordered now s ds fs ∧ ∀ x ∈ ds, ¬Stuck (s.timer x))
      ⟨nofun, ds, fs, O, h⟩ ?_
    rintro ls s l s' ⟨hls, ds, fs, O, h⟩ hs
    have hsnoc {ls : List (Option (BitVec 32))} {l : Option (BitVec 32)} (hls : some 0 ∉ ls) (hl : l ≠ some 0) :
        some 0 ∉ ls ++ [l] := fun h =>
      (List.mem_append.1 h).elim hls fun h => hl (List.mem_singleton.1 h).symm
    obtain ⟨t, ds', rfl, hkeep, ⟨rfl, -, O'⟩ | ⟨hl, -, gs, O'⟩ | ⟨hstuck, -, -⟩⟩ := O.iter hs
    · exact ⟨hsnoc hls nofun, ds', fs, O', fun x hx => hkeep x hx ▸ h x (List.mem_cons_of_mem t hx)⟩
    · exact ⟨hsnoc hls hl, ds', gs, O', fun x hx => hkeep x hx ▸ h x (List.mem_cons_of_mem t hx)⟩
    · exact absurd hstuck (h t List.mem_cons_self)
  exact hinv.1

/-- With one, there is one after every iteration. -/
theorem Ordered.stuck_run (O : Ordered now s ds fs) (h : ∃ x ∈ ds, Stuck (s.timer x))
    (hr : Run (Iter now leavesAlone) s ls s') : ∃ ds fs, Ordered now s' ds fs ∧ ∃ x ∈ ds, Stuck (s'.timer x) := by
  refine hr.invariant (I := fun s => ∃ ds fs, Ordered now s ds fs ∧ ∃ x ∈ ds, Stuck (s.timer x)) ⟨ds, fs, O, h⟩ ?_
  rintro s l s' ⟨ds, fs, O, x, hx, hst⟩ hs
  have htail {t : Nat} {ds' : List Nat} (hx : x ∈ t :: ds') (hne : ¬Stuck (s.timer t)) : x ∈ ds' :=
    (List.mem_cons.1 hx).resolve_left fun he => hne (he ▸ hst)
  obtain ⟨t, ds', rfl, hkeep, ⟨-, hne, O'⟩ | ⟨-, hne, gs, O'⟩ | ⟨-, hst', O'⟩⟩ := O.iter hs
  · exact ⟨ds', fs, O', x, htail hx hne, by rw [hkeep x (htail hx hne)]; exact hst⟩
  · exact ⟨ds', gs, O', x, htail hx hne, by rw [hkeep x (htail hx hne)]; exact hst⟩
  · exact ⟨ds' ++ [t], fs, O', t, by simp, hst'⟩

theorem Ordered.not_finite (O : Ordered now s ds fs) (h : ∃ x ∈ ds, Stuck (s.timer x)) : ¬Finite now leavesAlone s := by
  have hall (n : Nat) : ∃ ls s', Run (Iter now leavesAlone) s ls s' ∧ ls.length = n := by
    induction n with
    | zero => exact ⟨[], s, .nil, rfl⟩
    | succ n ih =>
      obtain ⟨ls, s', hr, hn⟩ := ih
      obtain ⟨ds', fs', O', x, hx, -⟩ := O.stuck_run h hr
      obtain ⟨l, s'', hs⟩ := O'.exists_iter (List.ne_nil_of_mem hx)
      exact ⟨ls ++ [l], s'', .snoc hr hs, by simp [hn]⟩
  rintro ⟨n, hn⟩
  obtain ⟨ls, s', hr, hlen⟩ := hall (n + 1)
  have := hn ls s' hr
  omega

/-- If no periodic timer is started again with `init_tick` 0, the loop ends: it makes as many iterations as timers are due
at most. If the timeout functions leave the timers alone and the deadlines compare as they follow each other, it ends only
then. -/
theorem timer_check_finite (now : BitVec 32) (hcall : StartsNone call) (s : Timers) :
    (∀ ls s', Run (Iter now call) s ls s' → some 0 ∉ ls → ls.length ≤ dueCount now s) ∧
      (call = leavesAlone → ∀ ds fs, Ordered now s ds fs → (Finite now call s ↔ ∀ x ∈ ds, ¬Stuck (s.timer x))) := by
  refine ⟨fun ls s' hr h0 => ?_, ?_⟩
  · have := run_length hcall hr h0
    omega
  · rintro rfl ds fs O
    constructor
    · intro hfin x hx hst
      exact O.not_finite ⟨x, hx, hst⟩ hfin
    · intro h
      refine ⟨dueCount now s, fun ls s' hr => ?_⟩
      have := run_length hcall hr (O.not_mem_run h hr)
      omega

/-- At the tick 100 a one-shot timer and two periodic ones are due, and another one-shot timer is not. -/
def timersDue : Timers where
  list := [0, 1, 2, 3]
  timer
    | 0 => ⟨40, 50, false, true, by decide⟩
    | 1 => ⟨10, 90, true, true, by decide⟩
    | 2 => ⟨5, 100, true, true, by decide⟩
    | _ => ⟨120, 200, false, true, by decide⟩
  nodup := by decide

theorem ordered_timersDue : Ordered 100 timersDue [0, 1, 2] [3] where
  list := rfl
  due := by decide
  future := by decide
  near := by decide

theorem timer_check_finite_due : Finite 100 leavesAlone timersDue := by
  have hticks : ∀ x ∈ [0, 1, 2], (timersDue.timer x).initTick ≠ 0 := by decide
  exact ((timer_check_finite 100 startsNone_leavesAlone timersDue).2 rfl [0, 1, 2] [3] ordered_timersDue).2
    fun x hx h => hticks x hx h.initTick

/-- A periodic timer with `init_tick` 0 that is started at the tick 0. -/
def timers0 : Timers := ⟨[0], fun _ => ⟨0, 0, true, true, by decide⟩, by decide⟩

theorem ordered_timers0 : Ordered 0 timers0 [0] [] where
  list := rfl
  due _ _ := show (0 - 0 : BitVec 32).toNat < rtTickMax / 2 by decide
  future := nofun
  near _ _ _ _ _ h := h.1 (show (0 - (0 + 0) : BitVec 32) = 0 by decide)

theorem not_timer_check_finite :
    ¬∀ (now : BitVec 32) (call : Callback) (s : Timers), StartsNone call → Finite now call s := by
  intro h
  exact ordered_timers0.not_finite ⟨0, List.mem_singleton_self 0, rfl, rfl, rfl⟩
    (h 0 leavesAlone timers0 startsNone_leavesAlone)

end RtThread.TimerCheck
