import RtThread.Mutex.Ownership

/-!
# Mutual exclusion

A take that returns `RT_EOK` leaves the caller as the owner, and two threads never hold one mutex, in every run in which
`rt_thread_resume` is not called for a thread that waits for a mutex (`take_exclusive`). A waiter that is resumed finds
`error` as it set it, `RT_EOK`, and returns with a mutex it does not own (`not_take_exclusive`).
-/

namespace RtThread

/-- The events of runs in which threads take and release mutexes, time out, and are resumed. -/
def Ev.isExclusion (ev : Ev) : Bool :=
  ev.isSched || ev.isMutex || match ev with
    | .resume _ => true
    | _ => false

namespace Protocol

variable {P : Frame → Prop} {s s' : Protocol} {t u : ThreadId} {m m' : MutexId}

/-- A live thread in `_rt_mutex_take` waits, or has been given the mutex, or has an error to return. -/
structure Granted (s : Protocol) : Prop where
  granted : ∀ {t m}, (s.party t).phase ≠ .closed → (s.party t).taking = some m → (s.party t).error = .eok →
    t ∈ s.waiters m ∨ ((s.mutex m).owner = some t ∧ (s.mutex m).hold = 1)
  failed : ∀ {t m}, (s.party t).taking = some m → (s.party t).error ≠ .eok → (s.mutex m).owner ≠ some t

theorem Granted.congr (h : Granted s) (hs : Same s s') : Granted s' where
  granted hp ht he := by
    rw [hs.phase] at hp
    rw [hs.taking] at ht
    rw [hs.error] at he
    rw [hs.mem, hs.owner, hs.hold]
    exact h.granted hp ht he
  failed ht he := by
    rw [hs.taking] at ht
    rw [hs.error] at he
    rw [hs.owner]
    exact h.failed ht he

/-- Only the thread `t` and the owner and hold count of `m` change; the thread is then in no `_rt_mutex_take`, or has a
reason to be. -/
theorem Granted.update (h : Granted s) (hparty : ∀ u, u ≠ t → s'.party u = s.party u)
    (hmem : ∀ u m', u ≠ t → u ∈ s.waiters m' → u ∈ s'.waiters m')
    (hmutex : ∀ u m', u ≠ t → (s.party u).taking = some m' →
      ((s'.mutex m').owner = some u ↔ (s.mutex m').owner = some u) ∧
        ((s.mutex m').owner = some u → (s'.mutex m').hold = (s.mutex m').hold))
    (hself : ∀ m', (s'.party t).taking = some m' →
      ((s'.party t).phase ≠ .closed → (s'.party t).error = .eok →
        t ∈ s'.waiters m' ∨ ((s'.mutex m').owner = some t ∧ (s'.mutex m').hold = 1)) ∧
      ((s'.party t).error ≠ .eok → (s'.mutex m').owner ≠ some t)) : Granted s' where
  granted {u m'} hp ht he := by
    by_cases e : u = t
    · subst e; exact (hself m' ht).1 hp he
    · rw [hparty u e] at hp ht he
      obtain ⟨ho, hh⟩ := hmutex u m' e ht
      rcases h.granted hp ht he with hw | ⟨ho', hh'⟩
      · exact .inl (hmem u m' e hw)
      · exact .inr ⟨ho.2 ho', (hh ho').trans hh'⟩
  failed {u m'} ht he := by
    by_cases e : u = t
    · subst e; exact (hself m' ht).2 he
    · rw [hparty u e] at ht he
      rw [ne_eq, (hmutex u m' e ht).1]
      exact h.failed ht he

/-- Only `wake` leaves a waiter without a reason. -/
theorem Core.granted {a : Act} (hst : Core P s a s') (hb : Base P s) (h : Granted s) (ha : ∀ t m, a ≠ .wake t m) :
    Granted s' := by
  cases hst with
  | other x hx =>
    refine ⟨fun {u m} hp ht he => ?_, fun {u m} ht he => ?_⟩
    all_goals
      rcases hx u with e | hq
      · simp only [e] at *
        first | exact h.granted hp ht he | exact h.failed ht he
      · have ht' : (x u).taking = some m := ht
        rw [hq.taking'] at ht'; cases ht'
  | @pop t m hc =>
    have htak : (s.party t).taking = some m := by rw [Party.taking, hc]; rfl
    refine h.update (t := t) (fun u hu => modParty_party_of_ne hu) (fun _ _ _ hu => hu)
      (fun _ _ _ _ => ⟨.rfl, fun _ => rfl⟩) fun m' hm' => ?_
    rw [modParty_party_self] at hm' ⊢
    obtain rfl : m = m' := Option.some.inj hm'
    exact ⟨fun hp he => h.granted hp htak he, fun he => h.failed htak he⟩
  | prio => exact h
  | @acquire t m hs hc ho' ho =>
    refine h.update (t := t) (fun u hu => by simp [modParty_party_of_ne hu]) (fun _ _ _ hu => hu) (fun u m' hu _ => ?_)
      fun m' hm' => ?_
    · by_cases e : m' = m
      · subst e; simp [ho, Ne.symm hu]
      · simp [modMutex_mutex_of_ne e]
    · simp [Party.taking, hc] at hm'
  | @nest t m hs hc ho hh =>
    refine h.update (t := t) (fun u hu => by simp [modParty_party_of_ne hu]) (fun _ _ _ hu => hu) (fun u m' hu _ => ?_)
      fun m' hm' => ?_
    · by_cases e : m' = m
      · subst e; simp [ho, Ne.symm hu]
      · simp [modMutex_mutex_of_ne e]
    · simp [Party.taking, hc] at hm'
  | @block t o m hs hc ha' ho hot hP =>
    refine h.update (t := t) (fun u hu => by simp [modParty_party_of_ne hu]) (fun _ _ _ hu => mem_link.2 (.inl hu))
      (fun _ _ _ _ => ⟨.rfl, fun _ => rfl⟩) fun m' hm' => ?_
    rw [link_party, modParty_party_self] at hm' ⊢
    obtain rfl : m = m' := Option.some.inj hm'
    exact ⟨fun _ _ => .inl (mem_link.2 (.inr ⟨rfl, rfl⟩)), fun he => absurd rfl he⟩
  | @unnest t m ho hh hc =>
    refine h.update (t := t) (fun _ _ => rfl) (fun _ _ _ hu => hu) (fun u m' hu _ => ?_) fun m' hm' => ?_
    · by_cases e : m' = m
      · subst e; simp [ho, Ne.symm hu]
      · simp [modMutex_mutex_of_ne e]
    · rw [modMutex_party, hc] at hm'; cases hm'
  | @free t m hc ho hh hw =>
    refine h.update (t := t) (fun _ _ => rfl) (fun _ _ _ hu => hu) (fun u m' hu _ => ?_) fun m' hm' => ?_
    · by_cases e : m' = m
      · subst e; simp [ho, Ne.symm hu]
      · simp [modMutex_mutex_of_ne e]
    · rw [modMutex_party, dropTaken_party, hc] at hm'; cases hm'
  | @grant t n m ns hc ha' ho hh hw =>
    have hn : n ∈ s.waiters m := by simp [hw]
    refine h.update (t := n) (fun u hu => modParty_party_of_ne hu) (fun u m' hu hm => Links.mem_remove.2 ⟨hm, hu⟩)
      (fun u m' hu hm => ?_) fun m' hm' => ?_
    · by_cases e : m' = m
      · subst e
        have hut : u ≠ t := by rintro rfl; rw [hc] at hm; cases hm
        simp [ho, Ne.symm hu, Ne.symm hut]
      · simp [modMutex_mutex_of_ne e]
    · rw [modParty_party_self] at hm'
      obtain rfl : m = m' := Option.some.inj ((hb.taking hn).1.symm.trans hm')
      refine ⟨fun _ _ => .inr (by simp), fun he => ?_⟩
      rw [modParty_party_self] at he
      exact absurd (hb.taking hn).2 he
  | @expire t m e he hw =>
    refine h.update (t := t) (fun u hu => modParty_party_of_ne hu) (fun u m' hu hm => Links.mem_remove.2 ⟨hm, hu⟩)
      (fun _ _ _ _ => ⟨.rfl, fun _ => rfl⟩) fun m' hm' => ?_
    rw [modParty_party_self] at hm' ⊢
    obtain rfl : m = m' := Option.some.inj ((hb.taking hw).1.symm.trans hm')
    obtain ⟨o, ho, hot⟩ := hb.owned hw
    refine ⟨fun _ he' => absurd he' he, fun _ => ?_⟩
    change (s.mutex m).owner ≠ some t
    rw [ho]
    exact fun e => hot (Option.some.inj e)
  | wake hw => exact absurd rfl (ha _ _)
  | finish hs hc he =>
    refine h.update (fun u hu => modParty_party_of_ne hu) (fun _ _ _ hu => hu) (fun _ _ _ _ => ⟨.rfl, fun _ => rfl⟩)
      fun m' hm' => ?_
    rw [modParty_party_self] at hm'; cases hm'
  | abort hs hc he ho =>
    refine h.update (fun u hu => modParty_party_of_ne hu) (fun _ _ _ hu => hu) (fun _ _ _ _ => ⟨.rfl, fun _ => rfl⟩)
      fun m' hm' => ?_
    rw [modParty_party_self] at hm'; cases hm'
  | @ceiling m p =>
    have hown := modMutex_part (s := s) (m := m) (g := fun x => { x with ceilingPriority := p }) Mutex.owner rfl
    have hhold := modMutex_part (s := s) (m := m) (g := fun x => { x with ceilingPriority := p }) Mutex.hold rfl
    exact ⟨fun hp ht he => by rw [hown, hhold]; exact h.granted hp ht he, fun ht he => by rw [hown]; exact h.failed ht he⟩
  | @close t hlive hp =>
    refine h.update (t := t) (fun u hu => modParty_party_of_ne hu) (fun u m' hu hm => Links.mem_remove.2 ⟨hm, hu⟩)
      (fun _ _ _ _ => ⟨.rfl, fun _ => rfl⟩) fun m' hm' => ?_
    rw [modParty_party_self] at hm' ⊢
    exact ⟨fun hc => absurd rfl hc, fun he => h.failed hm' he⟩
  | @drop t m hlive hp ha' ho =>
    refine h.update (t := t) (fun u hu => modParty_party_of_ne hu) (fun u m' hu hm => Links.mem_remove.2 ⟨hm, hu⟩)
      (fun _ _ _ _ => ⟨.rfl, fun _ => rfl⟩) fun m' hm' => ?_
    rw [modParty_party_self] at hm' ⊢
    exact ⟨fun hc => absurd rfl hc, fun he => h.failed hm' he⟩
  | @detach m object hobj ha' =>
    have hmutex (m' : MutexId) :
        ((((s.wakeAll m).dropTaken m).modMutex m fun x => { x with object := object }).mutex m').owner =
          (s.mutex m').owner ∧
        ((((s.wakeAll m).dropTaken m).modMutex m fun x => { x with object := object }).mutex m').hold =
          (s.mutex m').hold :=
      ⟨modMutex_part Mutex.owner rfl m', modMutex_part Mutex.hold rfl m'⟩
    refine ⟨fun {u m'} hp ht he => ?_, fun {u m'} ht he => ?_⟩
    · rw [modMutex_party, dropTaken_party] at hp ht he
      rw [(hmutex m').1, (hmutex m').2]
      by_cases e : u ∈ s.waiters m
      · rw [wakeAll_party_of_mem e] at he; cases he
      · rw [wakeAll_party_of_notMem e] at hp ht he
        refine (h.granted hp ht he).imp_left fun hw => ?_
        have hne : m' ≠ m := by rintro rfl; exact e hw
        change u ∈ Function.update s.waiters m [] m'
        rwa [Function.update_of_ne hne]
    · rw [modMutex_party, dropTaken_party] at ht he
      rw [(hmutex m').1]
      by_cases e : u ∈ s.waiters m
      · rw [wakeAll_party_of_mem e] at ht
        obtain rfl : m = m' := Option.some.inj ((hb.taking e).1.symm.trans ht)
        obtain ⟨o, ho, hou⟩ := hb.owned e
        rw [ho]
        exact fun ho' => hou (Option.some.inj ho')
      · rw [wakeAll_party_of_notMem e] at ht he
        exact h.failed ht he

/-! ## Counting -/

/-- How often a thread holds a mutex; one it was given before its take has returned does not count. -/
def held (s : Protocol) (t : ThreadId) (m : MutexId) : Nat :=
  if (s.mutex m).owner = some t ∧ (s.party t).taking ≠ some m then (s.mutex m).hold else 0

theorem held_of_owner (ho : (s.mutex m).owner = some t) (ht : (s.party t).taking ≠ some m) :
    s.held t m = (s.mutex m).hold := if_pos ⟨ho, ht⟩

theorem held_of_not_owner (ho : (s.mutex m).owner ≠ some t) : s.held t m = 0 := if_neg fun h => ho h.1

theorem held_congr (ho : (s'.mutex m).owner = (s.mutex m).owner) (hh : (s'.mutex m).hold = (s.mutex m).hold)
    (ht : (s'.party t).taking = some m ↔ (s.party t).taking = some m) : s'.held t m = s.held t m := by
  unfold held
  simp only [ho, hh, ne_eq, ht]

theorem Same.held (h : Same s s') (t : ThreadId) (m : MutexId) : s'.held t m = s.held t m :=
  held_congr (h.owner m) (h.hold m) (by rw [h.taking])

/-- The successful return of a mutex function that a step is. -/
def Act.ret : Act → Option Ret
  | .acquire t m | .nest t m | .finish t m => some (.mutexTake t m .eok)
  | .unnest t m | .free t m | .grant t m _ => some (.mutexRelease t m .eok)
  | _ => none

section Count

variable {a : Act} (hother : ∀ u m', u ≠ t ∨ m' ≠ m → s'.held u m' = s.held u m')
include hother

/-- A take that succeeds counts for its thread and its mutex. -/
theorem held_take (hret : a.ret = some (.mutexTake t m .eok)) (hself : s'.held t m = s.held t m + 1) (u : ThreadId)
    (m' : MutexId) :
    s'.held u m' + (if a.ret = some (.mutexRelease u m' .eok) then 1 else 0) =
      s.held u m' + (if a.ret = some (.mutexTake u m' .eok) then 1 else 0) := by
  rw [hret]
  by_cases e : u = t ∧ m' = m
  · obtain ⟨rfl, rfl⟩ := e
    simpa using hself
  · have hne : ¬(t = u ∧ m = m') := fun ⟨h1, h2⟩ => e ⟨h1.symm, h2.symm⟩
    simp [hne, hother u m' (not_and_or.1 e)]

theorem held_release (hret : a.ret = some (.mutexRelease t m .eok)) (hself : s'.held t m + 1 = s.held t m) (u : ThreadId)
    (m' : MutexId) :
    s'.held u m' + (if a.ret = some (.mutexRelease u m' .eok) then 1 else 0) =
      s.held u m' + (if a.ret = some (.mutexTake u m' .eok) then 1 else 0) := by
  rw [hret]
  by_cases e : u = t ∧ m' = m
  · obtain ⟨rfl, rfl⟩ := e
    simpa using hself
  · have hne : ¬(t = u ∧ m = m') := fun ⟨h1, h2⟩ => e ⟨h1.symm, h2.symm⟩
    simp [hne, hother u m' (not_and_or.1 e)]

end Count

/-- Only the mutex `m` changes, which none but `t` owns before and after. -/
theorem held_other (hmutex : ∀ m', m' ≠ m → s'.mutex m' = s.mutex m')
    (ht : ∀ u m', u ≠ t ∨ m' ≠ m → ((s'.party u).taking = some m' ↔ (s.party u).taking = some m'))
    (ho : ∀ u, u ≠ t → (s.mutex m).owner ≠ some u) (ho' : ∀ u, u ≠ t → (s'.mutex m).owner ≠ some u) (u : ThreadId)
    (m' : MutexId) (h : u ≠ t ∨ m' ≠ m) : s'.held u m' = s.held u m' := by
  by_cases e : m' = m
  · subst e
    have hu := h.resolve_right fun hn => hn rfl
    rw [held_of_not_owner (ho u hu), held_of_not_owner (ho' u hu)]
  · exact held_congr (by rw [hmutex m' e]) (by rw [hmutex m' e]) (ht u m' h)

/-- Takes and releases that succeed are counted by the hold count. -/
theorem Core.held {a : Act} (hst : Core P s a s') (hb : Base P s) (h : Granted s) (u : ThreadId) (m' : MutexId) :
    s'.held u m' + (if a.ret = some (.mutexRelease u m' .eok) then 1 else 0) =
      s.held u m' + (if a.ret = some (.mutexTake u m' .eok) then 1 else 0) := by
  cases hst with
  | other x hx =>
    refine congrArg (· + 0) (held_congr rfl rfl ?_)
    change (x u).taking = some m' ↔ _
    rcases hx u with e | hq
    · rw [e]
    · rw [hq.taking, hq.taking']
  | @pop t m hc =>
    exact congrArg (· + 0) (held_congr rfl rfl (by
      rw [modParty_part Party.taking (by rw [Party.taking, Party.taking, hc]; rfl)]))
  | prio => rfl
  | @acquire t m hs hc ha ho =>
    have htak (v : ThreadId) : ((s.modParty t fun x => { x with error := .eok }).party v).taking = (s.party v).taking :=
      modParty_part Party.taking rfl v
    refine held_take (t := t) (m := m) ?_ rfl ?_ u m'
    · exact held_other (fun m' e => by simp [modMutex_mutex_of_ne e]) (fun v _ _ => by simp [htak v]) (by simp [ho])
        fun v hv => by simpa using Ne.symm hv
    · have hnone : ((s.modParty t fun x => { x with error := .eok }).party t).taking ≠ some m := by
        rw [htak t, taking_of_cont_nil hc]; simp
      rw [held_of_not_owner (s := s) (by simp [ho])]
      refine (held_of_owner ?_ ?_).trans ?_
      · simp
      · exact hnone
      · simp
  | @nest t m hs hc ho hh =>
    have htak (v : ThreadId) : ((s.modParty t fun x => { x with error := .eok }).party v).taking = (s.party v).taking :=
      modParty_part Party.taking rfl v
    have hnone := taking_of_cont_nil hc
    refine held_take (t := t) (m := m) ?_ rfl ?_ u m'
    · exact held_other (fun m' e => modMutex_mutex_of_ne e) (fun v _ _ => by simp [htak v])
        (fun v hv => by simpa [ho] using Ne.symm hv) fun v hv => by simpa [ho] using Ne.symm hv
    · have hnone' : ((s.modParty t fun x => { x with error := .eok }).party t).taking ≠ some m := by
        rw [htak t, hnone]; simp
      rw [held_of_owner (s := s) ho (by simp [hnone])]
      refine (held_of_owner ?_ ?_).trans ?_
      · simpa using ho
      · exact hnone'
      · simp
  | @block t o m hs hc ha ho hot hP =>
    refine congrArg (· + 0) ?_
    by_cases e : u = t
    · subst e
      by_cases em : m' = m
      · subst em
        rw [held_of_not_owner (by simpa [ho] using hot), held_of_not_owner (by simpa [ho] using hot)]
      · refine held_congr rfl rfl ?_
        rw [link_party, modParty_party_self, taking_of_cont_nil hc]
        refine iff_of_false (fun hm => em (Option.some.inj hm).symm) (by simp)
    · exact held_congr rfl rfl (by rw [link_party, modParty_party_of_ne e])
  | @unnest t m ho hh hc =>
    refine held_release (t := t) (m := m) ?_ rfl ?_ u m'
    · exact held_other (fun m' e => modMutex_mutex_of_ne e) (fun _ _ _ => .rfl)
        (fun v hv => by simpa [ho] using Ne.symm hv) fun v hv => by simpa [ho] using Ne.symm hv
    · rw [held_of_owner (s := s) ho (by simp [hc]), held_of_owner (by simpa using ho) (by simp [hc])]
      simp only [modMutex_mutex_self]
      omega
  | @free t m hc ho hh hw =>
    refine held_release (t := t) (m := m) ?_ rfl ?_ u m'
    · exact held_other (fun m' e => modMutex_mutex_of_ne e) (fun _ _ _ => .rfl)
        (fun v hv => by simpa [ho] using Ne.symm hv) (by simp)
    · rw [held_of_owner (s := s) ho (by simp [hc]), held_of_not_owner (by simp), hh]
  | @grant t n m ns hc ha ho hh hw =>
    have hn : n ∈ s.waiters m := by simp [hw]
    have hnt : n ≠ t := by
      rintro rfl
      rw [(hb.taking hn).1] at hc; cases hc
    set s1 := ((((s.dropTaken m).unlink n).addTaken n m).modMutex m fun x => { x with owner := some n, hold := 1 }).modParty n
      fun x => { x with pending := none, phase := .active }
    have htak (v : ThreadId) : (s1.party v).taking = (s.party v).taking :=
      modParty_part (s := s) (t := n) (f := fun x => { x with pending := none, phase := .active }) Party.taking rfl v
    have hown : (s1.mutex m).owner = some n := by simp [s1]
    have hnot : s1.held t m = 0 := held_of_not_owner (by rw [hown]; simpa using hnt)
    refine held_release (t := t) (m := m) ?_ rfl (by rw [hnot, held_of_owner ho (by simp [hc]), hh]) u m'
    intro v m' hv
    by_cases e : m' = m
    · subst e
      have hvt := hv.resolve_right fun hn => hn rfl
      rw [held_of_not_owner (s := s) (by rw [ho]; simpa using Ne.symm hvt)]
      by_cases evn : v = n
      · subst evn
        exact if_neg fun hh => hh.2 ((htak v).trans (hb.taking hn).1)
      · exact held_of_not_owner (by rw [hown]; simpa using Ne.symm evn)
    · have hm : s1.mutex m' = s.mutex m' := by
        simp only [s1, modParty_mutex, modMutex_mutex_of_ne e, addTaken_mutex, unlink_mutex, dropTaken_mutex]
      exact held_congr (by rw [hm]) (by rw [hm]) (by rw [htak v])
  | @expire t m e he hw =>
    have htak (v : ThreadId) := modParty_part (s := s.unlink t) (t := t)
      (f := fun x => { x with phase := .active, error := e }) Party.taking rfl v
    exact congrArg (· + 0) (held_congr rfl rfl (by rw [htak u]; rfl))
  | @wake t m hw =>
    have htak (v : ThreadId) := modParty_part (s := s.unlink t) (t := t)
      (f := fun x => { x with phase := .active }) Party.taking rfl v
    exact congrArg (· + 0) (held_congr rfl rfl (by rw [htak u]; rfl))
  | @finish t m hs hc he =>
    have htak : (s.party t).taking = some m := by rw [Party.taking, hc]; rfl
    obtain ⟨ho, hh⟩ := (h.granted (by simp [hs]) htak he).resolve_left (hb.toLinked.notMem (by simp [hs]) m)
    have hnil : ((s.modParty t fun x => { x with cont := [] }).party t).taking = none := by
      rw [modParty_party_self]; rfl
    refine held_take (t := t) (m := m) ?_ rfl ?_ u m'
    · intro v m' hv
      refine held_congr rfl rfl ?_
      by_cases e : v = t
      · subst e
        have hm := hv.resolve_left fun hn => hn rfl
        rw [hnil, htak]
        simpa using Ne.symm hm
      · rw [modParty_party_of_ne e]
    · have hzero : s.held t m = 0 := if_neg fun hn => hn.2 htak
      rw [hzero]
      refine (held_of_owner ?_ ?_).trans hh
      · exact ho
      · rw [hnil]; simp
  | @abort t m hs hc he ho =>
    have htak : (s.party t).taking = some m := by rw [Party.taking, hc]; rfl
    have hnil : ((s.modParty t fun x => { x with cont := [] }).party t).taking = none := by
      rw [modParty_party_self]; rfl
    refine congrArg (· + 0) ?_
    by_cases e : u = t
    · subst e
      by_cases em : m' = m
      · subst em
        have hno := h.failed htak he
        refine Eq.trans (held_of_not_owner ?_) (held_of_not_owner hno).symm
        exact hno
      · refine held_congr rfl rfl ?_
        rw [hnil, htak]
        simpa using Ne.symm em
    · exact held_congr rfl rfl (by rw [modParty_party_of_ne e])
  | @ceiling m p =>
    exact congrArg (· + 0) (held_congr (modMutex_part Mutex.owner rfl m') (modMutex_part Mutex.hold rfl m') .rfl)
  | @close t hlive hp =>
    have htak (v : ThreadId) := modParty_part (s := s.unlink t) (t := t)
      (f := fun x => { x with phase := .closed }) Party.taking rfl v
    exact congrArg (· + 0) (held_congr rfl rfl (by rw [htak u]; rfl))
  | @drop t m hlive hp ha ho =>
    have htak (v : ThreadId) := modParty_part (s := s.unlink t) (t := t)
      (f := fun x => { x with phase := .closed, pending := none }) Party.taking rfl v
    exact congrArg (· + 0) (held_congr rfl rfl (by rw [htak u]; rfl))
  | @detach m object hobj ha =>
    refine congrArg (· + 0) (held_congr (modMutex_part Mutex.owner rfl m') (modMutex_part Mutex.hold rfl m') ?_)
    rw [modMutex_party, dropTaken_party]
    by_cases e : u ∈ s.waiters m
    · rw [wakeAll_party_of_mem e]; rfl
    · rw [wakeAll_party_of_notMem e]

end Protocol

namespace Kernel

variable {k k0 k' : Kernel} {ls : List (Ev × Option Ret)} {t u : ThreadId} {m : MutexId}

/-! ## Runs -/

/-- How often a call returned so. -/
def returned (r : Ret) (ls : List (Ev × Option Ret)) : Nat := (ls.map (·.2)).count (some r)

/-- The thread is between a successful take and the matching release. -/
def Holding (ls : List (Ev × Option Ret)) (t : ThreadId) (m : MutexId) : Prop :=
  returned (.mutexRelease t m .eok) ls < returned (.mutexTake t m .eok) ls

theorem returned_snoc (r : Ret) (ls : List (Ev × Option Ret)) (ev : Ev) (x : Option Ret) :
    returned r (ls ++ [(ev, x)]) = returned r ls + if x = some r then 1 else 0 := by
  simp [returned, List.count_cons]

variable {ev : Ev} {r : Option Ret} {a : Protocol.Act} {s' : Protocol}

/-- The successful return is that of the step of the protocol. -/
theorem From.ret (h : k.From ev r a) {x : Ret} (hx : x.MutexOk) : r = some x ↔ a.ret = some x := by
  cases a with
  | other => exact iff_of_false (fun e => h x e hx) (by simp [Protocol.Act.ret])
  | pop => rw [h.2]; rfl
  | expire | wake | prio | ceiling | close | drop | detach => rw [h.1]; rfl
  | acquire | nest | block | unnest | free | grant | finish => rw [h.2.1]; rfl
  | abort t m =>
    obtain ⟨-, ⟨e, he, rfl⟩, -⟩ := h
    refine iff_of_false (fun e' => ?_) (by simp [Protocol.Act.ret])
    rw [← Option.some.inj e'] at hx
    exact he hx

/-- What holds of the labels of a run and the state after it. -/
structure Exclusive (ls : List (Ev × Option Ret)) (s : Protocol) : Prop extends Protocol.Granted s where
  count : ∀ t m, returned (.mutexTake t m .eok) ls = returned (.mutexRelease t m .eok) ls + s.held t m
  last : ∀ l ∈ ls.getLast?, ∀ t m, l.2 = some (.mutexTake t m .eok) → (s.mutex m).owner = some t ∧ 1 ≤ (s.mutex m).hold

theorem Exclusive.congr {s : Protocol} (h : Exclusive ls s) (hs : Protocol.Same s s') : Exclusive ls s' where
  toGranted := h.toGranted.congr hs
  count t m := by rw [hs.held]; exact h.count t m
  last l hl t m he := by rw [hs.owner, hs.hold]; exact h.last l hl t m he

/-- A waiter of a mutex is not resumed from outside. -/
def NotWoken (k : Kernel) (ev : Ev) : Prop := ∀ t, ev = .resume t → ∀ m, t ∉ k.tlist (.mutex m)

theorem Exclusive.step {all : Prop} (I : k.MutexInv all)
    (h : Exclusive ls k.protocol) (hok : NotWoken k ev) (hfrom : k.From ev r a)
    (hst : Protocol.Core (Frames all) k.protocol a s') : Exclusive (ls ++ [(ev, r)]) s' := by
  have hwake : ∀ t m, a ≠ .wake t m := by
    rintro t m rfl
    cases hst with
    | wake hw => exact hok t hfrom.2 m hw
  refine ⟨hst.granted I.base h.toGranted hwake, fun t m => ?_, fun l hl t m he => ?_⟩
  · have hheld := hst.held I.base h.toGranted t m
    have htake := hfrom.ret (x := .mutexTake t m .eok) rfl
    have hrel := hfrom.ret (x := .mutexRelease t m .eok) rfl
    rw [returned_snoc, returned_snoc, h.count]
    simp only [htake, hrel]
    omega
  · simp only [List.getLast?_append, List.getLast?_singleton, Option.some_or, Option.mem_some_iff] at hl
    subst hl
    have hret := (hfrom.ret (x := .mutexTake t m .eok) rfl).1 he
    have hb' := hst.base I.base
    have hown : (s'.mutex m).owner = some t := by
      by_contra hne
      have hheld := hst.held I.base h.toGranted t m
      rw [hret, Protocol.held_of_not_owner hne] at hheld
      simp at hheld
    exact ⟨hown, (hb'.hold_pos hown).1⟩

/-- In every run without a resumed waiter: a take that has just returned `RT_EOK` made its caller the owner, and two
threads are never both between a successful take and the matching release. -/
theorem take_exclusive (hb : Boot k0)
    (hr : KRun (fun k ev => ev.isExclusion = true ∧ NotWoken k ev) k0 ls k) :
    (∀ l ∈ ls.getLast?, ∀ t m, l.2 = some (.mutexTake t m .eok) →
      (k.mutex m).owner = some t ∧ 1 ≤ (k.mutex m).hold) ∧
    ∀ t u m, t ≠ u → ¬(Holding ls t m ∧ Holding ls u m) := by
  have hboot : Exclusive [] k0.protocol := by
    refine ⟨⟨fun _ ht => ?_, fun ht => ?_⟩, fun t m => ?_, by simp⟩
    · rw [protocol_party, Protocol.taking_of_cont_nil (x := (k0.thread _).party) (hb.cont _)] at ht; cases ht
    · rw [protocol_party, Protocol.taking_of_cont_nil (x := (k0.thread _).party) (hb.cont _)] at ht; cases ht
    · rw [Protocol.held_of_not_owner (by simp [hb.owner])]; rfl
  obtain ⟨I, h⟩ := hr.core_history (J := Exclusive) hb hboot
    (fun _ _ ev I _ hok => I.fresh (by
      have := hok.1
      cases ev <;> first | rfl | cases this))
    (fun _ _ _ h hs => h.congr hs)
    (fun ls s s' hs h hst => by
      refine ⟨hst.granted hs h.toGranted (by simp), fun t m => ?_, fun l hl t m he => ?_⟩
      · rw [h.count]
        have := hst.held hs h.toGranted t m
        simpa [Protocol.Act.ret] using this.symm
      · cases hst with
        | other x hx => exact h.last l hl t m he)
    fun _ _ _ _ _ _ I h hok hfrom hst => h.step I hok.2 hfrom hst
  refine ⟨h.last, fun t u m htu ⟨ht, hu⟩ => ?_⟩
  have owner_of {t : ThreadId} (ht : Holding ls t m) : (k.mutex m).owner = some t := by
    by_contra hne
    have := h.count t m
    rw [Protocol.held_of_not_owner hne] at this
    unfold Holding at ht
    omega
  exact htu (Option.some.inj ((owner_of ht).symm.trans (owner_of hu)))

theorem take_exclusive_contended :
    (∀ l ∈ (labels 2 bootTwo contendedEvents).getLast?, ∀ t m, l.2 = some (.mutexTake t m .eok) →
      (contended.mutex m).owner = some t ∧ 1 ≤ (contended.mutex m).hold) ∧
    ∀ t u m, t ≠ u → ¬(Holding (labels 2 bootTwo contendedEvents) t m ∧ Holding (labels 2 bootTwo contendedEvents) u m) :=
  take_exclusive boot_bootTwo (KRun.of_exec _ _ _ (by decide) fun e he k =>
    ⟨List.all_eq_true.1 (by decide : contendedEvents.all Ev.isExclusion = true) e he, fun t ht => by
      subst ht; simp [contendedEvents] at he⟩)

/-- The waiter of `contended` is resumed, and runs on. -/
def resumedEvents : List Ev := contendedEvents ++ [.cont, .resume 1, .yield, .cont]

/-- A waiter that is resumed returns `RT_EOK` while another thread owns the mutex. -/
theorem not_take_exclusive :
    ¬∀ (k0 k : Kernel) (ls : List (Ev × Option Ret)), Boot k0 → KRun (fun _ ev => ev.isExclusion = true) k0 ls k →
      ∀ l ∈ ls.getLast?, ∀ t m, l.2 = some (.mutexTake t m .eok) →
        (k.mutex m).owner = some t ∧ 1 ≤ (k.mutex m).hold := by
  intro h
  have := (h bootTwo (after 2 bootTwo resumedEvents) _ boot_bootTwo
    (KRun.of_exec _ _ _ (by decide +kernel) fun e he _ => List.all_eq_true.1 (by decide) e he)
    (.cont, some (.mutexTake 1 0 .eok)) (by decide +kernel) 1 0 rfl).1
  revert this
  decide +kernel

end Kernel

end RtThread
